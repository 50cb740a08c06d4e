import Candlewick.Sequencer.Heap
import Candlewick.Proofs.StableSort

/-! # The order of a heap

In a heap that is `Heap.Ordered` no element goes before one above it, so the top is one that none
goes before (`Ordered.top_first`). Merging loses nothing and adds nothing (`toList_merge`), and for
a strict weak order it keeps heaps ordered (`Ordered.merge`); adding an element and taking the first
one are merges. -/

namespace Candlewick.Heap
variable {τ : Type} {before : τ → τ → Bool}

theorem length_toList (h : Heap τ) : h.toList.length = h.size := by
  induction h with
  | leaf => rfl
  | node _ l a r ihl ihr =>
    simp only [toList, size, List.length_cons, List.length_append, ihl, ihr]
    omega

theorem toList_join (a : τ) (l r : Heap τ) :
    (join a l r).toList.Perm (a :: (l.toList ++ r.toList)) := by
  unfold join
  split
  · exact .refl _
  · exact List.perm_append_comm.cons a

theorem toList_merge (g h : Heap τ) : (merge before g h).toList.Perm (g.toList ++ h.toList) := by
  induction g generalizing h with
  | leaf => exact .refl _
  | node k l a r _ ihr =>
    rw [merge]
    induction h with
    | leaf =>
      rw [mergeOver, toList, toList, List.append_nil]
      exact toList_join a l r
    | node k' l' b r' _ ihr' =>
      rw [mergeOver]
      split
      · refine (toList_join b l' _).trans ?_
        have hrest := (ihr'.append_left l'.toList).cons b
        refine hrest.trans ?_
        have hswap := List.perm_append_comm_assoc l'.toList (node k l a r).toList r'.toList
        exact (hswap.cons b).trans List.perm_middle.symm
      · refine (toList_join a l _).trans ?_
        have hrest := ((ihr (node k' l' b r')).append_left l.toList).cons a
        rwa [← List.append_assoc] at hrest

/-- No element goes before one above it. -/
def Ordered (before : τ → τ → Bool) : Heap τ → Prop
  | leaf => True
  | node _ l a r =>
    (∀ b ∈ l.toList ++ r.toList, before b a = false) ∧ l.Ordered before ∧ r.Ordered before

theorem Ordered.join {a : τ} {l r : Heap τ} (ha : ∀ b ∈ l.toList ++ r.toList, before b a = false)
    (hl : l.Ordered before) (hr : r.Ordered before) : (join a l r).Ordered before := by
  unfold Heap.join
  split
  · exact ⟨ha, hl, hr⟩
  · exact ⟨fun b hb => ha b (List.mem_append.2 (List.mem_append.1 hb).symm), hr, hl⟩

variable [IsStrictWeakOrder τ fun a b => before a b = true]

theorem Ordered.top_first {k : Nat} {l r : Heap τ} {a : τ} (h : (node k l a r).Ordered before) :
    ∀ b ∈ (node k l a r).toList, before b a = false := by
  intro b hb
  rcases List.mem_cons.1 hb with rfl | hb
  · exact StableSort.not_self b
  · exact h.1 b hb

theorem Ordered.merge {g h : Heap τ} (hg : g.Ordered before) (hh : h.Ordered before) :
    (merge before g h).Ordered before := by
  induction g generalizing h with
  | leaf => exact hh
  | node k l a r _ ihr =>
    obtain ⟨ha, hl, hr⟩ := hg
    rw [Heap.merge]
    induction h with
    | leaf => exact .join ha hl hr
    | node k' l' b r' _ ihr' =>
      have hb := hh
      obtain ⟨hb', hl', hr'⟩ := hh
      rw [mergeOver]
      split
      next hba =>
        -- `b` goes before `a`, so nothing from under `a` goes before `b`
        refine .join (fun c hc => ?_) hl' (ihr' hr')
        rcases List.mem_append.1 hc with hc | hc
        · exact hb' c (List.mem_append_left _ hc)
        · have hc := (toList_merge (node k l a r) r').subset hc
          rcases List.mem_append.1 hc with hc | hc
          · have hca : before c a = false := by
              rcases List.mem_cons.1 hc with rfl | hc
              · exact StableSort.not_self c
              · exact ha c hc
            exact StableSort.not_lt_trans hca (StableSort.lt_asymm hba)
          · exact hb' c (List.mem_append_right _ hc)
      next hba =>
        refine .join (fun c hc => ?_) hl (ihr hr hb)
        rcases List.mem_append.1 hc with hc | hc
        · exact ha c (List.mem_append_left _ hc)
        · rcases List.mem_append.1 ((toList_merge r _).subset hc) with hc | hc
          · exact ha c (List.mem_append_right _ hc)
          · exact StableSort.not_lt_trans (hb.top_first c hc) (Bool.eq_false_iff.2 hba)

/-! ### Operations -/

omit [IsStrictWeakOrder τ fun a b => before a b = true] in
theorem toList_insert (a : τ) (h : Heap τ) : (insert before a h).toList.Perm (a :: h.toList) :=
  toList_merge (single a) h

theorem Ordered.insert {a : τ} {h : Heap τ} (hh : h.Ordered before) :
    (insert before a h).Ordered before := by
  have hsingle : (single a).Ordered before := ⟨by simp [toList], trivial, trivial⟩
  exact hsingle.merge hh

/-- What is taken out of a heap goes before all that stays or is tied with it. -/
theorem Ordered.pop {h h' : Heap τ} {a : τ} (hh : h.Ordered before)
    (hp : h.pop? before = some (a, h')) :
    h.first? = some a ∧ h.toList.Perm (a :: h'.toList) ∧ h'.Ordered before ∧
      ∀ b ∈ h.toList, before b a = false := by
  cases h with
  | leaf => cases hp
  | node k l b r =>
    cases hp
    exact ⟨rfl, (toList_merge l r).symm.cons a, hh.2.1.merge hh.2.2, hh.top_first⟩

omit [IsStrictWeakOrder τ fun a b => before a b = true] in
theorem pop?_eq_none {h : Heap τ} (hp : h.pop? before = none) :
    h.first? = none ∧ h.toList = [] := by
  cases h with
  | leaf => exact ⟨rfl, rfl⟩
  | node => cases hp

end Candlewick.Heap
