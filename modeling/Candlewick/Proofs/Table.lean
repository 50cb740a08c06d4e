import Candlewick.Table
import Mathlib.Algebra.BigOperators.Group.Finset.Basic
import Mathlib.Algebra.Order.BigOperators.Group.List
import Mathlib.Data.List.Nodup

/-! # Keys and sums of tables

What writing and erasing do to the keys of a table (`mem_keys_set`, `mem_keys_erase`) and to a sum
over its values: a value under a new key is added to the sum (`sumOf_set_new`) and an erased one
is taken out of it (`sumOf_erase`). -/

namespace Candlewick.Table
variable {κ ν : Type}

section Keyed
variable [DecidableEq κ]

theorem mem_entries_of_get? {t : Table κ ν} {k : κ} {v : ν} (h : t.get? k = some v) :
    (k, v) ∈ t.entries := by
  obtain ⟨e, he, rfl⟩ := Option.map_eq_some_iff.1 h
  have hk : e.1 = k := by simpa using List.find?_some he
  exact hk ▸ List.mem_of_find?_eq_some he

theorem get?_of_mem_entries {t : Table κ ν} {k : κ} {v : ν} (h : (k, v) ∈ t.entries) :
    t.get? k = some v := by
  obtain ⟨u, hu⟩ : ∃ u, t.get? k = some u := by
    cases hf : t.entries.find? fun e => e.1 = k with
    | none =>
      have hne := List.find?_eq_none.1 hf _ h
      simp at hne
    | some e => exact ⟨e.2, by simp [get?, hf]⟩
  have heq := List.inj_on_of_nodup_map t.distinct (mem_entries_of_get? hu) h rfl
  rw [hu, (Prod.mk.inj heq).2]

theorem mem_keys_iff {t : Table κ ν} {k : κ} : k ∈ t.keys ↔ ∃ v, t.get? k = some v := by
  constructor
  · intro h
    obtain ⟨e, he, rfl⟩ := List.mem_map.1 h
    exact ⟨e.2, get?_of_mem_entries he⟩
  · rintro ⟨v, hv⟩
    exact List.mem_map_of_mem (mem_entries_of_get? hv)

theorem get?_eq_some_iff {t : Table κ ν} {k : κ} {v : ν} :
    t.get? k = some v ↔ (k, v) ∈ t.entries :=
  ⟨mem_entries_of_get?, get?_of_mem_entries⟩

theorem get?_filter (t : Table κ ν) (p : κ → ν → Bool) (k : κ) :
    (t.filter p).get? k = (t.get? k).filter (p k) := by
  ext v
  simp [get?_eq_some_iff, filter, Option.filter_eq_some_iff]

theorem get?_mapValues {μ : Type} (t : Table κ ν) (f : κ → ν → μ) (k : κ) :
    (t.mapValues f).get? k = (t.get? k).map (f k) := by
  ext v
  simp only [get?_eq_some_iff, mapValues, List.mem_map, Prod.mk.injEq, Option.map_eq_some_iff]
  constructor
  · rintro ⟨e, he, rfl, rfl⟩
    exact ⟨e.2, he, rfl⟩
  · rintro ⟨u, hu, rfl⟩
    exact ⟨(k, u), hu, rfl, rfl⟩

theorem mem_keys_set {t : Table κ ν} {k j : κ} {v : ν} :
    j ∈ (t.set k v).keys ↔ j = k ∨ j ∈ t.keys := by
  rw [mem_keys_iff, mem_keys_iff]
  simp only [get?_set]
  by_cases h : j = k <;> simp [h]

theorem mem_keys_erase {t : Table κ ν} {k j : κ} : j ∈ (t.erase k).keys ↔ j ≠ k ∧ j ∈ t.keys := by
  rw [mem_keys_iff, mem_keys_iff]
  simp only [get?_erase]
  by_cases h : j = k <;> simp [h]

theorem getD_set (t : Table κ ν) (k j : κ) (v d : ν) :
    (t.set k v).getD j d = if j = k then v else t.getD j d := by
  unfold getD
  rw [get?_set]
  split <;> rfl

theorem getD_update (t : Table κ ν) (k j : κ) (d : ν) (f : ν → ν) :
    (t.update k d f).getD j d = if j = k then f (t.getD k d) else t.getD j d :=
  getD_set t k j _ d

theorem getD_setNew (t : Table κ ν) (k j : κ) (d : ν) : (t.setNew k d).getD j d = t.getD j d := by
  unfold setNew
  split
  next => rfl
  next hk =>
    rw [getD_set]
    split
    next hj =>
      subst hj
      rw [contains, Option.not_isSome_iff_eq_none] at hk
      rw [getD, hk, Option.getD_none]
    next => rfl

theorem mem_of_get?_ofList {es : List (κ × ν)} {k : κ} {v : ν}
    (h : (ofList es).get? k = some v) : (k, v) ∈ es := by
  have hfold : ∀ (es : List (κ × ν)) (t : Table κ ν),
      (es.foldl (fun t e => t.set e.1 e.2) t).get? k = some v →
      (k, v) ∈ es ∨ t.get? k = some v := by
    intro es
    induction es with
    | nil => exact fun t h => .inr h
    | cons e es ih =>
      intro t h
      rcases ih _ h with h | h
      · exact .inl (List.mem_cons_of_mem _ h)
      · rw [get?_set] at h
        split at h
        next hk =>
          cases h
          exact .inl (hk ▸ List.mem_cons_self ..)
        next => exact .inr h
  rcases hfold es empty h with h | h
  · exact h
  · cases h

theorem get?_foldl_set_of_nodup {es : List (κ × ν)} (h : (es.map Prod.fst).Nodup) (u : Table κ ν)
    (k : κ) : (es.foldl (fun u e => u.set e.1 e.2) u).get? k =
      ((es.find? fun e => e.1 = k).map Prod.snd).or (u.get? k) := by
  induction es generalizing u with
  | nil => rfl
  | cons e es ih =>
    obtain ⟨hnew, hnodup⟩ := List.nodup_cons.1 h
    rw [List.foldl_cons, ih hnodup, get?_set]
    by_cases hk : e.1 = k
    · subst hk
      have hnone : es.find? (fun e' => e'.1 = e.1) = none := by
        refine List.find?_eq_none.2 fun e' he' heq => hnew ?_
        rw [← of_decide_eq_true heq]
        exact List.mem_map_of_mem he'
      simp [hnone]
    · rw [if_neg (Ne.symm hk), List.find?_cons_of_neg (by simpa using hk)]

theorem get?_foldl_set (t u : Table κ ν) (k : κ) :
    (t.entries.foldl (fun u e => u.set e.1 e.2) u).get? k = (t.get? k).or (u.get? k) :=
  get?_foldl_set_of_nodup t.distinct u k

theorem get?_ofList {es : List (κ × ν)} (h : (es.map Prod.fst).Nodup) (k : κ) :
    (ofList es).get? k = (es.find? fun e => e.1 = k).map Prod.snd :=
  (get?_foldl_set_of_nodup h empty k).trans Option.or_none

/-! ### The order of the keys -/

theorem setEntry_of_not_mem {k : κ} {v : ν} {es : List (κ × ν)} (h : k ∉ es.map Prod.fst) :
    setEntry k v es = es ++ [(k, v)] := by
  induction es with
  | nil => rfl
  | cons e es ih =>
    rw [List.map_cons, List.mem_cons, not_or] at h
    rw [setEntry, if_neg fun he => h.1 he.symm, ih h.2, List.cons_append]

theorem map_fst_setEntry {k : κ} {v : ν} {es : List (κ × ν)} (h : k ∈ es.map Prod.fst) :
    (setEntry k v es).map Prod.fst = es.map Prod.fst := by
  induction es with
  | nil => cases h
  | cons e es ih =>
    rw [setEntry]
    split
    next he => rw [List.map_cons, List.map_cons, he]
    next he =>
      have hmem : k ∈ es.map Prod.fst := (List.mem_cons.1 h).resolve_left fun hk => he hk.symm
      rw [List.map_cons, List.map_cons, ih hmem]

theorem keys_set (t : Table κ ν) (k : κ) (v : ν) :
    (t.set k v).keys = if k ∈ t.keys then t.keys else t.keys ++ [k] := by
  have hentries : (t.set k v).keys = (setEntry k v t.entries).map Prod.fst := rfl
  rw [hentries]
  split
  next h => exact map_fst_setEntry h
  next h => rw [setEntry_of_not_mem h, List.map_append]; rfl

theorem contains_iff {t : Table κ ν} {k : κ} : t.contains k = true ↔ k ∈ t.keys := by
  rw [contains, Option.isSome_iff_exists, mem_keys_iff]

theorem setNew_of_mem {t : Table κ ν} {k : κ} (v : ν) (h : k ∈ t.keys) : t.setNew k v = t :=
  if_pos (contains_iff.2 h)

theorem entries_setNew {t : Table κ ν} {k : κ} (v : ν) (h : k ∉ t.keys) :
    (t.setNew k v).entries = t.entries ++ [(k, v)] := by
  rw [setNew, if_neg (mt contains_iff.1 h)]
  exact setEntry_of_not_mem h

theorem keys_setNew (t : Table κ ν) (k : κ) (v : ν) :
    (t.setNew k v).keys = if k ∈ t.keys then t.keys else t.keys ++ [k] := by
  split
  next h => rw [setNew_of_mem v h]
  next h => rw [keys, entries_setNew v h, List.map_append]; rfl

/-! ### Sums over the values -/

variable {M : Type} [AddCommMonoid M]

/-- The sum of what a function makes of the values. -/
def sumOf (t : Table κ ν) (f : ν → M) : M := (t.values.map f).sum

omit [DecidableEq κ] in
@[simp] theorem sumOf_empty (f : ν → M) : (empty : Table κ ν).sumOf f = 0 := rfl

theorem sumOf_set_new {t : Table κ ν} {k : κ} (v : ν) (f : ν → M) (h : k ∉ t.keys) :
    (t.set k v).sumOf f = t.sumOf f + f v := by
  have hes : (t.set k v).entries = t.entries ++ [(k, v)] := setEntry_of_not_mem h
  simp [sumOf, values, hes]

theorem filter_ne_of_not_mem {k : κ} {es : List (κ × ν)} (h : k ∉ es.map Prod.fst) :
    (es.filter fun e => e.1 ≠ k) = es := by
  refine List.filter_eq_self.2 fun e he => ?_
  have hne : e.1 ≠ k := fun hk => h (hk ▸ List.mem_map_of_mem he)
  simpa using hne

theorem sum_filter_ne {k : κ} {v : ν} (f : ν → M) {es : List (κ × ν)}
    (hd : (es.map Prod.fst).Nodup) (h : (k, v) ∈ es) :
    ((es.filter fun e => e.1 ≠ k).map fun e => f e.2).sum + f v =
      (es.map fun e => f e.2).sum := by
  induction es with
  | nil => cases h
  | cons e es ih =>
    rw [List.map_cons, List.nodup_cons] at hd
    rcases List.mem_cons.1 h with rfl | h
    · have hes := filter_ne_of_not_mem hd.1
      simp only [ne_eq, decide_not] at hes
      simp [hes, add_comm]
    · have hne : e.1 ≠ k := fun he => hd.1 (he ▸ List.mem_map_of_mem h)
      have ih := ih hd.2 h
      rw [List.filter_cons_of_pos (by simpa using hne), List.map_cons, List.map_cons,
        List.sum_cons, List.sum_cons, add_assoc, ih]

theorem sumOf_erase {t : Table κ ν} {k : κ} {v : ν} (f : ν → M) (h : t.get? k = some v) :
    (t.erase k).sumOf f + f v = t.sumOf f := by
  have hs := sum_filter_ne f t.distinct (mem_entries_of_get? h)
  simpa [sumOf, values, erase, filter, List.map_map, Function.comp_def] using hs

theorem sumOf_nonneg [Preorder M] [AddLeftMono M] {t : Table κ ν} {f : ν → M}
    (h : ∀ k v, t.get? k = some v → 0 ≤ f v) : 0 ≤ t.sumOf f := by
  refine List.sum_nonneg fun x hx => ?_
  obtain ⟨v, hv, rfl⟩ := List.mem_map.1 hx
  obtain ⟨e, he, rfl⟩ := List.mem_map.1 hv
  exact h e.1 e.2 (get?_of_mem_entries he)

theorem le_sumOf [Preorder M] [AddLeftMono M] {t : Table κ ν} {f : ν → M}
    (h : ∀ k v, t.get? k = some v → 0 ≤ f v) {k : κ} {v : ν} (hv : t.get? k = some v) :
    f v ≤ t.sumOf f := by
  have hrest : 0 ≤ (t.erase k).sumOf f := sumOf_nonneg fun j u hu => by
    rw [get?_erase] at hu
    split at hu
    · cases hu
    · exact h j u hu
  rw [← sumOf_erase f hv]
  exact le_add_of_nonneg_left hrest

end Keyed

/-- A sum in the order of the keys is a sum over their set. -/
theorem sum_sorted {ν M : Type} [AddCommMonoid M] (t : Table String ν) (f : String → ν → M) :
    (t.sorted.map fun e => f e.1 e.2).sum = ∑ k ∈ t.keys.toFinset, (t.get? k).elim 0 (f k) := by
  have hnodup : t.keys.Nodup := t.distinct
  have hperm : t.sorted.Perm t.entries := List.mergeSort_perm ..
  have hentries : (t.entries.map fun e => f e.1 e.2) =
      t.keys.map fun k => (t.get? k).elim 0 (f k) := by
    rw [keys, List.map_map]
    refine List.map_congr_left fun e he => ?_
    simp [get?_of_mem_entries (k := e.1) (v := e.2) he]
  rw [(hperm.map _).sum_eq, hentries, List.sum_toFinset _ hnodup]

/-- The values of a table that has only one key. -/
theorem sorted_eq_singleton {ν : Type} {t : Table String ν} {k : String} {v : ν}
    (hk : ∀ j ∈ t.keys, j = k) (h : t.get? k = some v) : t.sorted = [(k, v)] := by
  have hes : t.entries = [(k, v)] := by
    have hmem := mem_entries_of_get? h
    have hd := t.distinct
    rcases hes : t.entries with - | ⟨e, _ | ⟨f, es⟩⟩
    · rw [hes] at hmem
      cases hmem
    · rw [hes, List.mem_singleton] at hmem
      rw [hmem]
    · have he : e.1 = k := hk e.1 (List.mem_map_of_mem (hes ▸ List.mem_cons_self ..))
      have hf : f.1 = k :=
        hk f.1 (List.mem_map_of_mem (hes ▸ List.mem_cons_of_mem _ (List.mem_cons_self ..)))
      rw [hes] at hd
      simp [he, hf] at hd
  simp [sorted, hes]

end Candlewick.Table
