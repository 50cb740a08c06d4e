import Mathlib.Data.List.Basic
import Mathlib.Data.List.Pairwise
import Mathlib.Order.Defs.Unbundled

/-! # Stable sorting

An order that leaves elements tied does not say where they go, but a stable sort does: tied elements
stay as they are (`filter_tied_mergeSort`). A list that is in order is known once it is known what
it has of every class of ties (`eq_of_filter_tied`), so whatever is in order and agrees with a list
on every class of ties is what sorting makes of that list (`eq_mergeSort`). -/

namespace Candlewick.StableSort
variable {τ : Type}

/-- Whether an order does not tell two elements apart. -/
def tied (le : τ → τ → Bool) (a b : τ) : Bool := le a b && le b a

theorem tied_iff {le : τ → τ → Bool} {a b : τ} :
    tied le a b = true ↔ le a b = true ∧ le b a = true := by
  simp [tied]

section Sorting
variable {le : τ → τ → Bool} (htrans : ∀ a b c, le a b = true → le b c = true → le a c = true)
  (htotal : ∀ a b, (le a b || le b a) = true)

include htotal in
theorem tied_self (a : τ) : tied le a a = true := by
  have h := htotal a a
  rw [Bool.or_self] at h
  exact tied_iff.2 ⟨h, h⟩

include htotal in
/-- The first element of a list in order comes before whatever agrees with it on ties. -/
theorem le_head {a b : τ} {l l' : List τ} (hl : (a :: l).Pairwise fun b c => le b c = true)
    (h : (a :: l).filter (tied le b) = (b :: l').filter (tied le b)) : le a b = true := by
  have hb : b ∈ (a :: l).filter (tied le b) := by
    rw [h]
    exact List.mem_filter.2 ⟨List.mem_cons_self .., tied_self htotal b⟩
  rcases List.mem_cons.1 (List.mem_filter.1 hb).1 with rfl | hb
  · exact (tied_iff.1 (tied_self htotal b)).1
  · exact List.rel_of_pairwise_cons hl hb

include htotal in
theorem eq_of_filter_tied {l l' : List τ} (hl : l.Pairwise fun a b => le a b = true)
    (hl' : l'.Pairwise fun a b => le a b = true)
    (h : ∀ a, l.filter (tied le a) = l'.filter (tied le a)) : l = l' := by
  induction l generalizing l' with
  | nil =>
    cases l' with
    | nil => rfl
    | cons b l' =>
      have hb := h b
      rw [List.filter_cons_of_pos (tied_self htotal b)] at hb
      cases hb
  | cons a l ih =>
    cases l' with
    | nil =>
      have ha := h a
      rw [List.filter_cons_of_pos (tied_self htotal a)] at ha
      cases ha
    | cons b l' =>
      have hab : tied le a b = true :=
        tied_iff.2 ⟨le_head htotal hl (h b), le_head htotal hl' (h a).symm⟩
      have heq := h a
      rw [List.filter_cons_of_pos (tied_self htotal a), List.filter_cons_of_pos hab] at heq
      obtain ⟨rfl, -⟩ := List.cons.inj heq
      refine congrArg (a :: ·) (ih hl.of_cons hl'.of_cons fun c => ?_)
      have hc := h c
      by_cases hca : tied le c a = true
      · rw [List.filter_cons_of_pos hca, List.filter_cons_of_pos hca] at hc
        exact (List.cons.inj hc).2
      · rwa [List.filter_cons_of_neg hca, List.filter_cons_of_neg hca] at hc

include htrans htotal

theorem filter_tied_mergeSort (l : List τ) (a : τ) :
    (l.mergeSort le).filter (tied le a) = l.filter (tied le a) := by
  have hpair : (l.filter (tied le a)).Pairwise fun b c => le b c = true := by
    refine List.pairwise_of_forall_mem_list fun b hb c hc => ?_
    have hab := tied_iff.1 (List.mem_filter.1 hb).2
    have hac := tied_iff.1 (List.mem_filter.1 hc).2
    exact htrans b a c hab.2 hac.1
  have hsub := (List.sublist_mergeSort htrans htotal hpair List.filter_sublist).filter (tied le a)
  rw [List.filter_filter] at hsub
  simp only [Bool.and_self] at hsub
  exact (hsub.eq_of_length ((List.mergeSort_perm l le).filter _).length_eq.symm).symm

theorem eq_mergeSort {l s : List τ} (hs : s.Pairwise fun a b => le a b = true)
    (h : ∀ a, s.filter (tied le a) = l.filter (tied le a)) : s = l.mergeSort le :=
  eq_of_filter_tied htotal hs (List.pairwise_mergeSort htrans htotal l) fun a => by
    rw [h a, filter_tied_mergeSort htrans htotal]

/-- Lists that agree on every class of ties are sorted to the same list. -/
theorem mergeSort_congr {l l' : List τ} (h : ∀ a, l.filter (tied le a) = l'.filter (tied le a)) :
    l.mergeSort le = l'.mergeSort le :=
  eq_mergeSort htrans htotal (List.pairwise_mergeSort htrans htotal l) fun a => by
    rw [filter_tied_mergeSort htrans htotal, h a]

/-- A part of a list is sorted as the whole is. -/
theorem filter_mergeSort (l : List τ) (p : τ → Bool) :
    (l.mergeSort le).filter p = (l.filter p).mergeSort le := by
  refine eq_mergeSort htrans htotal ((List.pairwise_mergeSort htrans htotal l).filter p) fun a => ?_
  rw [List.filter_comm, filter_tied_mergeSort htrans htotal, List.filter_comm]

end Sorting

/-- What comes first in a list comes before the rest of it. -/
theorem filter_append_filter_not {p : τ → Bool} {l : List τ}
    (h : l.Pairwise fun a b => p b = true → p a = true) :
    l.filter p ++ l.filter (!p ·) = l := by
  induction l with
  | nil => rfl
  | cons a l ih =>
    obtain ⟨ha, hl⟩ := List.pairwise_cons.1 h
    by_cases hp : p a = true
    · simpa [hp] using ih hl
    · have hnone : ∀ b ∈ l, ¬ p b = true := fun b hb hpb => hp (ha b hb hpb)
      have hrest : l.filter (!p ·) = l := List.filter_eq_self.2 fun b hb => by
        simpa using hnone b hb
      simp [hp, hrest, List.filter_eq_nil_iff.2 hnone]

/-! ### Strict orders -/

/-- Not after, in a strict order. -/
def notAfter (lt : τ → τ → Bool) (a b : τ) : Bool := !lt b a

theorem notAfter_iff {lt : τ → τ → Bool} {a b : τ} :
    notAfter lt a b = true ↔ lt b a = false := by
  simp [notAfter]

section Strict
variable {lt : τ → τ → Bool} [IsStrictWeakOrder τ fun a b => lt a b = true]

theorem not_self (a : τ) : lt a a = false :=
  Bool.eq_false_iff.2 (irrefl_of (fun a b => lt a b = true) a)

theorem lt_trans {a b c : τ} (hab : lt a b = true) (hbc : lt b c = true) : lt a c = true :=
  trans_of (fun a b => lt a b = true) hab hbc

theorem lt_asymm {a b : τ} (h : lt a b = true) : lt b a = false :=
  Bool.eq_false_iff.2 (asymm_of (fun a b => lt a b = true) h)

theorem not_lt_trans {a b c : τ} (hab : lt a b = false) (hbc : lt b c = false) :
    lt a c = false := by
  refine Bool.eq_false_iff.2 fun hac => ?_
  rw [Bool.eq_false_iff] at hab hbc
  have hba : ¬ lt b a = true := fun h => hbc (lt_trans h hac)
  have hcb : ¬ lt c b = true := fun h => hab (lt_trans hac h)
  have hincomp := @IsStrictWeakOrder.incomp_trans _ (fun a b => lt a b = true) _ a b c
  exact (hincomp ⟨hab, hba⟩ ⟨hbc, hcb⟩).1 hac

theorem lt_of_lt_of_not_lt {a b c : τ} (hab : lt a b = true) (hcb : lt c b = false) :
    lt a c = true := by
  by_contra h
  rw [not_lt_trans (Bool.eq_false_iff.2 h) hcb] at hab
  cases hab

theorem lt_of_not_lt_of_lt {a b c : τ} (hba : lt b a = false) (hbc : lt b c = true) :
    lt a c = true := by
  by_contra h
  rw [not_lt_trans hba (Bool.eq_false_iff.2 h)] at hbc
  cases hbc

theorem notAfter_trans (a b c : τ) (hab : notAfter lt a b = true) (hbc : notAfter lt b c = true) :
    notAfter lt a c = true :=
  notAfter_iff.2 (not_lt_trans (notAfter_iff.1 hbc) (notAfter_iff.1 hab))

theorem notAfter_total (a b : τ) : (notAfter lt a b || notAfter lt b a) = true := by
  by_cases h : lt b a = true
  · simp [notAfter, lt_asymm h]
  · simp [notAfter, h]

end Strict

end Candlewick.StableSort
