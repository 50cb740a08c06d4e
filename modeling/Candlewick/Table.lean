/-! # Finite tables

`Table κ ν` maps finitely many keys to values. It is a list of entries with distinct keys in the
order in which the keys were first written; what a reader relies on is `Table.get?` and the laws
`get?_set` and `get?_erase`. -/

namespace Candlewick

/-- A finite map from `κ` to `ν`, its keys in the order of their first writing. -/
structure Table (κ ν : Type) where
  /-- The entries, oldest key first. -/
  entries : List (κ × ν)
  /-- No key occurs twice. -/
  distinct : (entries.map Prod.fst).Nodup
deriving DecidableEq

namespace Table
variable {κ ν : Type}

/-- No entries. -/
def empty : Table κ ν := ⟨[], by simp⟩

instance : Inhabited (Table κ ν) := ⟨empty⟩

/-- The keys, oldest first. -/
def keys (t : Table κ ν) : List κ := t.entries.map Prod.fst

/-- The values, in the order of their keys. -/
def values (t : Table κ ν) : List ν := t.entries.map Prod.snd

/-- The number of keys. -/
def size (t : Table κ ν) : Nat := t.entries.length

/-- No key at all. -/
def isEmpty (t : Table κ ν) : Bool := t.entries.isEmpty

section Keyed
variable [DecidableEq κ]

/-- The value under a key. -/
def get? (t : Table κ ν) (k : κ) : Option ν :=
  (t.entries.find? fun e => e.1 = k).map Prod.snd

/-- The value under a key, or a default. -/
def getD (t : Table κ ν) (k : κ) (v : ν) : ν := (t.get? k).getD v

/-- Whether a key is present. -/
def contains (t : Table κ ν) (k : κ) : Bool := (t.get? k).isSome

/-- The list with the value under `k` replaced, or added at the end. -/
def setEntry (k : κ) (v : ν) : List (κ × ν) → List (κ × ν)
  | [] => [(k, v)]
  | e :: es => if e.1 = k then (k, v) :: es else e :: setEntry k v es

theorem mem_map_setEntry {k j : κ} {v : ν} {es : List (κ × ν)}
    (h : j ∈ (setEntry k v es).map Prod.fst) : j = k ∨ j ∈ es.map Prod.fst := by
  induction es with
  | nil => simp_all [setEntry]
  | cons e es ih =>
    unfold setEntry at h
    split at h <;> simp_all
    grind

theorem nodup_setEntry (k : κ) (v : ν) {es : List (κ × ν)} (h : (es.map Prod.fst).Nodup) :
    ((setEntry k v es).map Prod.fst).Nodup := by
  induction es with
  | nil => simp [setEntry]
  | cons e es ih =>
    rw [List.map_cons, List.nodup_cons] at h
    unfold setEntry
    split
    next hk => subst hk; simpa using h
    next hk =>
      rw [List.map_cons, List.nodup_cons]
      refine ⟨fun hm => ?_, ih h.2⟩
      rcases mem_map_setEntry hm with rfl | hm
      · exact hk rfl
      · exact h.1 hm

/-- The table with `v` under `k`. -/
def set (t : Table κ ν) (k : κ) (v : ν) : Table κ ν :=
  ⟨setEntry k v t.entries, nodup_setEntry k v t.distinct⟩

/-- The table with the value under `k`, or `v` where there is none, changed by `f`. -/
def update (t : Table κ ν) (k : κ) (v : ν) (f : ν → ν) : Table κ ν :=
  t.set k (f (t.getD k v))

/-- The table with `v` under `k` unless `k` is present already. -/
def setNew (t : Table κ ν) (k : κ) (v : ν) : Table κ ν :=
  if t.contains k then t else t.set k v

/-- The table without the entries that fail a test. -/
def filter (t : Table κ ν) (p : κ → ν → Bool) : Table κ ν :=
  ⟨t.entries.filter fun e => p e.1 e.2,
    t.distinct.sublist (List.filter_sublist.map Prod.fst)⟩

/-- The table without `k`. -/
def erase (t : Table κ ν) (k : κ) : Table κ ν :=
  t.filter fun j _ => j ≠ k

/-- The table with every value changed by `f`. -/
def mapValues {μ : Type} (t : Table κ ν) (f : κ → ν → μ) : Table κ μ :=
  ⟨t.entries.map fun e => (e.1, f e.1 e.2), by
    have h : (t.entries.map fun e => (e.1, f e.1 e.2)).map Prod.fst = t.entries.map Prod.fst := by
      simp
    rw [h]; exact t.distinct⟩

/-- Whether two tables have the same keys, with values that pass a test. -/
def agrees (s t : Table κ ν) (p : ν → ν → Bool) : Bool :=
  s.size = t.size && s.entries.all fun e => (t.get? e.1).any (p e.2)

/-- The table that the pairs of a list write one after the other. -/
def ofList (es : List (κ × ν)) : Table κ ν :=
  es.foldl (fun t e => t.set e.1 e.2) empty

/-! ### What a lookup sees -/

@[simp] theorem get?_empty (k : κ) : (empty : Table κ ν).get? k = none := rfl

theorem find?_setEntry (k j : κ) (v : ν) (es : List (κ × ν)) :
    ((setEntry k v es).find? fun e => e.1 = j).map Prod.snd =
      if j = k then some v else (es.find? fun e => e.1 = j).map Prod.snd := by
  induction es with
  | nil => by_cases h : j = k <;> simp [setEntry, h, eq_comm]
  | cons e es ih =>
    unfold setEntry
    by_cases hk : e.1 = k
    · subst hk
      by_cases hj : j = e.1
      · subst hj; simp
      · have hj' : ¬ e.1 = j := fun h => hj h.symm
        simp [hj, hj']
    · rw [if_neg hk]
      by_cases hj : e.1 = j
      · subst hj; simp [hk]
      · simp only [List.find?_cons, hj, decide_false]; exact ih

/-- Writing under `k` is seen at `k` and nowhere else. -/
theorem get?_set (t : Table κ ν) (k j : κ) (v : ν) :
    (t.set k v).get? j = if j = k then some v else t.get? j :=
  find?_setEntry k j v t.entries

/-- Erasing `k` is seen at `k` and nowhere else. -/
theorem get?_erase (t : Table κ ν) (k j : κ) :
    (t.erase k).get? j = if j = k then none else t.get? j := by
  unfold erase filter get?
  simp only
  rw [List.find?_filter]
  by_cases h : j = k
  · subst h
    rw [if_pos rfl]
    rw [List.find?_eq_none.2 (by intro e _; simp)]
    rfl
  · rw [if_neg h]
    congr 1
    congr 1
    funext e
    by_cases he : e.1 = j
    · subst he; simp [h]
    · simp [he]

end Keyed

/-- The entries in the order of their keys, for texts. -/
def sorted (t : Table String ν) : List (String × ν) :=
  t.entries.mergeSort fun a b => decide (a.1 ≤ b.1)

end Table

end Candlewick
