/-! # Heaps

A leftist heap: a binary tree in which no element comes after those below it and the shortest way
down is always to the right. `Heap.merge` walks down the right sides of two heaps only; adding an
element and taking the first one are merges. The order is an argument of every operation, so that
it may be any test. -/

namespace Candlewick

/-- A binary tree of elements. -/
inductive Heap (τ : Type) where
  | leaf
  /-- `rank` is the length of the right side of the tree. -/
  | node (rank : Nat) (left : Heap τ) (top : τ) (right : Heap τ)
deriving Inhabited

namespace Heap
variable {τ : Type}

/-- The length of the right side. -/
def rank : Heap τ → Nat
  | leaf => 0
  | node r _ _ _ => r

/-- The number of elements. -/
def size : Heap τ → Nat
  | leaf => 0
  | node _ l _ r => l.size + 1 + r.size

/-- The elements, in no order that matters. -/
def toList : Heap τ → List τ
  | leaf => []
  | node _ l a r => a :: (l.toList ++ r.toList)

/-- An element over two heaps, the one with the shorter right side on the right. -/
def join (a : τ) (l r : Heap τ) : Heap τ :=
  if r.rank ≤ l.rank then node (r.rank + 1) l a r else node (l.rank + 1) r a l

/-- Merges the heap of `a` over `l` and `r` with a second one, where `mergeRight` merges `r` with
any heap. -/
def mergeOver (before : τ → τ → Bool) (l : Heap τ) (a : τ) (r : Heap τ)
    (mergeRight : Heap τ → Heap τ) : Heap τ → Heap τ
  | leaf => join a l r
  | node k l' b r' =>
    if before b a then join b l' (mergeOver before l a r mergeRight r')
    else join a l (mergeRight (node k l' b r'))

/-- The elements of two heaps in one. -/
def merge (before : τ → τ → Bool) : Heap τ → Heap τ → Heap τ
  | leaf, h => h
  | node _ l a r, h => mergeOver before l a r (merge before r) h

/-- A heap of one element. -/
def single (a : τ) : Heap τ := node 1 leaf a leaf

/-- The heap with one more element. -/
def insert (before : τ → τ → Bool) (a : τ) (h : Heap τ) : Heap τ := merge before (single a) h

/-- The first element. -/
def first? : Heap τ → Option τ
  | leaf => none
  | node _ _ a _ => some a

/-- The first element and the heap without it. -/
def pop? (before : τ → τ → Bool) : Heap τ → Option (τ × Heap τ)
  | leaf => none
  | node _ l a r => some (a, merge before l r)

end Heap

end Candlewick
