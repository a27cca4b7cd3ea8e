/-!
# Sets of code points as ranges

A set of code points is kept as a search tree of disjoint ranges. A Unicode property is written
down as the increasing list of its ranges; `RangeTree.ofSorted` arranges such a list so that a
membership test looks at a logarithmic number of them.
-/

namespace ReactiveTemplate.Unicode

/-- A set of numbers, as a search tree of closed ranges. -/
inductive RangeTree where
  | empty
  | node (left : RangeTree) (low high : Nat) (right : RangeTree)

namespace RangeTree

/-- Whether `n` lies in a range of the tree. -/
def contains : RangeTree → Nat → Bool
  | empty, _ => false
  | node left low high right, n =>
      if n < low then left.contains n else n ≤ high || right.contains n

/-- The tree of the first `2 ^ depth - 1` ranges of an increasing list, and the ranges left over. -/
def build : Nat → List (Nat × Nat) → RangeTree × List (Nat × Nat)
  | 0, ranges => (empty, ranges)
  | depth + 1, ranges =>
      match build depth ranges with
      | (left, []) => (left, [])
      | (left, (low, high) :: ranges) =>
          let (right, ranges) := build depth ranges
          (node left low high right, ranges)

/-- The tree of an increasing list of disjoint ranges. -/
def ofSorted (ranges : List (Nat × Nat)) : RangeTree :=
  (build (ranges.length.log2 + 1) ranges).1

end RangeTree

end ReactiveTemplate.Unicode
