import Mathlib.Data.List.Basic

/-!
# Slices

A slice shows the first elements of an array. The array may hold more: what a slice was cut down
from is still there, and `s[:n]` for an `n` past the length shows it again, up to the capacity.
-/

namespace Gomq

structure Slice (α : Type) where
  elems : List α
  /-- What the array holds behind the elements, up to the capacity. -/
  spare : List α
  deriving DecidableEq

namespace Slice

variable {α : Type}

/-- `s[:n]` for `n ≤ len(s)`. -/
def cut (s : Slice α) (n : ℕ) : Slice α := ⟨s.elems.take n, s.elems.drop n ++ s.spare⟩

/-- `append(s, xs...)`. An array that is too small is replaced by a larger one; how much larger, by
`room`, is not specified. -/
def append [Inhabited α] (room : ℕ) (s : Slice α) (xs : List α) : Slice α where
  elems := s.elems ++ xs
  spare :=
    if xs.length ≤ s.spare.length then s.spare.drop xs.length else List.replicate room default

/-- The elements of `s[:n]` for any `n`; `none` past the capacity. -/
def upTo (s : Slice α) (n : ℕ) : Option (List α) :=
  if n ≤ s.elems.length + s.spare.length then some ((s.elems ++ s.spare).take n) else none

variable {s : Slice α} {n : ℕ}

theorem upTo_of_le (h : n ≤ s.elems.length) : s.upTo n = some (s.elems.take n) := by
  unfold upTo
  rw [if_pos (by omega), List.take_append_of_le_length h]

end Slice

end Gomq
