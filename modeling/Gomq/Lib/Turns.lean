import Mathlib.Algebra.Order.Floor.Div
import Mathlib.GroupTheory.GroupAction.Ring
import Mathlib.Order.Interval.Finset.Nat

/-!
# Taking turns

A counter that goes up by one and is read modulo `n` comes to the places `0, …, n - 1` in turn. From
whatever value it starts, after `m` turns each place has had `m / n` of them, rounded down or up
(`count_turns`).
-/

namespace Gomq

open List

/-- The places of `m` turns from the counter `a`. -/
def turns (n a m : ℕ) : List ℕ := (List.range' a m).map (· % n)

section Turns

variable {n : ℕ} (a : ℕ)

theorem turns_add (n a k m : ℕ) : turns n a (k + m) = turns n a k ++ turns n (a + k) m := by
  unfold turns
  rw [← map_append, ← List.range'_append_1]

/-- One round comes to every place once. -/
theorem turns_round (n : ℕ) : (turns n a n).Perm (List.range n) := by
  have hround := Nat.multiset_Ico_map_mod a n
  have hlist : Multiset.Ico a (a + n) = List.range' a n := by
    rw [show Multiset.Ico a (a + n) = List.range' a (a + n - a) from rfl, Nat.add_sub_cancel_left]
  rw [hlist, Multiset.map_coe] at hround
  exact Multiset.coe_eq_coe.mp hround

theorem count_turns_round {i : ℕ} (hi : i < n) : (turns n a n).count i = 1 := by
  rw [(turns_round a n).count_eq]
  exact count_eq_one_of_mem nodup_range (mem_range.mpr hi)

theorem count_turns_rounds {i : ℕ} (hi : i < n) (k : ℕ) : (turns n a (n * k)).count i = k := by
  induction k with
  | zero => rfl
  | succ k ih => rw [Nat.mul_succ, turns_add, count_append, ih, count_turns_round _ hi]

/-- A part of a round comes to no place twice. -/
theorem count_turns_le_one {i m : ℕ} (hi : i < n) (hm : m ≤ n) : (turns n a m).count i ≤ 1 := by
  obtain ⟨k, rfl⟩ := Nat.exists_eq_add_of_le hm
  have hround := count_turns_round a hi
  rw [turns_add, count_append] at hround
  omega

theorem ceilDiv_of_mod_ne_zero {m : ℕ} (hn : 0 < n) (h : m % n ≠ 0) : m ⌈/⌉ n = m / n + 1 := by
  have hdiv := Nat.div_add_mod m n
  apply le_antisymm
  · rw [ceilDiv_le_iff_le_mul hn, Nat.mul_succ]
    have hlt := Nat.mod_lt m hn
    omega
  · by_contra hlt
    have hle := (ceilDiv_le_iff_le_mul hn).mp (Nat.le_of_lt_succ (not_le.mp hlt))
    omega

/-- Whole rounds, and a part of one. -/
theorem count_turns {i : ℕ} (hi : i < n) (m : ℕ) :
    (turns n a m).count i = m / n ∨ (turns n a m).count i = m ⌈/⌉ n := by
  have hsplit : (turns n a m).count i =
      m / n + (turns n (a + n * (m / n)) (m % n)).count i := by
    conv_lhs => rw [← Nat.div_add_mod m n]
    rw [turns_add, count_append, count_turns_rounds a hi]
  have hn : 0 < n := Nat.zero_lt_of_lt hi
  rw [hsplit]
  by_cases hrest : m % n = 0
  · left
    rw [hrest]
    rfl
  · rw [ceilDiv_of_mod_ne_zero hn hrest]
    have hle := count_turns_le_one (a + n * (m / n)) hi (Nat.mod_lt m hn).le
    omega

end Turns

end Gomq
