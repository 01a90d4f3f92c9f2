import Mathlib.Data.Nat.Digits.Defs
import Gomq.Lib.Bytes

/-!
# Decimal numerals

The decimal numeral of a natural number or an integer as a byte string. Reading the digits back
undoes it, so that different numbers have different numerals.
-/

namespace Gomq

def natDecimal (n : ℕ) : Bytes :=
  if n = 0 then [0x30] else ((Nat.digits 10 n).map fun d => UInt8.ofNat (0x30 + d)).reverse

def ofDecimal (ds : Bytes) : ℕ := Nat.ofDigits 10 (ds.reverse.map fun c => c.toNat - 0x30)

theorem toNat_digit {d : ℕ} (h : d < 10) : (UInt8.ofNat (0x30 + d)).toNat = 0x30 + d := by
  rw [UInt8.toNat_ofNat']
  omega

theorem ofDecimal_natDecimal (n : ℕ) : ofDecimal (natDecimal n) = n := by
  unfold ofDecimal natDecimal
  split
  · rename_i hzero
    rw [hzero]
    rfl
  · rw [List.reverse_reverse, List.map_map]
    have hdigits : (Nat.digits 10 n).map
        ((fun c : UInt8 => c.toNat - 0x30) ∘ fun d => UInt8.ofNat (0x30 + d)) =
          (Nat.digits 10 n).map id := by
      refine List.map_congr_left fun d hd => ?_
      have hlt : d < 10 := Nat.digits_lt_base (by decide) hd
      show (UInt8.ofNat (0x30 + d)).toNat - 0x30 = d
      rw [toNat_digit hlt, Nat.add_sub_cancel_left]
    rw [hdigits, List.map_id, Nat.ofDigits_digits]

theorem natDecimal_injective : Function.Injective natDecimal :=
  Function.LeftInverse.injective ofDecimal_natDecimal

theorem natDecimal_digits {n : ℕ} {c : UInt8} (h : c ∈ natDecimal n) :
    0x30 ≤ c.toNat ∧ c.toNat ≤ 0x39 := by
  unfold natDecimal at h
  split at h
  · rw [List.mem_singleton.mp h]
    decide
  · obtain ⟨d, hd, rfl⟩ := List.mem_map.mp (List.mem_reverse.mp h)
    have hlt : d < 10 := Nat.digits_lt_base (by decide) hd
    rw [toNat_digit hlt]
    omega

def intDecimal : ℤ → Bytes
  | (n : ℕ) => natDecimal n
  | Int.negSucc n => 0x2d :: natDecimal (n + 1)

theorem natDecimal_ne_minus (n : ℕ) (ds : Bytes) : natDecimal n ≠ 0x2d :: ds := by
  intro h
  have hdigit := natDecimal_digits (n := n) (c := 0x2d) (h ▸ List.mem_cons_self)
  exact absurd hdigit.1 (by decide)

theorem intDecimal_injective : Function.Injective intDecimal := by
  intro a b h
  cases a with
  | ofNat n =>
    cases b with
    | ofNat m => exact congrArg Int.ofNat (natDecimal_injective h)
    | negSucc m => exact absurd h (natDecimal_ne_minus n _)
  | negSucc n =>
    cases b with
    | ofNat m => exact absurd h.symm (natDecimal_ne_minus m _)
    | negSucc m =>
      have hsucc : n + 1 = m + 1 := natDecimal_injective (List.cons.inj h).2
      rw [Nat.succ.inj hsucc]

theorem intDecimal_le {n : ℤ} {c : UInt8} (h : c ∈ intDecimal n) : c.toNat ≤ 0x39 := by
  cases n with
  | ofNat n => exact (natDecimal_digits h).2
  | negSucc n =>
    rcases List.mem_cons.mp h with rfl | h
    · decide
    · exact (natDecimal_digits h).2

end Gomq
