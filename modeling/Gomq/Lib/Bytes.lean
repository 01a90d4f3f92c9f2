import Mathlib.Data.List.Basic
import Mathlib.Tactic.Ring
import Mathlib.Algebra.Ring.Nat

/-!
# Byte strings, big-endian integers, and bounded reads

`beBytes w n` is the `w`-byte big-endian form of `n`, `ofBe` reads it back. `takePad n` takes `n`
bytes, or what is left, padded with zeros.
-/

namespace Gomq

open List

abbrev Bytes := List UInt8

/-- A string is a byte sequence; nothing guarantees that it is UTF-8. -/
abbrev GoString := List UInt8

def str (s : String) : GoString := s.toUTF8.data.toList

/-- Every test for a name in a list of names is this one. -/
instance decidableMemGoString (a : GoString) (l : List GoString) : Decidable (a ∈ l) :=
  inferInstance

theorem append_cons_inj {x : UInt8} {a a' b b' : Bytes} (ha : x ∉ a) (ha' : x ∉ a')
    (h : a ++ x :: b = a' ++ x :: b') : a = a' ∧ b = b' := by
  induction a generalizing a' with
  | nil =>
    cases a' with
    | nil => exact ⟨rfl, (List.cons.inj h).2⟩
    | cons y a' => exact absurd ((List.cons.inj h).1 ▸ mem_cons_self) ha'
  | cons y a ih =>
    cases a' with
    | nil => exact absurd ((List.cons.inj h).1 ▸ mem_cons_self) ha
    | cons y' a' =>
      obtain ⟨rfl, hrest⟩ := List.cons.inj h
      obtain ⟨rfl, rfl⟩ := ih (fun hx => ha (mem_cons_of_mem y hx))
        (fun hx => ha' (mem_cons_of_mem y hx)) hrest
      exact ⟨rfl, rfl⟩

/-! ## Big-endian integers -/

/-- The `w`-byte big-endian form of `n`. -/
def beBytes : ℕ → ℕ → Bytes
  | 0, _ => []
  | w + 1, n => UInt8.ofNat (n / 256 ^ w) :: beBytes w n

/-- The number a big-endian byte string denotes. -/
def ofBe (bs : Bytes) : ℕ := bs.foldl (fun a b => a * 256 + b.toNat) 0

@[simp] theorem length_beBytes (w n : ℕ) : (beBytes w n).length = w := by
  induction w with
  | zero => rfl
  | succ w ih => rw [beBytes, length_cons, ih]

theorem foldl_be (bs : Bytes) (a : ℕ) :
    bs.foldl (fun a b => a * 256 + b.toNat) a = a * 256 ^ bs.length + ofBe bs := by
  induction bs generalizing a with
  | nil => simp [ofBe]
  | cons b bs ih =>
    unfold ofBe
    rw [foldl_cons, foldl_cons, ih, ih, length_cons]
    ring

theorem ofBe_cons (b : UInt8) (bs : Bytes) :
    ofBe (b :: bs) = b.toNat * 256 ^ bs.length + ofBe bs := by
  conv_lhs => unfold ofBe
  rw [foldl_cons, foldl_be, Nat.zero_mul, Nat.zero_add]

theorem ofBe_beBytes (w n : ℕ) : ofBe (beBytes w n) = n % 256 ^ w := by
  induction w with
  | zero => simp [beBytes, ofBe, Nat.mod_one]
  | succ w ih =>
    -- the leading byte is digit `w` of `n`, the rest is `n` below it
    have hdigit : n % 256 ^ (w + 1) = n % 256 ^ w + 256 ^ w * (n / 256 ^ w % 256) := by
      rw [Nat.pow_succ, Nat.mod_mul]
    rw [beBytes, ofBe_cons, ih, length_beBytes, UInt8.toNat_ofNat', hdigit, Nat.mul_comm,
      Nat.add_comm]

theorem ofBe_beBytes_of_lt {w n : ℕ} (h : n < 256 ^ w) : ofBe (beBytes w n) = n := by
  rw [ofBe_beBytes, Nat.mod_eq_of_lt h]

theorem ofBe_lt (bs : Bytes) : ofBe bs < 256 ^ bs.length := by
  induction bs with
  | nil => simp [ofBe]
  | cons b bs ih =>
    rw [ofBe_cons, length_cons, Nat.pow_succ]
    have hb : b.toNat ≤ 255 := Nat.le_of_lt_succ b.toNat_lt
    have := Nat.mul_le_mul_right (256 ^ bs.length) hb
    omega

theorem ofBe_inj {as bs : Bytes} (hlen : as.length = bs.length) (h : ofBe as = ofBe bs) :
    as = bs := by
  induction as generalizing bs with
  | nil => exact (length_eq_zero_iff.mp hlen.symm).symm
  | cons a as ih =>
    cases bs with
    | nil => cases hlen
    | cons b bs =>
      have hlen : as.length = bs.length := Nat.succ.inj hlen
      rw [ofBe_cons, ofBe_cons, hlen] at h
      have has := ofBe_lt as
      rw [hlen] at has
      have hbs := ofBe_lt bs
      have hpos : 0 < 256 ^ bs.length := Nat.pow_pos (by decide)
      -- the leading byte is the quotient, the others are the remainder
      have hquot : ∀ (c : UInt8) (n : ℕ), n < 256 ^ bs.length →
          (c.toNat * 256 ^ bs.length + n) / 256 ^ bs.length = c.toNat := by
        intro c n hn
        rw [Nat.mul_comm, Nat.mul_add_div hpos, Nat.div_eq_of_lt hn, Nat.add_zero]
      have hab : a.toNat = b.toNat := by rw [← hquot a _ has, h, hquot b _ hbs]
      rw [UInt8.toNat_inj.mp hab] at h ⊢
      rw [ih hlen (Nat.add_left_cancel h)]

theorem beBytes_ofBe (bs : Bytes) : beBytes bs.length (ofBe bs) = bs :=
  ofBe_inj (length_beBytes _ _) (ofBe_beBytes_of_lt (ofBe_lt bs))

/-! ## Bounded reads -/

/-- `n` bytes of `bs` and what follows them; a short input is padded with zeros and used up. -/
def takePad (n : ℕ) (bs : Bytes) : Bytes × Bytes :=
  (bs.take n ++ List.replicate (n - bs.length) 0, bs.drop n)

end Gomq
