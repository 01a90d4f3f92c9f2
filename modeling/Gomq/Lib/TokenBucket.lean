import Mathlib.Algebra.Order.Ring.Defs
import Mathlib.Data.Nat.Cast.Order.Basic
import Mathlib.Order.Lattice
import Mathlib.Tactic.Linarith

/-!
# Token buckets

A bucket of capacity `cap` is filled by a supply, which never runs backwards, and what would go over
the rim is lost. `Accounts` says what the level is in terms of the tokens that were taken: the most
that can still be taken now if in every stretch of time up to now no more than the capacity and the
supply of the stretch is taken.
-/

namespace Gomq.TokenBucket

variable {T K : Type} [LinearOrder T] [CommRing K] [LinearOrder K] [IsStrictOrderedRing K]

/-- The level, and when it was that. -/
structure Bucket (T K : Type) where
  level : K
  last : T

/-- How many of the moments are not before `s`. -/
def spent (taken : List T) (s : T) : ℕ := taken.countP (s ≤ ·)

variable (cap : K) (supply : T → K)

def Bucket.wait (b : Bucket T K) (t : T) : Bucket T K :=
  ⟨min cap (b.level + (supply t - supply b.last)), t⟩

def Bucket.take (b : Bucket T K) : Bucket T K := ⟨b.level - 1, b.last⟩

/-- The level is what every stretch up to now leaves, and what one of them leaves. -/
structure Accounts (taken : List T) (b : Bucket T K) : Prop where
  within : ∀ s ≤ b.last, spent taken s + b.level ≤ cap + (supply b.last - supply s)
  tight : ∃ s ≤ b.last, spent taken s + b.level = cap + (supply b.last - supply s)
  past : ∀ u ∈ taken, u ≤ b.last

variable {cap supply} {taken : List T} {b : Bucket T K}

theorem spent_of_past {t : T} (h : ∀ u ∈ taken, u < t) : spent taken t = 0 :=
  List.countP_eq_zero.mpr fun u hu => by simpa using h u hu

theorem spent_cons {s t : T} (h : s ≤ t) : spent (t :: taken) s = spent taken s + 1 :=
  List.countP_cons_of_pos (decide_eq_true h)

theorem Accounts.full (hs : Monotone supply) (t : T) : Accounts cap supply [] ⟨cap, t⟩ where
  within s h := by
    have hsup : supply s ≤ supply t := hs h
    simp only [spent, List.countP_nil, Nat.cast_zero]
    linarith
  tight := ⟨t, le_rfl, by simp [spent]⟩
  past _ h := nomatch h

/-- A token taken now makes the level one less than the capacity at the most, so a bucket that is
full lets nothing be taken at the same moment. -/
theorem Accounts.spent_of_full (h : Accounts cap supply taken b) {t : T} (ht : b.last ≤ t)
    (hfull : cap ≤ b.level + (supply t - supply b.last)) : spent taken t = 0 := by
  rcases ht.lt_or_eq with hlt | rfl
  · exact spent_of_past fun u hu => (h.past u hu).trans_lt hlt
  · have hnow := h.within b.last le_rfl
    have hspent : (spent taken b.last : K) ≤ 0 := by linarith
    exact Nat.cast_nonpos.mp hspent

theorem Accounts.wait (hs : Monotone supply) (h : Accounts cap supply taken b) {t : T}
    (ht : b.last ≤ t) : Accounts cap supply taken (b.wait cap supply t) where
  within s hst := by
    change _ + min cap _ ≤ cap + (supply t - supply s)
    rcases lt_or_ge b.last s with hlt | hsl
    · have hmin := min_le_left cap (b.level + (supply t - supply b.last))
      have hnone : spent taken s = 0 := spent_of_past fun u hu => (h.past u hu).trans_lt hlt
      have hsup : supply s ≤ supply t := hs hst
      rw [hnone, Nat.cast_zero]
      linarith
    · have hmin := min_le_right cap (b.level + (supply t - supply b.last))
      have hold := h.within s hsl
      linarith
  tight := by
    change ∃ s ≤ t, _ + min cap _ = cap + (supply t - supply s)
    rcases le_total cap (b.level + (supply t - supply b.last)) with hfull | hroom
    · refine ⟨t, le_rfl, ?_⟩
      rw [h.spent_of_full ht hfull, min_eq_left hfull]
      simp
    · obtain ⟨s, hsl, heq⟩ := h.tight
      refine ⟨s, hsl.trans ht, ?_⟩
      rw [min_eq_right hroom]
      linarith
  past u hu := (h.past u hu).trans ht

theorem Accounts.take (h : Accounts cap supply taken b) :
    Accounts cap supply (b.last :: taken) b.take where
  within s hs := by
    have hold := h.within s hs
    change ((spent (b.last :: taken) s : ℕ) : K) + (b.level - 1) ≤ _
    rw [spent_cons (t := b.last) hs, Nat.cast_succ]
    change _ ≤ cap + (supply b.last - supply s)
    linarith
  tight := by
    obtain ⟨s, hs, heq⟩ := h.tight
    refine ⟨s, hs, ?_⟩
    simp only [Bucket.take]
    rw [spent_cons hs, Nat.cast_succ]
    linarith
  past u hu := by
    rcases List.mem_cons.mp hu with rfl | hu
    · exact le_rfl
    · exact h.past u hu

/-- An amount is there exactly if taking it leaves every stretch within its bound. -/
theorem Accounts.le_iff (h : Accounts cap supply taken b) (a : K) :
    a ≤ b.level ↔ ∀ s ≤ b.last, spent taken s + a ≤ cap + (supply b.last - supply s) := by
  constructor
  · intro ha s hs
    have hold := h.within s hs
    linarith
  · intro hall
    obtain ⟨s, hs, heq⟩ := h.tight
    have := hall s hs
    linarith

end Gomq.TokenBucket
