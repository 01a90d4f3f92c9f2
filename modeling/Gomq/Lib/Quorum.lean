import Mathlib.Data.Finset.Card

/-!
# Majorities and ballots

Two majorities of a finite set meet. Ballots record for every term whom each voter voted for, at
most one candidate a term; a candidate is elected in a term when a majority voted for it, so no term
elects two.
-/

namespace Gomq

variable {α : Type}

def Majority (u s : Finset α) : Prop := s ⊆ u ∧ u.card < 2 * s.card

instance [DecidableEq α] (u s : Finset α) : Decidable (Majority u s) :=
  inferInstanceAs (Decidable (s ⊆ u ∧ u.card < 2 * s.card))

theorem Majority.exists_mem_inter [DecidableEq α] {u s t : Finset α} (hs : Majority u s)
    (ht : Majority u t) : ∃ a, a ∈ s ∧ a ∈ t := by
  have hcard : u.card < s.card + t.card := by
    have h₁ := hs.2
    have h₂ := ht.2
    omega
  obtain ⟨a, ha⟩ := Finset.inter_nonempty_of_card_lt_card_add_card hs.1 ht.1 hcard
  exact ⟨a, (Finset.mem_inter.mp ha).1, (Finset.mem_inter.mp ha).2⟩

theorem Majority.mono {u s t : Finset α} (hs : Majority u s) (hst : s ⊆ t) (htu : t ⊆ u) :
    Majority u t :=
  ⟨htu, hs.2.trans_le (Nat.mul_le_mul_left 2 (Finset.card_le_card hst))⟩

/-! ## Ballots -/

/-- Whom a voter voted for in a term. -/
abbrev Ballots (α : Type) := ℕ → α → Option α

namespace Ballots

def Extends (v w : Ballots α) : Prop := ∀ t p c, v t p = some c → w t p = some c

theorem Extends.refl (v : Ballots α) : v.Extends v := fun _ _ _ h => h

variable [DecidableEq α]

/-- A majority of `u` voted for `c` in term `t`. -/
def Elected (v : Ballots α) (u : Finset α) (t : ℕ) (c : α) : Prop :=
  Majority u (u.filter fun p => v t p = some c)

variable {v w : Ballots α} {u : Finset α} {t : ℕ}

theorem Elected.mono {c : α} (h : v.Elected u t c) (hvw : v.Extends w) : w.Elected u t c := by
  refine Majority.mono h ?_ (Finset.filter_subset _ u)
  intro p hp
  obtain ⟨hpu, hpc⟩ := Finset.mem_filter.mp hp
  exact Finset.mem_filter.mpr ⟨hpu, hvw t p c hpc⟩

theorem Elected.of_majority {c : α} {s : Finset α} (hs : Majority u s)
    (hc : ∀ p ∈ s, v t p = some c) : v.Elected u t c :=
  hs.mono (fun p hp => Finset.mem_filter.mpr ⟨hs.1 hp, hc p hp⟩) (Finset.filter_subset _ u)

theorem Elected.exists_voter {c : α} {s : Finset α} (h : v.Elected u t c) (hs : Majority u s) :
    ∃ p, p ∈ s ∧ v t p = some c := by
  obtain ⟨p, hps, hp⟩ := hs.exists_mem_inter h
  exact ⟨p, hps, (Finset.mem_filter.mp hp).2⟩

theorem Elected.unique {a b : α} (ha : v.Elected u t a) (hb : v.Elected u t b) : a = b := by
  obtain ⟨p, hp, hpb⟩ := hb.exists_voter ha
  exact Option.some.inj ((Finset.mem_filter.mp hp).2.symm.trans hpb)

end Ballots

end Gomq
