import Mathlib.Data.List.Sort
import Mathlib.Data.List.Perm.Subperm

/-!
# The newest elements of a list

`NewestOf key r S K` says that `K` are `r` elements of `S`, or all if there are no more, and that no
other element of `S` has a greater key than one of them. With equal keys there is more than one
choice. The end of a sorted list is one (`newestOf_drop`).
-/

namespace Gomq

variable {α κ : Type} [LinearOrder κ] {key : α → κ} {r : ℕ} {S T K : List α}

structure NewestOf (key : α → κ) (r : ℕ) (S K : List α) : Prop where
  nodup : K.Nodup
  subset : K ⊆ S
  length : K.length = min r S.length
  newest : ∀ a ∈ K, ∀ b ∈ S, b ∉ K → key b ≤ key a

theorem NewestOf.self (hnodup : S.Nodup) (hle : S.length ≤ r) : NewestOf key r S S where
  nodup := hnodup
  subset := List.Subset.refl S
  length := (Nat.min_eq_right hle).symm
  newest _ _ _ hb hnot := absurd hb hnot

theorem NewestOf.perm (h : NewestOf key r S K) (hperm : S.Perm T) : NewestOf key r T K where
  nodup := h.nodup
  subset := List.Subset.trans h.subset hperm.subset
  length := by rw [h.length, hperm.length_eq]
  newest a ha b hb := h.newest a ha b (hperm.mem_iff.mpr hb)

theorem newestOf_drop (hnodup : S.Nodup) (hsorted : S.Pairwise fun a b => key a ≤ key b) :
    NewestOf key r S (S.drop (S.length - r)) where
  nodup := hnodup.sublist (List.drop_sublist _ S)
  subset := List.drop_subset _ S
  length := by rw [List.length_drop]; omega
  newest a ha b hb hnot := by
    -- what is not at the end is at the front
    rw [← List.take_append_drop (S.length - r) S] at hb hsorted
    rcases List.mem_append.mp hb with hb | hb
    · exact (List.pairwise_append.mp hsorted).2.2 b hb a ha
    · exact absurd hb hnot

theorem NewestOf.mem_of_length_le (h : NewestOf key r S K) (hle : S.length ≤ r) {a : α}
    (ha : a ∈ S) : a ∈ K := by
  have hlen : S.length ≤ K.length := by
    rw [h.length]
    omega
  exact ((h.nodup.subperm h.subset).perm_of_length_le hlen).mem_iff.mpr ha

end Gomq
