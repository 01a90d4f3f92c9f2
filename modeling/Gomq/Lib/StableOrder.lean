import Mathlib.Data.List.Sort
import Mathlib.Data.List.Perm.Basic

/-!
# Queues in the order of a key

`StableOrder key arrivals queue` says that the queue has the arrivals in descending order of their
keys, and those with one key in the order in which they arrived. The queue is built by inserting
each arrival before the first of a lower key, and emptied from the front: what comes out is the
earliest of the arrivals with the highest key (`FirstHighest`).
-/

namespace Gomq

open List

variable {α κ : Type} [LinearOrder κ] {key : α → κ} {arrivals queue : List α}

/-- `m` is the first with the highest key in the list, and `rest` are the others in their order. -/
def FirstHighest (key : α → κ) (l : List α) (m : α) (rest : List α) : Prop :=
  ∃ l₁ l₂, l = l₁ ++ m :: l₂ ∧ rest = l₁ ++ l₂ ∧ (∀ a ∈ l₁, key a < key m) ∧
    ∀ b ∈ l₂, key b ≤ key m

/-- In descending order of the keys; the arrivals of each key in their order. -/
structure StableOrder (key : α → κ) (arrivals queue : List α) : Prop where
  descending : queue.Pairwise fun a b => key b ≤ key a
  level : ∀ k, (queue.filter fun a => key a = k) = arrivals.filter fun a => key a = k

/-- Before the first of a lower key. -/
def insertByKey (key : α → κ) (a : α) (queue : List α) : List α :=
  queue.orderedInsert (fun a b => key b < key a) a

theorem pairwise_insertByKey (h : queue.Pairwise fun a b => key b ≤ key a) (m : α) :
    (insertByKey key m queue).Pairwise fun a b => key b ≤ key a := by
  unfold insertByKey
  induction queue with
  | nil => exact pairwise_singleton _ m
  | cons a queue ih =>
    obtain ⟨hhead, htail⟩ := pairwise_cons.mp h
    rw [orderedInsert_cons]
    by_cases hlt : key a < key m
    · -- all that follows is no higher than `a`, which is lower than the new one
      rw [if_pos hlt]
      refine pairwise_cons.mpr ⟨fun b hb => ?_, h⟩
      rcases mem_cons.mp hb with rfl | hb
      · exact hlt.le
      · exact (hhead b hb).trans hlt.le
    · rw [if_neg hlt]
      refine pairwise_cons.mpr ⟨fun b hb => ?_, ih htail⟩
      rcases mem_cons.mp ((perm_orderedInsert _ m queue).mem_iff.mp hb) with rfl | hb
      · exact not_lt.mp hlt
      · exact hhead b hb

/-- The new one is the last of its level. -/
theorem filter_insertByKey (h : queue.Pairwise fun a b => key b ≤ key a) (m : α) (k : κ) :
    ((insertByKey key m queue).filter fun a => key a = k) =
      (queue.filter fun a => key a = k) ++ [m].filter fun a => key a = k := by
  unfold insertByKey
  induction queue with
  | nil => rfl
  | cons a queue ih =>
    obtain ⟨hhead, htail⟩ := pairwise_cons.mp h
    rw [orderedInsert_cons]
    by_cases hlt : key a < key m
    · rw [if_pos hlt, ← singleton_append, filter_append]
      by_cases hk : key m = k
      · -- nothing of this level follows
        have hnone : ((a :: queue).filter fun a => key a = k) = [] := by
          refine filter_eq_nil_iff.mpr fun b hb => ?_
          have hle : key b ≤ key a := by
            rcases mem_cons.mp hb with rfl | hb
            · exact le_rfl
            · exact hhead b hb
          simpa [← hk] using (hle.trans_lt hlt).ne
        rw [hnone, append_nil, nil_append]
      · have hnone : ([m].filter fun a => key a = k) = [] := by simp [hk]
        rw [hnone, append_nil, nil_append]
    · rw [if_neg hlt, filter_cons, filter_cons, ih htail]
      split <;> rfl

namespace StableOrder

theorem nil : StableOrder key [] [] := ⟨List.Pairwise.nil, fun _ => rfl⟩

theorem perm (h : StableOrder key arrivals queue) : queue.Perm arrivals := by
  classical
  refine perm_iff_count.mpr fun a => ?_
  have hlevel := congrArg (List.count a) (h.level (key a))
  rwa [count_filter (by simp), count_filter (by simp)] at hlevel

theorem insert (h : StableOrder key arrivals queue) (m : α) :
    StableOrder key (arrivals ++ [m]) (insertByKey key m queue) where
  descending := pairwise_insertByKey h.descending m
  level k := by rw [filter_insertByKey h.descending, h.level, filter_append]

theorem filter (h : StableOrder key arrivals queue) (p : α → Bool) :
    StableOrder key (arrivals.filter p) (queue.filter p) where
  descending := h.descending.filter p
  level k := by rw [filter_comm, h.level, filter_comm]

/-- What stands in front is the first with the highest key, and without it the others are in
order. -/
theorem pop {m : α} (h : StableOrder key arrivals (m :: queue)) :
    ∃ rest, FirstHighest key arrivals m rest ∧ StableOrder key rest queue := by
  obtain ⟨hhead, htail⟩ := pairwise_cons.mp h.descending
  have hlevel : (arrivals.filter fun a => key a = key m) =
      m :: queue.filter fun a => key a = key m := by
    rw [← h.level, filter_cons_of_pos (by simp)]
  obtain ⟨l₁, l₂, hsplit, hbefore, -, hafter⟩ := filter_eq_cons_iff.mp hlevel
  -- no arrival has a higher key, and none before `m` has the same
  have hmax : ∀ a ∈ arrivals, key a ≤ key m := by
    intro a ha
    rcases mem_cons.mp (h.perm.mem_iff.mpr ha) with rfl | ha
    · exact le_rfl
    · exact hhead a ha
  have hnone : (l₁.filter fun a => key a = key m) = [] := filter_eq_nil_iff.mpr hbefore
  refine ⟨l₁ ++ l₂, ⟨l₁, l₂, hsplit, rfl, fun a ha => ?_, fun b hb => ?_⟩, htail, fun k => ?_⟩
  · have hne : key a ≠ key m := by simpa using hbefore a ha
    exact lt_of_le_of_ne (hmax a (by simp [hsplit, ha])) hne
  · exact hmax b (by simp [hsplit, hb])
  · by_cases hk : key m = k
    · rw [← hk, filter_append, hnone, nil_append, hafter]
    · have hk' := h.level k
      rw [hsplit, filter_cons_of_neg (by simpa using hk), filter_append,
        filter_cons_of_neg (by simpa using hk)] at hk'
      rw [hk', filter_append]

theorem eq_nil_iff (h : StableOrder key arrivals queue) : queue = [] ↔ arrivals = [] := by
  rw [← length_eq_zero_iff, h.perm.length_eq, length_eq_zero_iff]

end StableOrder

theorem FirstHighest.erase_eq [DecidableEq α] {l rest : List α} {m : α}
    (h : FirstHighest key l m rest) : l.erase m = rest := by
  obtain ⟨l₁, l₂, rfl, rfl, hbefore, -⟩ := h
  have hnot : m ∉ l₁ := fun hm => lt_irrefl _ (hbefore m hm)
  rw [erase_append_right _ hnot, erase_cons_head]

end Gomq
