import Gomq.Lib.GoMap
import Mathlib.Data.List.Range

/-!
# Queues that spill into pages

Entries get the numbers `0, 1, 2, …` in the order in which they are pushed. The memory is a list,
and the front of it can be moved into a page under a key; `load` appends a page to the memory again.
Whatever happens, each number is in exactly one place (`Conserved`). As long as no page has been
loaded behind a later number, what has been taken are the first numbers (`InOrder`).
-/

namespace Gomq

open List

structure Spill (κ : Type) [DecidableEq κ] where
  count : ℕ
  memory : List ℕ
  pages : GoMap κ (List ℕ)
  taken : List ℕ

namespace Spill

variable {κ : Type} [DecidableEq κ]

def empty : Spill κ := ⟨0, [], ∅, []⟩

def push (s : Spill κ) : Spill κ :=
  { s with count := s.count + 1, memory := s.memory ++ [s.count] }

def pageOut (s : Spill κ) (k : κ) (n : ℕ) : Spill κ :=
  { s with memory := s.memory.drop n, pages := s.pages.set k (s.memory.take n) }

def load (s : Spill κ) (k : κ) : Spill κ :=
  match s.pages.get k with
  | none => s
  | some page => { s with memory := s.memory ++ page, pages := s.pages.del k }

def take (s : Spill κ) : Spill κ :=
  match s.memory with
  | [] => s
  | x :: memory => { s with memory := memory, taken := s.taken ++ [x] }

variable {s : Spill κ}

/-! ## Every number is in one place -/

/-- Every number was taken, is in memory, or is in one page, and only in one of these places. -/
def Conserved (s : Spill κ) : Prop :=
  (s.taken ++ (s.memory ++ s.pages.vals.flatten)).Perm (List.range s.count)

theorem conserved_empty : (empty : Spill κ).Conserved := List.Perm.refl _

theorem Conserved.push (h : s.Conserved) : s.push.Conserved := by
  unfold Conserved Spill.push
  rw [range_succ]
  refine List.Perm.trans ?_ (h.append_right [s.count])
  simp only [append_assoc]
  refine List.Perm.append_left _ (List.Perm.append_left _ ?_)
  exact perm_append_comm

theorem Conserved.pageOut (h : s.Conserved) {k : κ} (hk : s.pages.get k = none) (n : ℕ) :
    (s.pageOut k n).Conserved := by
  refine List.Perm.trans ?_ h
  unfold Spill.pageOut
  refine List.Perm.append_left _ ?_
  have hvals := (GoMap.vals_set_perm hk (s.memory.take n)).flatten
  rw [flatten_cons] at hvals
  calc (s.memory.drop n ++ (s.pages.set k (s.memory.take n)).vals.flatten).Perm
        (s.memory.drop n ++ (s.memory.take n ++ s.pages.vals.flatten)) :=
        List.Perm.append_left _ hvals
    List.Perm _ (s.memory.take n ++ (s.memory.drop n ++ s.pages.vals.flatten)) := by
        rw [← append_assoc, ← append_assoc]
        exact perm_append_comm.append_right _
    _ = s.memory ++ s.pages.vals.flatten := by rw [← append_assoc, take_append_drop]

theorem Conserved.load (h : s.Conserved) (k : κ) : (s.load k).Conserved := by
  unfold Spill.load
  cases hp : s.pages.get k with
  | none => exact h
  | some page =>
    refine List.Perm.trans ?_ h
    have hvals := (GoMap.vals_perm_of_get hp).flatten
    rw [flatten_cons] at hvals
    simp only [append_assoc]
    exact List.Perm.append_left _ (List.Perm.append_left _ hvals.symm)

theorem Conserved.take (h : s.Conserved) : s.take.Conserved := by
  unfold Spill.take
  cases hm : s.memory with
  | nil => exact h
  | cons x memory =>
    refine List.Perm.trans ?_ h
    rw [hm]
    simp only [append_assoc, cons_append]
    exact List.Perm.refl _

/-! ## What has been taken -/

/-- The numbers taken are the first ones, the memory is in order, and what is in pages comes before
everything in memory, where there is something after it. -/
structure InOrder (s : Spill κ) : Prop where
  taken : s.taken = List.range s.taken.length
  memory : s.memory.Pairwise (· < ·)
  pages : ∀ page ∈ s.pages.vals, s.memory ≠ [] ∧ ∀ y ∈ page, ∀ x ∈ s.memory, y < x

theorem inOrder_empty : (empty : Spill κ).InOrder :=
  ⟨rfl, List.Pairwise.nil, fun _ h => absurd h (not_mem_nil)⟩

theorem Conserved.lt_count (h : s.Conserved) {x : ℕ}
    (hx : x ∈ s.taken ++ (s.memory ++ s.pages.vals.flatten)) : x < s.count :=
  mem_range.mp (h.subset hx)

theorem InOrder.push (h : s.InOrder) (hc : s.Conserved) : s.push.InOrder where
  taken := h.taken
  memory := by
    refine pairwise_append.mpr ⟨h.memory, pairwise_singleton _ _, ?_⟩
    intro x hx y hy
    rw [mem_singleton.mp hy]
    exact hc.lt_count (by simp [hx])
  pages := by
    intro page hpage
    refine ⟨by simp [Spill.push], ?_⟩
    intro y hy x hx
    rcases mem_append.mp hx with hx | hx
    · exact (h.pages page hpage).2 y hy x hx
    · rw [mem_singleton.mp hx]
      have : y ∈ s.pages.vals.flatten := mem_flatten.mpr ⟨page, hpage, hy⟩
      exact hc.lt_count (by simp [this])

theorem InOrder.pageOut (h : s.InOrder) {k : κ} (hk : s.pages.get k = none) {n : ℕ}
    (hn : n < s.memory.length) : (s.pageOut k n).InOrder where
  taken := h.taken
  memory := h.memory.sublist (drop_sublist n s.memory)
  pages := by
    intro page hpage
    have hrest : s.memory.drop n ≠ [] := by
      rw [← length_pos_iff, length_drop]
      omega
    refine ⟨hrest, ?_⟩
    intro y hy x hx
    rcases mem_cons.mp ((GoMap.vals_set_perm hk _).subset hpage) with rfl | hold
    · have hsplit := h.memory
      rw [← take_append_drop n s.memory] at hsplit
      exact (pairwise_append.mp hsplit).2.2 y hy x hx
    · exact (h.pages page hold).2 y hy x (mem_of_mem_drop hx)

theorem InOrder.load (h : s.InOrder) {k : κ}
    (hlate : ∀ page, s.pages.get k = some page → ∀ x ∈ s.memory, ∀ y ∈ page, x < y) :
    (s.load k).InOrder := by
  unfold Spill.load
  cases hp : s.pages.get k with
  | none => exact h
  | some page =>
    have hmem : page ∈ s.pages.vals := GoMap.mem_vals_iff.mpr ⟨k, hp⟩
    obtain ⟨hne, hbefore⟩ := h.pages page hmem
    obtain ⟨x, hx⟩ := exists_mem_of_ne_nil _ hne
    have hempty : page = [] := by
      refine eq_nil_iff_forall_not_mem.mpr fun y hy => ?_
      have h1 := hbefore y hy x hx
      have h2 := hlate page hp x hx y hy
      omega
    subst hempty
    dsimp only
    rw [append_nil]
    refine ⟨h.taken, h.memory, fun page' hpage' => h.pages page' ?_⟩
    exact (GoMap.vals_perm_of_get hp).symm.subset (mem_cons_of_mem _ hpage')

/-- With everything in memory the first entry there is the next number. -/
theorem InOrder.take (h : s.InOrder) (hc : s.Conserved)
    (hloaded : ∀ x ∈ s.memory.head?, ∀ page ∈ s.pages.vals, ¬∀ y ∈ page, y < x) :
    s.take.InOrder := by
  unfold Spill.take
  cases hm : s.memory with
  | nil => exact h
  | cons x memory =>
    have hpages : s.pages.vals = [] := by
      refine eq_nil_iff_forall_not_mem.mpr fun page hpage => ?_
      refine hloaded x (by rw [hm]; rfl) page hpage fun y hy => ?_
      exact (h.pages page hpage).2 y hy x (by rw [hm]; exact mem_cons_self ..)
    have hsorted := pairwise_cons.mp (hm ▸ h.memory)
    -- the number after those taken is in memory, and nothing there is smaller than its first
    have hperm := hc
    unfold Conserved at hperm
    rw [hpages, hm, flatten_nil, append_nil] at hperm
    have hlen : s.taken.length + (memory.length + 1) = s.count := by
      simpa using hperm.length_eq
    have hnext : s.taken.length ∈ x :: memory := by
      have hin := hperm.symm.subset (mem_range.mpr (show s.taken.length < s.count by omega))
      rcases mem_append.mp hin with ht | ht
      · rw [h.taken] at ht
        simp at ht
      · exact ht
    have hfresh : x ∉ s.taken := fun hx =>
      disjoint_of_nodup_append (hperm.nodup_iff.mpr nodup_range) hx
        (mem_cons_self ..)
    have hge : s.taken.length ≤ x := by
      by_contra hlt
      rw [h.taken] at hfresh
      exact hfresh (mem_range.mpr (by omega))
    have hx : x = s.taken.length := by
      rcases mem_cons.mp hnext with heq | hlater
      · exact heq.symm
      · have := hsorted.1 _ hlater
        omega
    refine ⟨?_, hsorted.2, fun page hpage => ?_⟩
    · rw [length_append, length_singleton, range_succ, ← h.taken, hx]
    · rw [hpages] at hpage
      exact absurd hpage not_mem_nil

end Spill

end Gomq
