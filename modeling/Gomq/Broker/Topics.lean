import Mathlib.Data.List.Induction
import Mathlib.Data.List.Infix
import Gomq.Broker.Routing

/-!
# What a topic exchange selects

`matchParts` walks the words of pattern and key from the left and tries every split at a `#`. Here
the pattern is read without an algorithm: every word of it takes some words of the key, in order
and without leaving any out (`LaidAlong`).
-/

namespace Gomq.Broker

open Wire List

/-- What one word of a pattern can take: `#` anything, `*` one word, any other word itself. -/
def Takes (p : GoString) (words : List GoString) : Prop :=
  if p = str "#" then True else if p = str "*" then words.length = 1 else words = [p]

/-- The words of the pattern can be laid along the words of the key. -/
def LaidAlong (pat msg : List GoString) : Prop :=
  ∃ taken, List.Forall₂ Takes pat taken ∧ taken.flatten = msg

theorem laidAlong_nil (msg : List GoString) : LaidAlong [] msg ↔ msg = [] := by
  constructor
  · rintro ⟨taken, htakes, rfl⟩
    cases htakes
    rfl
  · rintro rfl
    exact ⟨[], .nil, rfl⟩

theorem laidAlong_cons (p : GoString) (pat msg : List GoString) :
    LaidAlong (p :: pat) msg ↔
      ∃ words rest, Takes p words ∧ LaidAlong pat rest ∧ words ++ rest = msg := by
  constructor
  · rintro ⟨taken, htakes, rfl⟩
    cases htakes with
    | @cons _ words _ taken hp hpat =>
      exact ⟨words, taken.flatten, hp, ⟨taken, hpat, rfl⟩, rfl⟩
  · rintro ⟨words, rest, hp, ⟨taken, hpat, rfl⟩, rfl⟩
    exact ⟨words :: taken, .cons hp hpat, rfl⟩

theorem laidAlong_hash (pat msg : List GoString) :
    LaidAlong (str "#" :: pat) msg ↔ ∃ rest, rest <:+ msg ∧ LaidAlong pat rest := by
  simp only [laidAlong_cons, Takes, if_true, true_and]
  constructor
  · rintro ⟨words, rest, hpat, rfl⟩
    exact ⟨rest, suffix_append _ _, hpat⟩
  · rintro ⟨rest, ⟨words, rfl⟩, hpat⟩
    exact ⟨words, rest, hpat, rfl⟩

theorem laidAlong_star (pat msg : List GoString) :
    LaidAlong (str "*" :: pat) msg ↔ ∃ w rest, msg = w :: rest ∧ LaidAlong pat rest := by
  have hne : str "*" ≠ str "#" := by decide
  simp only [laidAlong_cons, Takes, if_neg hne, if_true, length_eq_one_iff]
  constructor
  · rintro ⟨_, rest, ⟨w, rfl⟩, hpat, rfl⟩
    exact ⟨w, rest, rfl, hpat⟩
  · rintro ⟨w, rest, rfl, hpat⟩
    exact ⟨[w], rest, ⟨w, rfl⟩, hpat, rfl⟩

theorem laidAlong_word {p : GoString} (hhash : p ≠ str "#") (hstar : p ≠ str "*")
    (pat msg : List GoString) :
    LaidAlong (p :: pat) msg ↔ ∃ rest, msg = p :: rest ∧ LaidAlong pat rest := by
  simp only [laidAlong_cons, Takes, if_neg hhash, if_neg hstar]
  constructor
  · rintro ⟨_, rest, rfl, hpat, rfl⟩
    exact ⟨rest, rfl, hpat⟩
  · rintro ⟨rest, rfl, hpat⟩
    exact ⟨[p], rest, rfl, hpat, rfl⟩

/-- The recursion finds an alignment whenever there is one. A `#` at the end needs no search: it
takes all that is left. -/
theorem matchParts_iff (msg pat : List GoString) :
    matchParts msg pat = true ↔ LaidAlong pat msg := by
  induction pat generalizing msg with
  | nil => rw [matchParts, List.isEmpty_iff, laidAlong_nil]
  | cons p pat ih =>
    unfold matchParts
    by_cases hhash : p = str "#"
    · rw [if_pos hhash, hhash, laidAlong_hash]
      by_cases hlast : pat = []
      · subst hlast
        simp [laidAlong_nil]
      · rw [if_neg (by simpa using hlast), any_eq_true]
        simp only [mem_tails, ih]
    · rw [if_neg hhash]
      by_cases hstar : p = str "*"
      · rw [if_pos hstar, hstar, laidAlong_star]
        cases msg with
        | nil => simp
        | cons w msg => simp [ih]
      · rw [if_neg hstar, laidAlong_word hhash hstar]
        cases msg with
        | nil => simp
        | cons w msg => simp [ih]

theorem matchTopicPattern_iff (key pattern : GoString) :
    matchTopicPattern (splitDots key) pattern = true ↔
      LaidAlong (splitDots pattern) (splitDots key) := by
  unfold matchTopicPattern
  split
  · -- the pattern `#` alone is answered without a match
    rename_i hhash
    have hsplit : splitDots (str "#") = [str "#"] := by decide
    rw [hhash, hsplit, laidAlong_hash]
    simp [laidAlong_nil]
  · exact matchParts_iff _ _

/-! ## The order of the queues -/

/-- Some binding of `q` at which `sel` holds stands before every such binding of `q'`. -/
def SelectedBefore (sel : Binding → Prop) (bindings : List Binding) (q q' : GoString) : Prop :=
  ∃ (i : ℕ) (b : Binding), bindings[i]? = some b ∧ sel b ∧ b.queueName = q ∧
    ∀ (j : ℕ) (b' : Binding), bindings[j]? = some b' → sel b' → b'.queueName = q' → i < j

theorem collect_append (sel : Binding → Bool) (l : List Binding) (b : Binding) :
    collect sel (l ++ [b]) =
      if sel b && !(collect sel l).contains b.queueName then collect sel l ++ [b.queueName]
      else collect sel l := by
  simp [collect]

theorem SelectedBefore.append {sel : Binding → Prop} {l : List Binding} {q q' : GoString}
    (h : SelectedBefore sel l q q') (b : Binding) : SelectedBefore sel (l ++ [b]) q q' := by
  obtain ⟨i, c, hi, hsel, hq, hbefore⟩ := h
  have hlt : i < l.length := (List.getElem?_eq_some_iff.mp hi).1
  refine ⟨i, c, by rw [List.getElem?_append_left hlt, hi], hsel, hq, fun j c' hj hsel' hq' => ?_⟩
  by_cases hold : j < l.length
  · rw [List.getElem?_append_left hold] at hj
    exact hbefore j c' hj hsel' hq'
  · omega

theorem selectedBefore_last {sel : Binding → Bool} {l : List Binding} {b : Binding} {q : GoString}
    (hq : q ∈ collect sel l) (hnew : b.queueName ∉ collect sel l) :
    SelectedBefore (fun b => sel b = true) (l ++ [b]) q b.queueName := by
  obtain ⟨c, hc, hsel, rfl⟩ := (mem_collect sel l q).mp hq
  obtain ⟨i, hi⟩ := mem_iff_getElem?.mp hc
  have hlt : i < l.length := (List.getElem?_eq_some_iff.mp hi).1
  refine ⟨i, c, by rw [List.getElem?_append_left hlt, hi], hsel, rfl, fun j c' hj hsel' hq' => ?_⟩
  by_cases hold : j < l.length
  · rw [List.getElem?_append_left hold] at hj
    exact absurd ((mem_collect sel l _).mpr ⟨c', mem_of_getElem? hj, hsel', hq'⟩) hnew
  · omega

theorem pairwise_collect (sel : Binding → Bool) (l : List Binding) :
    (collect sel l).Pairwise (SelectedBefore (fun b => sel b = true) l) := by
  induction l using List.reverseRecOn with
  | nil => exact List.Pairwise.nil
  | append_singleton l b ih =>
    have hold := ih.imp fun h => h.append b
    rw [collect_append]
    split
    · rename_i hb
      simp only [Bool.and_eq_true, Bool.not_eq_true', contains_eq_mem,
        decide_eq_false_iff_not] at hb
      refine pairwise_append.mpr ⟨hold, pairwise_singleton _ _, fun q hq q' hq' => ?_⟩
      rw [mem_singleton.mp hq']
      exact selectedBefore_last hq hb.2
    · exact hold

/-- A topic exchange returns each queue once, in the order of the first binding that matches, and
exactly the queues with a binding whose pattern can be laid along the key. -/
theorem topic_route (ex : Exchange) (key : GoString) (headers : Table) (bindings : List Binding) :
    let matching : Binding → Prop := fun b => LaidAlong (splitDots b.routingKey) (splitDots key)
    let queues := ({ ex with type := .topic } : Exchange).route key headers bindings
    queues.Nodup ∧
      (∀ q, q ∈ queues ↔ ∃ b ∈ bindings, matching b ∧ b.queueName = q) ∧
      queues.Pairwise (SelectedBefore matching bindings) := by
  intro matching queues
  have hsel : ∀ b, selects .topic key headers b = true ↔ matching b :=
    fun b => matchTopicPattern_iff key b.routingKey
  have hpred : (fun b => selects .topic key headers b = true) = matching :=
    funext fun b => propext (hsel b)
  refine ⟨nodup_collect _ _, fun q => ?_, ?_⟩
  · rw [← hpred]
    exact mem_collect _ bindings q
  · rw [← hpred]
    exact pairwise_collect _ bindings

end Gomq.Broker
