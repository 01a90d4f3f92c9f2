import Mathlib.Data.List.Basic
import Mathlib.Data.List.Count

/-!
# Taking out the first match

`l.eraseP h` takes out the first element at which `h` holds. What that does to the elements of a
kind, and what is left after the first match of one key after another has been taken out
(`eraseKeys`). If the keys are those of the elements of a kind, then exactly these elements go if
and only if none of them has an element of another kind and with its key before it.
-/

namespace Gomq

open List

variable {α κ : Type}

/-! ## Once -/

section Once

variable {p h : α → Bool} {l : List α} {b : α}

theorem filter_eraseP_of_disjoint (hdisj : ∀ x ∈ l, h x = true → p x = false) :
    (l.eraseP h).filter p = l.filter p := by
  induction l with
  | nil => rfl
  | cons x l ih =>
    obtain ⟨hx, hl⟩ := forall_mem_cons.mp hdisj
    cases hh : h x with
    | false => simp [hh, filter_cons, ih hl]
    | true => simp [hh, hx hh]

/-- If the first match is of the kind, a search restricted to the kind finds the same. -/
theorem eraseP_eq_of_find? (hfirst : ∀ b, l.find? h = some b → p b = true) :
    l.eraseP h = l.eraseP fun x => h x && p x := by
  induction l with
  | nil => rfl
  | cons x l ih =>
    cases hh : h x with
    | false =>
      have hl : ∀ b, l.find? h = some b → p b = true := fun b hb => hfirst b (by simp [hh, hb])
      simp [hh, ih hl]
    | true =>
      have hp : p x = true := hfirst x (by simp [hh])
      simp [hh, hp]

theorem length_filter_eraseP (hfirst : l.find? h = some b) (hb : p b = true) :
    ((l.eraseP h).filter p).length + 1 = (l.filter p).length := by
  induction l with
  | nil => cases hfirst
  | cons x l ih =>
    cases hh : h x with
    | false =>
      rw [List.find?_cons_of_neg (by simp [hh])] at hfirst
      have := ih hfirst
      cases hp : p x <;> simp [hh, hp] <;> omega
    | true =>
      rw [List.find?_cons_of_pos hh] at hfirst
      cases hfirst
      simp [hh, hb]

end Once

/-! ## Once for each key -/

section Keys

variable [BEq κ]

def eraseKeys (key : α → κ) (l : List α) (ks : List κ) : List α :=
  ks.foldl (fun l k => l.eraseP fun x => key x == k) l

theorem eraseKeys_cons (key : α → κ) (l : List α) (k : κ) (ks : List κ) :
    eraseKeys key l (k :: ks) = eraseKeys key (l.eraseP fun x => key x == k) ks := rfl

theorem eraseKeys_sublist (key : α → κ) (l : List α) (ks : List κ) :
    (eraseKeys key l ks).Sublist l := by
  induction ks generalizing l with
  | nil => exact List.Sublist.refl l
  | cons k ks ih => exact (ih _).trans eraseP_sublist

variable [LawfulBEq κ] {key : α → κ}

theorem eraseKeys_of_not_mem {l : List α} {ks : List κ} (h : ∀ x ∈ l, key x ∉ ks) :
    eraseKeys key l ks = l := by
  induction ks with
  | nil => rfl
  | cons k ks ih =>
    have hk : ∀ x ∈ l, ¬ (key x == k) = true := fun x hx heq =>
      h x hx (by simp [eq_of_beq heq])
    rw [eraseKeys_cons, eraseP_of_forall_not hk]
    exact ih fun x hx hmem => h x hx (mem_cons_of_mem _ hmem)

/-- Of the elements with key `k`, the first are gone, as many as `k` is listed. -/
theorem filter_eraseKeys (l : List α) (ks : List κ) (k : κ) :
    (eraseKeys key l ks).filter (fun x => key x == k) =
      (l.filter fun x => key x == k).drop (ks.count k) := by
  induction ks generalizing l with
  | nil => simp [eraseKeys]
  | cons k' ks ih =>
    rw [eraseKeys_cons, ih]
    by_cases hk : k' = k
    · subst hk
      have hfirst : (l.eraseP fun x => key x == k').filter (fun x => key x == k') =
          (l.filter fun x => key x == k').drop 1 := by
        have hand := eraseP_filter (p := fun x => key x == k') (f := fun x => key x == k')
          (l := l)
        simp only [Bool.and_self] at hand
        rw [← hand]
        cases hl : l.filter fun x => key x == k' with
        | nil => rfl
        | cons x rest =>
          have hx : (key x == k') = true :=
            (mem_filter.mp (hl ▸ mem_cons_self : x ∈ l.filter fun x => key x == k')).2
          simp [hx]
      rw [hfirst, drop_drop, count_cons_self, Nat.add_comm]
    · rw [filter_eraseP_of_disjoint, count_cons_of_ne hk]
      intro x _ hx
      simp [eq_of_beq hx, hk]

/-- As many elements as are of a kind, taken from the front, leave none of the kind exactly if all
of the kind stand in front. -/
theorem forall_drop_countP_iff (p : α → Bool) (l : List α) :
    (∀ x ∈ l.drop (l.countP p), p x = false) ↔ l.Pairwise fun x y => p y = true → p x = true := by
  induction l with
  | nil => simp
  | cons x l ih =>
    rw [pairwise_cons, ← ih]
    cases hp : p x with
    | true => simp [countP_cons_of_pos hp]
    | false =>
      rw [countP_cons_of_neg (by simp [hp])]
      cases hn : l.countP p with
      | zero =>
        simp [hp]
      | succ n =>
        -- one of the kind is left on one side, and stands behind `x` on the other
        obtain ⟨y, hy, hpy⟩ := countP_pos_iff.mp (show 0 < l.countP p by omega)
        constructor
        · intro hleft
          exfalso
          have hdrop : (l.drop n).countP p = 0 := by
            simpa [countP_eq_zero] using hleft
          have hsplit : l.countP p = (l.take n).countP p + (l.drop n).countP p := by
            rw [← countP_append, take_append_drop]
          have hle : (l.take n).countP p ≤ (l.take n).length := countP_le_length
          have hlen := length_take_le n l
          omega
        · rintro ⟨hall, -⟩
          simpa using hall y hy hpy

/-- Nothing of a kind is left when the keys of all its elements are taken out, exactly if none of
them has an element of another kind and with the same key before it. -/
theorem forall_eraseKeys_iff (p : α → Bool) (l : List α) :
    (∀ x ∈ eraseKeys key l ((l.filter p).map key), p x = false) ↔
      l.Pairwise fun x y => key x = key y → p y = true → p x = true := by
  have hcount : ∀ k, ((l.filter p).map key).count k = (l.filter fun x => key x == k).countP p := by
    intro k
    rw [List.count, countP_map, countP_filter, countP_filter]
    exact countP_congr fun x _ => by simp [and_comm]
  have hkey : ∀ k, (∀ x ∈ eraseKeys key l ((l.filter p).map key), key x = k → p x = false) ↔
      (l.filter fun x => key x == k).Pairwise fun x y => p y = true → p x = true := by
    intro k
    rw [← forall_drop_countP_iff, ← hcount, ← filter_eraseKeys]
    simp [mem_filter]
  calc (∀ x ∈ eraseKeys key l ((l.filter p).map key), p x = false)
      ↔ ∀ k, ∀ x ∈ eraseKeys key l ((l.filter p).map key), key x = k → p x = false := by
        exact ⟨fun h k x hx _ => h x hx, fun h x hx => h (key x) x hx rfl⟩
    _ ↔ ∀ k, (l.filter fun x => key x == k).Pairwise fun x y => p y = true → p x = true :=
        forall_congr' hkey
    _ ↔ l.Pairwise fun x y => key x = key y → p y = true → p x = true := by
        simp only [pairwise_filter, beq_iff_eq]
        simp only [pairwise_iff_forall_sublist]
        constructor
        · exact fun h x y hxy heq => h (key y) hxy heq rfl
        · exact fun h k x y hxy hx hy => h hxy (hx.trans hy.symm)

/-- In that case all other elements are left. -/
theorem eraseKeys_of_pairwise {p : α → Bool} {l : List α}
    (h : l.Pairwise fun x y => key x = key y → p y = true → p x = true) :
    eraseKeys key l ((l.filter p).map key) = l.filter fun x => !p x := by
  induction hl : l.filter p generalizing l with
  | nil =>
    have hnone : ∀ x ∈ l, (!p x) = true := by simpa [filter_eq_nil_iff] using hl
    exact (filter_eq_self.mpr hnone).symm
  | cons b rest ih =>
    obtain ⟨l₁, l₂, rfl, hl₁, hb, hl₂⟩ := filter_eq_cons_iff.mp hl
    have hfront : ∀ x ∈ l₁, ¬ (key x == key b) = true := by
      intro x hx heq
      have hpair := (pairwise_append.mp h).2.2 x hx b mem_cons_self
      exact hl₁ x hx (hpair (eq_of_beq heq) hb)
    have herase : ((l₁ ++ b :: l₂).eraseP fun x => key x == key b) = l₁ ++ l₂ := by
      rw [eraseP_append_right _ hfront, eraseP_cons_of_pos (by simp)]
    have hsub : (l₁ ++ l₂).Sublist (l₁ ++ b :: l₂) :=
      (List.Sublist.refl l₁).append (sublist_cons_self b l₂)
    have hrest : (l₁ ++ l₂).filter p = rest := by
      rw [filter_append, filter_eq_nil_iff.mpr hl₁, hl₂, nil_append]
    rw [map_cons, eraseKeys_cons, herase, ih (h.sublist hsub) hrest]
    simp [hb]

end Keys

end Gomq
