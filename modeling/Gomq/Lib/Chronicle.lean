import Mathlib.Data.List.Infix
import Mathlib.Data.List.Basic

/-!
# Chronicles of leaders' logs

A replicated log is written by one leader a term. A chronicle keeps, for every term that has had a
leader, the log of that leader as far as it got; a log matches the chronicle when it agrees with the
log of the leader of each of its entries, up to that entry. Two logs that match and have entries of
the same term in the same place are equal up to that place.
-/

namespace Gomq

open List

section Logs

variable {ε : Type} (term : ε → ℕ)

/-- Up to each entry the log is that of the leader of the entry's term. -/
def Matches (canon : ℕ → List ε) (l : List ε) : Prop :=
  ∀ k e, l[k]? = some e → l.take (k + 1) = (canon (term e)).take (k + 1)

/-- The term of the last entry, 0 for the empty log. -/
def lastTerm (l : List ε) : ℕ :=
  match l.getLast? with
  | none => 0
  | some e => term e

variable {term} {canon canon' : ℕ → List ε} {l l' : List ε}

theorem getElem?_of_take_eq {k n : ℕ} (h : l.take n = l'.take n) (hk : k < n) : l[k]? = l'[k]? := by
  have := congrArg (·[k]?) h
  simpa only [List.getElem?_take_of_lt hk] using this

theorem take_of_take_eq {k n : ℕ} (h : l.take n = l'.take n) (hk : k ≤ n) :
    l.take k = l'.take k := by
  have := congrArg (List.take k) h
  rwa [take_take, take_take, min_eq_left hk] at this

theorem take_of_isPrefix {k : ℕ} (h : l <+: l') (hk : k ≤ l.length) : l'.take k = l.take k := by
  obtain ⟨r, rfl⟩ := h
  exact take_append_of_le_length hk

theorem le_length_of_take_eq {k : ℕ} (h : l.take k = l'.take k) (hk : k ≤ l'.length) :
    k ≤ l.length := by
  have := congrArg List.length h
  rw [length_take, length_take] at this
  omega

theorem getElem?_of_isPrefix {k : ℕ} {e : ε} (h : l <+: l') (hk : l[k]? = some e) :
    l'[k]? = some e := by
  obtain ⟨r, rfl⟩ := h
  rw [List.getElem?_append_left (List.getElem?_eq_some_iff.mp hk).1, hk]

theorem isPrefix_update {t : ℕ} (h : canon t <+: l) (u : ℕ) :
    canon u <+: Function.update canon t l u := by
  by_cases hu : u = t
  · subst hu
    rw [Function.update_self]
    exact h
  · rw [Function.update_of_ne hu]

theorem Matches.nil : Matches term canon [] := by
  intro k e h
  cases h

theorem Matches.take (h : Matches term canon l) (n : ℕ) : Matches term canon (l.take n) := by
  intro k e hk
  have hlt : k < n := by
    have := (List.getElem?_eq_some_iff.mp hk).1
    rw [length_take] at this
    omega
  rw [List.getElem?_take_of_lt hlt] at hk
  rw [take_take, min_eq_left (Nat.succ_le_of_lt hlt)]
  exact h k e hk

/-- The entry itself is in the log of the leader of its term. -/
theorem Matches.getElem? (h : Matches term canon l) {k : ℕ} {e : ε} (hk : l[k]? = some e) :
    (canon (term e))[k]? = some e :=
  (getElem?_of_take_eq (h k e hk) (Nat.lt_succ_self k)).symm.trans hk

theorem Matches.mono (h : Matches term canon l) (hc : ∀ t, canon t <+: canon' t) :
    Matches term canon' l := by
  intro k e hk
  rw [h k e hk, take_of_isPrefix (hc (term e))]
  exact (List.getElem?_eq_some_iff.mp (h.getElem? hk)).1

theorem Matches.concat (h : Matches term canon l) {e : ε} (he : canon (term e) = l ++ [e]) :
    Matches term canon (l ++ [e]) := by
  intro k e' hk
  rcases Nat.lt_or_ge k l.length with hlt | hge
  · rw [List.getElem?_append_left hlt] at hk
    rw [take_append_of_le_length hlt]
    exact h k e' hk
  · have hlt := (List.getElem?_eq_some_iff.mp hk).1
    rw [length_append, length_singleton] at hlt
    obtain rfl : k = l.length := by omega
    rw [List.getElem?_concat_length] at hk
    cases hk
    rw [he]

/-- Log matching. -/
theorem Matches.take_eq (h : Matches term canon l) (h' : Matches term canon l') {k : ℕ} {e e' : ε}
    (hk : l[k]? = some e) (hk' : l'[k]? = some e') (ht : term e = term e') :
    l.take (k + 1) = l'.take (k + 1) := by
  rw [h k e hk, h' k e' hk', ht]

theorem lastTerm_eq {e : ε} (h : l[l.length - 1]? = some e) : lastTerm term l = term e := by
  unfold lastTerm
  rw [List.getLast?_eq_getElem?, h]

end Logs

/-! ## Chronicles -/

/-- The leaders of the terms and their logs. -/
structure Chronicle (α ε : Type) (term : ε → ℕ) where
  leader : ℕ → Option α
  canon : ℕ → List ε
  matches_canon : ∀ t, Matches term canon (canon t)
  /-- No entry is of a later term than the log it is in. -/
  term_le : ∀ t, ∀ e ∈ canon t, term e ≤ t
  canon_none : ∀ t, leader t = none → canon t = []

namespace Chronicle

variable {α ε : Type} {term : ε → ℕ} {ch ch' : Chronicle α ε term} {l : List ε}

def empty (term : ε → ℕ) : Chronicle α ε term where
  leader _ := none
  canon _ := []
  matches_canon := fun _ => .nil
  term_le := nofun
  canon_none := fun _ _ => rfl

abbrev Has (ch : Chronicle α ε term) (l : List ε) : Prop := Matches term ch.canon l

structure Extends (ch ch' : Chronicle α ε term) : Prop where
  leader : ∀ t a, ch.leader t = some a → ch'.leader t = some a
  canon : ∀ t, ch.canon t <+: ch'.canon t

theorem Extends.refl (ch : Chronicle α ε term) : ch.Extends ch :=
  ⟨fun _ _ h => h, fun _ => prefix_refl _⟩

theorem Extends.leader_ne (h : ch.Extends ch') {t : ℕ} (ht : ch.leader t ≠ none) :
    ch'.leader t ≠ none := by
  obtain ⟨a, ha⟩ := Option.ne_none_iff_exists'.mp ht
  rw [h.leader t a ha]
  exact Option.some_ne_none a

theorem leader_ne_of_getElem? {t k : ℕ} {e : ε} (h : (ch.canon t)[k]? = some e) :
    ch.leader t ≠ none := by
  intro ht
  rw [ch.canon_none t ht] at h
  cases h

theorem Has.term_le_term (hl : ch.Has l) {j k : ℕ} {e e' : ε} (hjk : j ≤ k)
    (hj : l[j]? = some e) (hk : l[k]? = some e') : term e ≤ term e' := by
  have h := getElem?_of_take_eq (hl k e' hk) (Nat.lt_succ_of_le hjk)
  exact ch.term_le _ e (mem_of_getElem? (h.symm.trans hj))

theorem Has.term_le_lastTerm (hl : ch.Has l) {k : ℕ} {e : ε} (hk : l[k]? = some e) :
    term e ≤ lastTerm term l := by
  have hlt := (List.getElem?_eq_some_iff.mp hk).1
  obtain ⟨e', he'⟩ : ∃ e', l[l.length - 1]? = some e' :=
    ⟨_, List.getElem?_eq_getElem (by omega)⟩
  rw [lastTerm_eq he']
  exact hl.term_le_term (by omega) hk he'

/-! ### Writing -/

/-- The leader of a term writes one more entry. -/
def propose (ch : Chronicle α ε term) (t : ℕ) (e : ε) (he : term e = t)
    (ht : ch.leader t ≠ none) : Chronicle α ε term where
  leader := ch.leader
  canon := Function.update ch.canon t (ch.canon t ++ [e])
  matches_canon := by
    have hmono := isPrefix_update (prefix_append (ch.canon t) [e])
    intro u
    by_cases hu : u = t
    · subst hu
      rw [Function.update_self]
      refine ((ch.matches_canon u).mono hmono).concat ?_
      rw [he, Function.update_self]
    · rw [Function.update_of_ne hu]
      exact (ch.matches_canon u).mono hmono
  term_le := by
    intro u e' he'
    by_cases hu : u = t
    · subst hu
      rw [Function.update_self] at he'
      rcases mem_append.mp he' with hmem | hmem
      · exact ch.term_le u e' hmem
      · rw [mem_singleton.mp hmem, he]
    · rw [Function.update_of_ne hu] at he'
      exact ch.term_le u e' he'
  canon_none := by
    intro u hu
    have hne : u ≠ t := fun h => ht (h ▸ hu)
    rw [Function.update_of_ne hne]
    exact ch.canon_none u hu

theorem extends_propose {t : ℕ} {e : ε} (he : term e = t) (ht : ch.leader t ≠ none) :
    ch.Extends (ch.propose t e he ht) :=
  ⟨fun _ _ h => h, isPrefix_update (prefix_append _ _)⟩

/-- A new leader, with the log it had when it was elected. -/
def elect (ch : Chronicle α ε term) (t : ℕ) (a : α) (l : List ε) (hl : ch.Has l)
    (hle : ∀ e ∈ l, term e ≤ t) (ht : ch.leader t = none) : Chronicle α ε term where
  leader := Function.update ch.leader t (some a)
  canon := Function.update ch.canon t l
  matches_canon := by
    have hmono : ∀ u, ch.canon u <+: Function.update ch.canon t l u :=
      isPrefix_update (by rw [ch.canon_none t ht]; exact nil_prefix)
    intro u
    by_cases hu : u = t
    · subst hu
      rw [Function.update_self]
      exact Matches.mono hl hmono
    · rw [Function.update_of_ne hu]
      exact (ch.matches_canon u).mono hmono
  term_le := by
    intro u e he
    by_cases hu : u = t
    · subst hu
      rw [Function.update_self] at he
      exact hle e he
    · rw [Function.update_of_ne hu] at he
      exact ch.term_le u e he
  canon_none := by
    intro u hu
    by_cases hut : u = t
    · subst hut
      rw [Function.update_self] at hu
      cases hu
    · rw [Function.update_of_ne hut] at hu ⊢
      exact ch.canon_none u hu

theorem extends_elect {t : ℕ} {a : α} (hl : ch.Has l)
    (hle : ∀ e ∈ l, term e ≤ t) (ht : ch.leader t = none) :
    ch.Extends (ch.elect t a l hl hle ht) := by
  refine ⟨fun u b hu => ?_, isPrefix_update (by rw [ch.canon_none t ht]; exact nil_prefix)⟩
  show Function.update ch.leader t (some a) u = some b
  have hne : u ≠ t := by
    rintro rfl
    rw [ht] at hu
    cases hu
  rw [Function.update_of_ne hne]
  exact hu

/-! ### Prefixes that later leaders have -/

/-- The log ends at index `m` (counted from 1) with an entry of term `t`, or is empty. -/
def Ends (ch : Chronicle α ε term) (m t : ℕ) : Prop :=
  m = 0 ∧ t = 0 ∨ 0 < m ∧ ∃ e, (ch.canon t)[m - 1]? = some e ∧ term e = t

theorem Ends.mono {m t : ℕ} (h : ch.Ends m t) (hc : ch.Extends ch') : ch'.Ends m t := by
  rcases h with h | ⟨hm, e, he, ht⟩
  · exact Or.inl h
  · exact Or.inr ⟨hm, e, getElem?_of_isPrefix (hc.canon t) he, ht⟩

theorem Has.ends (hl : ch.Has l) : ch.Ends l.length (lastTerm term l) := by
  rcases Nat.eq_zero_or_pos l.length with h0 | hpos
  · rw [eq_nil_of_length_eq_zero h0]
    exact Or.inl ⟨rfl, rfl⟩
  · obtain ⟨e, he⟩ : ∃ e, l[l.length - 1]? = some e :=
      ⟨_, List.getElem?_eq_getElem (Nat.sub_lt hpos Nat.one_pos)⟩
    rw [lastTerm_eq he]
    exact Or.inr ⟨hpos, e, hl.getElem? he, rfl⟩

/-- A log is its leader's log up to where it ends. -/
theorem Has.eq_take (hl : ch.Has l) : l = (ch.canon (lastTerm term l)).take l.length := by
  rcases Nat.eq_zero_or_pos l.length with h0 | hpos
  · rw [h0, take_zero]
    exact eq_nil_of_length_eq_zero h0
  · obtain ⟨e, he⟩ : ∃ e, l[l.length - 1]? = some e :=
      ⟨_, List.getElem?_eq_getElem (Nat.sub_lt hpos Nat.one_pos)⟩
    have h := hl _ e he
    rw [Nat.sub_add_cancel hpos, take_length] at h
    rw [lastTerm_eq he]
    exact h

/-- Index `i` of term `t` is settled: it is an entry of that term, and all later leaders have the
log up to it. -/
structure Settled (ch : Chronicle α ε term) (t i : ℕ) : Prop where
  pos : 0 < i
  entry : ∃ e, (ch.canon t)[i - 1]? = some e ∧ term e = t
  later : ∀ u, t < u → ch.leader u ≠ none → (ch.canon u).take i = (ch.canon t).take i

theorem Settled.le_length {t i : ℕ} (h : ch.Settled t i) : i ≤ (ch.canon t).length := by
  obtain ⟨e, he, -⟩ := h.entry
  have := (List.getElem?_eq_some_iff.mp he).1
  omega

theorem Settled.take_eq {t u i : ℕ} (h : ch.Settled t i) (htu : t ≤ u)
    (hu : ch.leader u ≠ none) : (ch.canon u).take i = (ch.canon t).take i := by
  rcases htu.eq_or_lt with rfl | hlt
  · rfl
  · exact h.later u hlt hu

/-- A log that is at least as up to date as one that has the settled prefix has it too. -/
theorem Settled.of_upToDate {t i m u : ℕ} (h : ch.Settled t i) (ht : 0 < t) (hl : ch.Has l)
    (hli : l.take i = (ch.canon t).take i) (hends : ch.Ends m u) (hu : lastTerm term l ≤ u)
    (hm : u = lastTerm term l → l.length ≤ m) :
    i ≤ m ∧ (ch.canon u).take i = (ch.canon t).take i := by
  obtain ⟨e, he, hte⟩ := h.entry
  have hpos := h.pos
  have hlen : i ≤ l.length := le_length_of_take_eq hli h.le_length
  have hle : l[i - 1]? = some e :=
    (getElem?_of_take_eq hli (by omega)).trans he
  have htl : t ≤ lastTerm term l := hte ▸ hl.term_le_lastTerm hle
  rcases hends with ⟨-, hu0⟩ | ⟨hmpos, e', he', hte'⟩
  · omega
  · have hled := leader_ne_of_getElem? he'
    have htake := h.take_eq (htl.trans hu) hled
    refine ⟨?_, htake⟩
    rcases (htl.trans hu).eq_or_lt with rfl | hlt
    · have := hm (le_antisymm htl hu)
      omega
    · -- the entry at `m` is of a later term than all entries up to `i`
      by_contra hlt'
      have hm' : m - 1 ≤ i - 1 := by omega
      have hi : (ch.canon u)[i - 1]? = some e := by
        rw [getElem?_of_take_eq htake (by omega), he]
      have := Has.term_le_term (ch.matches_canon u) hm' he' hi
      omega

theorem Settled.mono {t i : ℕ} (h : ch.Settled t i) (hc : ch.Extends ch')
    (hlater : ∀ u, t < u → ch.leader u = none → ch'.leader u ≠ none →
      (ch'.canon u).take i = (ch.canon t).take i) : ch'.Settled t i := by
  have htake : (ch'.canon t).take i = (ch.canon t).take i :=
    take_of_isPrefix (hc.canon t) h.le_length
  obtain ⟨e, he, hte⟩ := h.entry
  refine ⟨h.pos, ⟨e, getElem?_of_isPrefix (hc.canon t) he, hte⟩, fun u hu hled => ?_⟩
  rw [htake]
  by_cases hold : ch.leader u = none
  · exact hlater u hu hold hled
  · have heq := h.later u hu hold
    rw [take_of_isPrefix (hc.canon u) (le_length_of_take_eq heq h.le_length), heq]

end Chronicle

end Gomq
