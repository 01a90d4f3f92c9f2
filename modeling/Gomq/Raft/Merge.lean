import Gomq.Raft.Node

/-!
# Merging a stretch of the leader's log

The loop of `AppendEntries` over entries that are a stretch of the leader's log, for a follower's
log that matches it. The loop skips the entries that the follower has. It stops at the end of the
follower's log or at the first entry of another term, and there it replaces everything from that
place on by the rest of the request: the follower's log is kept or becomes the leader's up to the
last entry sent (`merged_mergeEntries`).
-/

namespace Gomq.Raft

open List

def Indexed (log : List LogEntry) : Prop := ∀ i e, entryAt log i = some e → e.index = i

/-- Equal terms at an index imply equal logs up to it. -/
def LogMatching (log log' : List LogEntry) : Prop :=
  ∀ i e e', entryAt log i = some e → entryAt log' i = some e' → e.term = e'.term →
    log.take i = log'.take i

/-- The request carries the entries `prev + 1` to `prev + k` of the leader's log, and the leader's
term at `prev`. -/
structure SentFrom (leader : List LogEntry) (prev k : ℕ) (req : AppendEntriesRequest) : Prop where
  le_length : prev + k ≤ leader.length
  entries : req.entries = (leader.drop prev).take k
  prevLogIndex : req.prevLogIndex = prev
  prevLogTerm : ∀ e, entryAt leader prev = some e → req.prevLogTerm = e.term

/-! ## Matching -/

theorem entryAt_succ (log : List LogEntry) (k : ℕ) : entryAt log (k + 1) = log[k]? :=
  if_neg (Nat.succ_ne_zero k)

section Matching

variable {leader log log' : List LogEntry} {i n : ℕ} {e : LogEntry}

theorem entryAt_eq_some : entryAt log i = some e ↔ ∃ k, i = k + 1 ∧ log[k]? = some e := by
  cases i with
  | zero => exact ⟨nofun, nofun⟩
  | succ k =>
    rw [entryAt_succ]
    constructor
    · exact fun h => ⟨k, rfl, h⟩
    · rintro ⟨_, heq, h⟩
      cases heq
      exact h

theorem indexed_of_getElem? (h : ∀ k e, log[k]? = some e → e.index = k + 1) : Indexed log := by
  intro i e he
  obtain ⟨k, rfl, hk⟩ := entryAt_eq_some.mp he
  exact h k e hk

theorem Indexed.index (h : Indexed log) {k : ℕ} (hk : log[k]? = some e) : e.index = k + 1 :=
  h (k + 1) e (by rw [entryAt_succ]; exact hk)

theorem LogMatching.take_eq (h : LogMatching log log') {k : ℕ} {e' : LogEntry}
    (hk : log[k]? = some e) (hk' : log'[k]? = some e') (ht : e.term = e'.term) :
    log.take (k + 1) = log'.take (k + 1) :=
  h (k + 1) e e' (by rw [entryAt_succ]; exact hk) (by rw [entryAt_succ]; exact hk') ht

theorem entryAt_take (h : entryAt (leader.take n) i = some e) :
    i ≤ n ∧ entryAt leader i = some e := by
  obtain ⟨k, rfl, hk⟩ := entryAt_eq_some.mp h
  have hlt : k < n := by
    have := (List.getElem?_eq_some_iff.mp hk).1
    rw [length_take] at this
    omega
  rw [List.getElem?_take_of_lt hlt] at hk
  exact ⟨hlt, by rw [entryAt_succ]; exact hk⟩

theorem Indexed.take (h : Indexed log) (n : ℕ) : Indexed (log.take n) :=
  fun i e he => h i e (entryAt_take he).2

theorem logMatching_take (leader : List LogEntry) (n : ℕ) :
    LogMatching (leader.take n) leader := by
  intro i e e' he _ _
  rw [take_take, min_eq_left (entryAt_take he).1]

end Matching

/-! ## The loop over the entries -/

/-- What becomes of the follower's log when the leader's entries from `prev` to `m` are merged. -/
inductive Merged (leader log : List LogEntry) (prev m : ℕ) : List LogEntry → Prop
  | kept (hagree : log.take m = leader.take m) : Merged leader log prev m log
  /-- The follower's log ends before the last entry sent. -/
  | extended (hshort : log.length < m) (hinit : log <+: leader) :
      Merged leader log prev m (leader.take m)
  /-- There is a conflict at position `j`, counted from 0, and none before it. -/
  | cut {j : ℕ} {old new : LogEntry} (hsent : prev ≤ j ∧ j < m) (hold : log[j]? = some old)
      (hnew : leader[j]? = some new) (hne : old.term ≠ new.term)
      (hbefore : log.take j = leader.take j) : Merged leader log prev m (leader.take m)

section Merge

variable {leader log log' : List LogEntry} {prev n m k : ℕ}

theorem merged_mergeEntries (hleader : Indexed leader) (hmatch : LogMatching log leader)
    (hprev : prev ≤ n) (hlen : n + k ≤ leader.length) (hagree : log.take n = leader.take n) :
    ∃ log', mergeEntries log ((leader.drop n).take k) = some log' ∧
      Merged leader log prev (n + k) log' := by
  induction k generalizing n with
  | zero => exact ⟨log, by rw [take_zero, mergeEntries], .kept hagree⟩
  | succ k ih =>
    have hn : n < leader.length := by omega
    have hnew : leader[n]? = some leader[n] := List.getElem?_eq_getElem hn
    have hsplit : leader.take n ++ (leader.drop n).take (k + 1) = leader.take (n + (k + 1)) :=
      take_add.symm
    have hlog : n ≤ log.length := le_length_of_take_eq hagree hn.le
    rw [drop_eq_getElem_cons hn, take_succ_cons] at hsplit ⊢
    rw [mergeEntries, hleader.index hnew, entryAt_succ, Nat.add_sub_cancel]
    by_cases hhas : n + 1 ≤ log.length
    · have hold : log[n]? = some log[n] := List.getElem?_eq_getElem hhas
      rw [if_pos hhas, hold]
      dsimp only
      by_cases hterm : log[n].term = leader[n].term
      · -- the follower has the entry, and the loop goes on
        rw [if_neg (not_not.mpr hterm), show n + (k + 1) = n + 1 + k by omega]
        exact ih (by omega) (by omega) (hmatch.take_eq hold hnew hterm)
      · rw [if_pos hterm, hagree, hsplit]
        exact ⟨_, rfl, .cut ⟨hprev, by omega⟩ hold hnew hterm hagree⟩
    · have hall : log = leader.take n := by
        rw [← hagree, take_of_length_le (by omega)]
      rw [← hall] at hsplit
      rw [if_neg hhas, hsplit]
      exact ⟨_, rfl, .extended (by omega) (by rw [hall]; exact take_prefix n leader)⟩

theorem Merged.agree (h : Merged leader log prev m log') : log'.take m = leader.take m := by
  cases h with
  | kept hagree => exact hagree
  | extended => rw [take_take, min_self]
  | cut => rw [take_take, min_self]

theorem Merged.indexed (h : Merged leader log prev m log') (hlog : Indexed log)
    (hleader : Indexed leader) : Indexed log' := by
  cases h with
  | kept => exact hlog
  | extended => exact hleader.take m
  | cut => exact hleader.take m

theorem Merged.matching (h : Merged leader log prev m log') (hmatch : LogMatching log leader) :
    LogMatching log' leader := by
  cases h with
  | kept => exact hmatch
  | extended => exact logMatching_take leader m
  | cut => exact logMatching_take leader m

theorem Merged.removed (h : Merged leader log prev m log') {i : ℕ} {e : LogEntry}
    (he : entryAt log i = some e) (hgone : entryAt log' i ≠ some e) :
    ∃ j old new, (prev ≤ j ∧ j < m) ∧ j + 1 ≤ i ∧ log[j]? = some old ∧ leader[j]? = some new ∧
      old.term ≠ new.term := by
  obtain ⟨k, rfl, hk⟩ := entryAt_eq_some.mp he
  rw [entryAt_succ] at hgone
  have hlt := (List.getElem?_eq_some_iff.mp hk).1
  cases h with
  | kept => exact absurd hk hgone
  | extended hshort hinit =>
    rw [List.getElem?_take_of_lt (hlt.trans hshort)] at hgone
    exact absurd (getElem?_of_isPrefix hinit hk) hgone
  | cut hsent hold hnew hne hbefore =>
    refine ⟨_, _, _, hsent, ?_, hold, hnew, hne⟩
    by_contra hlate
    rw [List.getElem?_take_of_lt (by omega),
      ← getElem?_of_take_eq hbefore (by omega : k < _)] at hgone
    exact hgone hk

theorem Merged.eq_of_agree (h : Merged leader log prev m log') (hlen : m ≤ leader.length)
    (hagree : log.take m = leader.take m) : log' = log := by
  cases h with
  | kept => rfl
  | extended hshort => exact absurd (le_length_of_take_eq hagree hlen) (Nat.not_le.mpr hshort)
  | cut hsent hold hnew hne =>
    have hsame := getElem?_of_take_eq hagree hsent.2
    rw [hold, hnew] at hsame
    cases hsame
    exact absurd rfl hne

theorem Merged.eq_of_not_agree (h : Merged leader log prev m log')
    (hno : log.take m ≠ leader.take m) : log' = leader.take m := by
  cases h with
  | kept hagree => exact absurd hagree hno
  | extended => rfl
  | cut => rfl

end Merge

/-! ## Requests -/

section Request

variable {leader log : List LogEntry} {prev k : ℕ} {req : AppendEntriesRequest} {r : RaftNode}

theorem SentFrom.prevMatches_iff (hreq : SentFrom leader prev k req)
    (hmatch : LogMatching r.log leader) :
    r.prevMatches req.prevLogIndex req.prevLogTerm = true ↔
      r.log.take prev = leader.take prev := by
  rw [hreq.prevLogIndex]
  unfold RaftNode.prevMatches
  cases prev with
  | zero => simp
  | succ j =>
    have hlen := hreq.le_length
    have hlead : leader[j]? = some leader[j] := List.getElem?_eq_getElem (by omega)
    have hterm := hreq.prevLogTerm leader[j] (by rw [entryAt_succ]; exact hlead)
    rw [if_pos (Nat.succ_pos j), entryAt_succ, hterm]
    cases hj : r.log[j]? with
    | none =>
      refine ⟨nofun, fun hagree => ?_⟩
      rw [getElem?_of_take_eq hagree (Nat.lt_succ_self j), hlead] at hj
      cases hj
    | some e =>
      dsimp only
      rw [decide_eq_true_iff]
      refine ⟨fun ht => hmatch.take_eq hj hlead ht, fun hagree => ?_⟩
      rw [getElem?_of_take_eq hagree (Nat.lt_succ_self j), hlead] at hj
      rw [Option.some.inj hj]

theorem SentFrom.merged (hreq : SentFrom leader prev k req) (hleader : Indexed leader)
    (hmatch : LogMatching r.log leader)
    (hprev : r.prevMatches req.prevLogIndex req.prevLogTerm = true)
    (hm : mergeEntries r.log req.entries = some log) :
    Merged leader r.log prev (prev + k) log := by
  have hagree := (hreq.prevMatches_iff hmatch).mp hprev
  obtain ⟨log', hm', hmerged⟩ :=
    merged_mergeEntries hleader hmatch (le_refl prev) hreq.le_length hagree
  rw [← hreq.entries, hm] at hm'
  cases hm'
  exact hmerged

end Request

end Gomq.Raft
