import Gomq.Raft.Merge

/-!
# One leader's log and one follower's

An accepted `AppendEntries` between a follower and a leader whose logs match, for a request that
carries any stretch of the leader's log. All of it follows from what the loop over the entries can
do to the follower's log (`Merged`): the logs agree up to the last entry sent, they still match, an
entry is lost only from a conflict on, and the same request once more changes nothing
(`appendEntries_matching`). The requests of `ReplicateAll` and of the heartbeats are of this kind.
-/

namespace Gomq.Raft

open List

/-- Of the entries sent, `s` has another term than the follower's entry at its index. -/
def Conflicts (log : List LogEntry) (s : LogEntry) : Prop :=
  ∃ old, entryAt log s.index = some old ∧ old.term ≠ s.term

/-! ## The handler -/

namespace RaftNode

def accept (req : AppendEntriesRequest) (log : List LogEntry) (r : RaftNode) : RaftNode :=
  { r.observeTerm req.term with
    log := log
    commitIndex :=
      if r.commitIndex < req.leaderCommit then min req.leaderCommit log.length
      else r.commitIndex }

variable {req : AppendEntriesRequest} {log : List LogEntry} {r : RaftNode}

theorem prevMatches_observeTerm (i t term : ℕ) (r : RaftNode) :
    (r.observeTerm term).prevMatches i t = r.prevMatches i t := by
  unfold prevMatches
  rw [observeTerm_log]

theorem appendEntries_eq_true {r' : RaftNode} :
    r.appendEntries req = (some true, r') ↔
      ∃ log, r.currentTerm ≤ req.term ∧ r.prevMatches req.prevLogIndex req.prevLogTerm = true ∧
        mergeEntries r.log req.entries = some log ∧ r' = r.accept req log := by
  unfold appendEntries
  dsimp only
  rw [prevMatches_observeTerm, observeTerm_log, observeTerm_commitIndex]
  by_cases hold : req.term < r.currentTerm
  · rw [if_pos hold]
    refine ⟨nofun, ?_⟩
    rintro ⟨_, hterm, -⟩
    exact absurd hold (Nat.not_lt.mpr hterm)
  · rw [if_neg hold]
    by_cases hprev : r.prevMatches req.prevLogIndex req.prevLogTerm = true
    · rw [if_neg (not_not.mpr hprev)]
      cases hm : mergeEntries r.log req.entries with
      | none =>
        refine ⟨nofun, ?_⟩
        rintro ⟨_, -, -, hsome, -⟩
        cases hsome
      | some log =>
        constructor
        · intro h
          exact ⟨log, Nat.le_of_not_lt hold, hprev, rfl, (Prod.mk.inj h).2.symm⟩
        · rintro ⟨_, -, -, hsome, rfl⟩
          cases hsome
          rfl
    · rw [if_pos hprev]
      refine ⟨nofun, ?_⟩
      rintro ⟨_, -, hyes, -⟩
      exact absurd hyes hprev

theorem accept_accept (hterm : r.currentTerm ≤ req.term) :
    (r.accept req log).accept req log = r.accept req log := by
  have hnow : (r.accept req log).currentTerm = req.term :=
    r.observeTerm_currentTerm req.term (Nat.not_lt.mpr hterm)
  have hsame : (r.accept req log).observeTerm req.term = r.accept req log :=
    if_neg (by rw [hnow]; exact lt_irrefl _)
  rw [accept, hsame]
  unfold accept
  dsimp only
  congr 1
  split
  · split <;> rfl
  · rfl

end RaftNode

section Follower

variable {leader : List LogEntry} {prev k : ℕ} {req : AppendEntriesRequest} {r r' : RaftNode}

theorem SentFrom.accepted (hreq : SentFrom leader prev k req) (hleader : Indexed leader)
    (hmatch : LogMatching r.log leader) (h : r.appendEntries req = (some true, r')) :
    r.currentTerm ≤ req.term ∧
      ∃ log, Merged leader r.log prev (prev + k) log ∧ r' = r.accept req log := by
  obtain ⟨log, hterm, hprev, hm, rfl⟩ := RaftNode.appendEntries_eq_true.mp h
  exact ⟨hterm, log, hreq.merged hleader hmatch hprev hm, rfl⟩

/-- A log that agrees with the leader's up to the last entry sent is accepted as it is. -/
theorem SentFrom.again (hreq : SentFrom leader prev k req) (hleader : Indexed leader)
    (hmatch : LogMatching r.log leader) (hterm : r.currentTerm ≤ req.term)
    (hagree : r.log.take (prev + k) = leader.take (prev + k)) :
    r.appendEntries req = (some true, r.accept req r.log) := by
  have hprev := take_of_take_eq hagree (Nat.le_add_right prev k)
  obtain ⟨log, hm, hmerged⟩ :=
    merged_mergeEntries hleader hmatch (le_refl prev) hreq.le_length hprev
  rw [← hreq.entries, hmerged.eq_of_agree hreq.le_length hagree] at hm
  exact RaftNode.appendEntries_eq_true.mpr
    ⟨r.log, hterm, (hreq.prevMatches_iff hmatch).mpr hprev, hm, rfl⟩

theorem SentFrom.keeps_matching (hreq : SentFrom leader prev k req) (hleader : Indexed leader)
    (h : Indexed r.log ∧ LogMatching r.log leader) :
    Indexed (r.appendEntries req).2.log ∧ LogMatching (r.appendEntries req).2.log leader := by
  obtain ⟨hindexed, hmatch⟩ := h
  rcases r.appendEntries_cases req with ⟨log, -, -, -, heq⟩ | ⟨ok, heq⟩ | heq
  · obtain ⟨-, log', hmerged, hnode⟩ := hreq.accepted hleader hmatch heq
    rw [heq, hnode]
    exact ⟨hmerged.indexed hindexed hleader, hmerged.matching hmatch⟩
  · rw [heq, RaftNode.observeTerm_log]
    exact ⟨hindexed, hmatch⟩
  · rw [heq]
    exact ⟨hindexed, hmatch⟩

/-- Requests with any stretches of the leader's log, in any order and number. -/
theorem matching_run (hleader : Indexed leader) (h : Indexed r.log ∧ LogMatching r.log leader)
    {reqs : List AppendEntriesRequest}
    (hreqs : ∀ req ∈ reqs, ∃ prev k, SentFrom leader prev k req) :
    Indexed (reqs.foldl (fun r req => (r.appendEntries req).2) r).log ∧
      LogMatching (reqs.foldl (fun r req => (r.appendEntries req).2) r).log leader := by
  refine foldlRecOn (motive := fun r : RaftNode => Indexed r.log ∧ LogMatching r.log leader)
    reqs _ h fun u hu req hmem => ?_
  obtain ⟨prev, k, hreq⟩ := hreqs req hmem
  exact hreq.keeps_matching hleader hu

theorem sentFrom_replicate (h : r.replicate = some req) :
    SentFrom r.log (r.log.length - 1) 1 req := by
  unfold RaftNode.replicate at h
  split at h
  · cases h
  cases hlast : r.log.getLast? with
  | none => rw [hlast] at h; cases h
  | some last =>
    rw [hlast] at h
    cases h
    obtain ⟨init, hlog⟩ := List.getLast?_eq_some_iff.mp hlast
    refine ⟨?_, ?_, rfl, ?_⟩
    · rw [hlog, length_append, length_singleton]; omega
    · rw [hlog, length_append, length_singleton, Nat.add_sub_cancel, drop_left]
      rfl
    · intro e he
      obtain ⟨j, hj, hej⟩ := entryAt_eq_some.mp he
      rw [hlog, length_append, length_singleton, Nat.add_sub_cancel] at hj
      dsimp only
      rw [hlog, dropLast_concat]
      refine lastTerm_eq ?_
      rw [hlog, List.getElem?_append_left (by omega)] at hej
      rw [hj, Nat.add_sub_cancel]
      exact hej

theorem sentFrom_heartbeat (leader : RaftNode) : SentFrom leader.log 0 0 leader.heartbeat :=
  ⟨Nat.zero_le _, by rw [take_zero]; rfl, rfl, nofun⟩

/-- Let the logs of a follower and a leader match. A request with entries of the leader that the
follower accepts makes the two agree up to the last of these entries and match as before; the
follower loses an entry only to a conflict with an entry sent, there or earlier; and the same
request again changes nothing. -/
theorem appendEntries_matching (hfollower : Indexed r.log) (hleader : Indexed leader)
    (hmatch : LogMatching r.log leader) (hreq : SentFrom leader prev k req)
    (hok : r.appendEntries req = (some true, r')) :
    r'.log.take (prev + k) = leader.take (prev + k) ∧
      (Indexed r'.log ∧ LogMatching r'.log leader) ∧
      (∀ i e, entryAt r.log i = some e → entryAt r'.log i ≠ some e →
        ∃ s ∈ req.entries, s.index ≤ i ∧ Conflicts r.log s) ∧
      r'.appendEntries req = (some true, r') := by
  obtain ⟨hterm, log, hmerged, rfl⟩ := hreq.accepted hleader hmatch hok
  refine ⟨hmerged.agree, ⟨hmerged.indexed hfollower hleader, hmerged.matching hmatch⟩, ?_, ?_⟩
  · intro i e he hgone
    obtain ⟨j, old, new, hsent, hle, hold, hnew, hne⟩ := hmerged.removed he hgone
    have hindex := hleader.index hnew
    refine ⟨new, ?_, by rw [hindex]; exact hle, old, ?_, hne⟩
    · rw [hreq.entries]
      refine mem_of_getElem? (i := j - prev) ?_
      rw [List.getElem?_take_of_lt (by omega), List.getElem?_drop,
        show prev + (j - prev) = j by omega]
      exact hnew
    · rw [hindex, entryAt_succ]
      exact hold
  · have hnow : (r.accept req log).currentTerm = req.term :=
      r.observeTerm_currentTerm req.term (Nat.not_lt.mpr hterm)
    have hagain := hreq.again hleader (r := r.accept req log) (hmerged.matching hmatch) hnow.le
      hmerged.agree
    rw [hagain]
    exact congrArg (Prod.mk (some true)) (RaftNode.accept_accept hterm)

end Follower

/-! ## A follower with an entry of an older term -/

def staleFollower : RaftNode :=
  { newRaftNode (str "b") [str "a"] with
    currentTerm := 1
    log := [⟨1, 1, []⟩, ⟨2, 1, []⟩, ⟨3, 1, []⟩] }

def leadersLog : List LogEntry := [⟨1, 1, []⟩, ⟨2, 2, []⟩]

def secondEntry : AppendEntriesRequest := ⟨2, str "a", 1, 1, [⟨2, 2, []⟩], 0⟩

theorem indexed_staleFollower : Indexed staleFollower.log := by
  intro i e he
  obtain ⟨k, rfl, hk⟩ := entryAt_eq_some.mp he
  match k with
  | 0 | 1 | 2 => cases hk; rfl
  | k + 3 => cases hk

theorem indexed_leadersLog : Indexed leadersLog := by
  intro i e he
  obtain ⟨k, rfl, hk⟩ := entryAt_eq_some.mp he
  match k with
  | 0 | 1 => cases hk; rfl
  | k + 2 => cases hk

theorem matching_staleFollower : LogMatching staleFollower.log leadersLog := by
  intro i e e' he he' ht
  obtain ⟨k, rfl, hk⟩ := entryAt_eq_some.mp he
  rw [entryAt_succ] at he'
  match k with
  | 0 => rfl
  | 1 => cases hk; cases he'; cases ht
  | k + 2 => cases he'

theorem sentFrom_secondEntry : SentFrom leadersLog 1 1 secondEntry := by
  refine ⟨by decide, rfl, rfl, fun e he => ?_⟩
  cases he
  rfl

theorem appendEntries_secondEntry :
    staleFollower.appendEntries secondEntry =
      (some true, staleFollower.accept secondEntry leadersLog) := by decide

theorem appendEntries_matching_staleFollower :
    (staleFollower.accept secondEntry leadersLog).log.take (1 + 1) = leadersLog.take (1 + 1) ∧
      (Indexed (staleFollower.accept secondEntry leadersLog).log ∧
        LogMatching (staleFollower.accept secondEntry leadersLog).log leadersLog) ∧
      (∀ i e, entryAt staleFollower.log i = some e →
        entryAt (staleFollower.accept secondEntry leadersLog).log i ≠ some e →
          ∃ s ∈ secondEntry.entries, s.index ≤ i ∧ Conflicts staleFollower.log s) ∧
      (staleFollower.accept secondEntry leadersLog).appendEntries secondEntry =
        (some true, staleFollower.accept secondEntry leadersLog) :=
  appendEntries_matching indexed_staleFollower indexed_leadersLog matching_staleFollower
    sentFrom_secondEntry appendEntries_secondEntry

/-- The request comes twice. -/
theorem matching_run_staleFollower :
    let r := [secondEntry, secondEntry].foldl (fun r req => (r.appendEntries req).2) staleFollower
    r.log = leadersLog ∧ Indexed r.log ∧ LogMatching r.log leadersLog :=
  ⟨by decide, matching_run indexed_leadersLog ⟨indexed_staleFollower, matching_staleFollower⟩
    (by simpa using ⟨1, 1, sentFrom_secondEntry⟩)⟩

end Gomq.Raft
