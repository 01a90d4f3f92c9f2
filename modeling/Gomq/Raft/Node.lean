import Gomq.Lib.Bytes
import Gomq.Lib.Chronicle

/-!
# A Raft node

The mutex-protected operations of `RaftNode`. Terms are `uint64`; only `BecomeCandidate` can make
one wrap around. Indices count from 1 and an entry carries its own, so `AppendEntries` panics on an
entry with index 0: the handler is left with the term already raised and nothing else done.
-/

namespace Gomq.Raft

inductive RaftState where
  | follower
  | candidate
  | leader
  deriving DecidableEq, Repr

structure LogEntry where
  index : ℕ
  term : ℕ
  command : Bytes
  deriving DecidableEq, Repr

structure RequestVoteRequest where
  term : ℕ
  candidateID : GoString
  lastLogIndex : ℕ
  lastLogTerm : ℕ
  deriving DecidableEq, Repr

structure AppendEntriesRequest where
  term : ℕ
  leaderID : GoString
  prevLogIndex : ℕ
  prevLogTerm : ℕ
  entries : List LogEntry
  leaderCommit : ℕ
  deriving DecidableEq, Repr

structure RaftNode where
  nodeID : GoString
  state : RaftState
  currentTerm : ℕ
  votedFor : GoString
  log : List LogEntry
  commitIndex : ℕ
  peers : List GoString
  deriving DecidableEq, Repr

def newRaftNode (nodeID : GoString) (peers : List GoString) : RaftNode where
  nodeID := nodeID
  state := .follower
  currentTerm := 0
  votedFor := []
  log := []
  commitIndex := 0
  peers := peers

def termLimit : ℕ := 2 ^ 64

/-- `r.log[idx-1]`; `none` is out of range. -/
def entryAt (log : List LogEntry) (idx : ℕ) : Option LogEntry :=
  if idx = 0 then none else log[idx - 1]?

/-- The loop of `AppendEntries` over the new entries; `none` is a panic. -/
def mergeEntries (log : List LogEntry) : List LogEntry → Option (List LogEntry)
  | [] => some log
  | ent :: rest =>
    if ent.index ≤ log.length then
      match entryAt log ent.index with
      | none => none
      | some old =>
        if old.term ≠ ent.term then some (log.take (ent.index - 1) ++ ent :: rest)
        else mergeEntries log rest
    else some (log ++ ent :: rest)

namespace RaftNode

def propose (cmd : Bytes) (r : RaftNode) : Option ℕ × RaftNode :=
  if r.state ≠ .leader then (none, r)
  else
    (some (r.log.length + 1),
      { r with log := r.log ++ [⟨r.log.length + 1, r.currentTerm, cmd⟩] })

/-- What a request of a later term does to whoever handles it. -/
def observeTerm (term : ℕ) (r : RaftNode) : RaftNode :=
  if r.currentTerm < term then { r with currentTerm := term, state := .follower, votedFor := [] }
  else r

def prevMatches (prevLogIndex prevLogTerm : ℕ) (r : RaftNode) : Bool :=
  if 0 < prevLogIndex then
    match entryAt r.log prevLogIndex with
    | none => false
    | some e => e.term = prevLogTerm
  else true

/-- The reply, `none` after a panic, and the node. -/
def appendEntries (req : AppendEntriesRequest) (r : RaftNode) : Option Bool × RaftNode :=
  if req.term < r.currentTerm then (some false, r)
  else
    let r := r.observeTerm req.term
    if ¬ r.prevMatches req.prevLogIndex req.prevLogTerm then (some false, r)
    else
      match mergeEntries r.log req.entries with
      | none => (none, r)
      | some log =>
        (some true,
          { r with
            log := log
            commitIndex :=
              if r.commitIndex < req.leaderCommit then min req.leaderCommit log.length
              else r.commitIndex })

def lastLogTerm (r : RaftNode) : ℕ := lastTerm LogEntry.term r.log

def requestVote (req : RequestVoteRequest) (r : RaftNode) : Bool × RaftNode :=
  if req.term < r.currentTerm then (false, r)
  else
    let r := r.observeTerm req.term
    if r.votedFor ≠ [] ∧ r.votedFor ≠ req.candidateID then (false, r)
    else if req.lastLogTerm < r.lastLogTerm then (false, r)
    else if req.lastLogTerm = r.lastLogTerm ∧ req.lastLogIndex < r.log.length then (false, r)
    else (true, { r with votedFor := req.candidateID })

def becomeCandidate (r : RaftNode) : RaftNode :=
  { r with
    currentTerm := (r.currentTerm + 1) % termLimit
    state := .candidate
    votedFor := r.nodeID }

def becomeLeader (r : RaftNode) : RaftNode := { r with state := .leader }

def setCommitIndex (idx : ℕ) (r : RaftNode) : RaftNode :=
  if r.commitIndex < idx then { r with commitIndex := idx } else r

/-- The request that `startElection` reads off the node. -/
def voteRequest (r : RaftNode) : RequestVoteRequest where
  term := r.currentTerm
  candidateID := r.nodeID
  lastLogIndex := r.log.length
  lastLogTerm := r.lastLogTerm

/-- The request of `sendHeartbeats`. -/
def heartbeat (r : RaftNode) : AppendEntriesRequest where
  term := r.currentTerm
  leaderID := r.nodeID
  prevLogIndex := 0
  prevLogTerm := 0
  entries := []
  leaderCommit := r.commitIndex

/-- The request of `ReplicateAll`: the last entry only, after the one before it. -/
def replicate (r : RaftNode) : Option AppendEntriesRequest :=
  if r.state ≠ .leader then none
  else
    match r.log.getLast? with
    | none => none
    | some last =>
      some
        { term := r.currentTerm
          leaderID := r.nodeID
          prevLogIndex := r.log.length - 1
          prevLogTerm := lastTerm LogEntry.term r.log.dropLast
          entries := [last]
          leaderCommit := r.commitIndex }

/-! ## What the operations leave alone -/

section Observe

variable (term : ℕ) (r : RaftNode)

@[simp] theorem observeTerm_nodeID : (r.observeTerm term).nodeID = r.nodeID := by
  unfold observeTerm; split <;> rfl

@[simp] theorem observeTerm_peers : (r.observeTerm term).peers = r.peers := by
  unfold observeTerm; split <;> rfl

@[simp] theorem observeTerm_log : (r.observeTerm term).log = r.log := by
  unfold observeTerm; split <;> rfl

@[simp] theorem observeTerm_commitIndex : (r.observeTerm term).commitIndex = r.commitIndex := by
  unfold observeTerm; split <;> rfl

@[simp] theorem observeTerm_lastLogTerm : (r.observeTerm term).lastLogTerm = r.lastLogTerm := by
  unfold lastLogTerm; rw [observeTerm_log]

theorem observeTerm_currentTerm (h : ¬ term < r.currentTerm) :
    (r.observeTerm term).currentTerm = term := by
  unfold observeTerm
  split
  · rfl
  · omega

end Observe

/-- A request from outside raises the term, which takes state and vote with it, or leaves both alone
except for a vote that was not cast yet. -/
structure Driven (r r' : RaftNode) : Prop where
  nodeID : r'.nodeID = r.nodeID
  peers : r'.peers = r.peers
  term : (r.currentTerm < r'.currentTerm ∧ r'.state = .follower) ∨
    (r'.currentTerm = r.currentTerm ∧ r'.state = r.state ∧
      (r'.votedFor = r.votedFor ∨ r.votedFor = []))

theorem Driven.le {r r' : RaftNode} (h : r.Driven r') : r.currentTerm ≤ r'.currentTerm := by
  rcases h.term with h | h
  · exact h.1.le
  · exact h.1.ge

def NoVote (r r' : RaftNode) : Prop :=
  r'.votedFor = [] ∨ r'.currentTerm = r.currentTerm ∧ r'.votedFor = r.votedFor

theorem driven_refl (r : RaftNode) : r.Driven r := ⟨rfl, rfl, Or.inr ⟨rfl, rfl, Or.inl rfl⟩⟩

theorem driven_observeTerm (term : ℕ) (r : RaftNode) : r.Driven (r.observeTerm term) := by
  refine ⟨by simp, by simp, ?_⟩
  unfold observeTerm
  split
  · exact Or.inl ⟨by assumption, rfl⟩
  · exact Or.inr ⟨rfl, rfl, Or.inl rfl⟩

theorem noVote_refl (r : RaftNode) : r.NoVote r := Or.inr ⟨rfl, rfl⟩

theorem noVote_becomeLeader (r : RaftNode) : r.NoVote r.becomeLeader := Or.inr ⟨rfl, rfl⟩

theorem noVote_observeTerm (term : ℕ) (r : RaftNode) : r.NoVote (r.observeTerm term) := by
  unfold observeTerm
  split
  · exact Or.inl rfl
  · exact Or.inr ⟨rfl, rfl⟩

/-! ## Votes -/

structure Grants (req : RequestVoteRequest) (r : RaftNode) : Prop where
  term : r.currentTerm ≤ req.term
  unvoted : (r.observeTerm req.term).votedFor = [] ∨
    (r.observeTerm req.term).votedFor = req.candidateID
  lastTerm_le : r.lastLogTerm ≤ req.lastLogTerm
  length_le : req.lastLogTerm = r.lastLogTerm → r.log.length ≤ req.lastLogIndex

theorem requestVote_cases (req : RequestVoteRequest) (r : RaftNode) :
    (r.Grants req ∧
        r.requestVote req = (true, { r.observeTerm req.term with votedFor := req.candidateID })) ∨
      r.requestVote req = (false, r.observeTerm req.term) ∨ r.requestVote req = (false, r) := by
  unfold requestVote
  dsimp only
  by_cases hold : req.term < r.currentTerm
  · rw [if_pos hold]
    exact Or.inr (Or.inr rfl)
  rw [if_neg hold, observeTerm_lastLogTerm, observeTerm_log]
  by_cases hvote : (r.observeTerm req.term).votedFor ≠ [] ∧
      (r.observeTerm req.term).votedFor ≠ req.candidateID
  · rw [if_pos hvote]
    exact Or.inr (Or.inl rfl)
  rw [if_neg hvote]
  by_cases hterm : req.lastLogTerm < r.lastLogTerm
  · rw [if_pos hterm]
    exact Or.inr (Or.inl rfl)
  rw [if_neg hterm]
  by_cases hlen : req.lastLogTerm = r.lastLogTerm ∧ req.lastLogIndex < r.log.length
  · rw [if_pos hlen]
    exact Or.inr (Or.inl rfl)
  rw [if_neg hlen]
  refine Or.inl ⟨⟨Nat.le_of_not_lt hold, ?_, Nat.le_of_not_lt hterm, ?_⟩, rfl⟩
  · by_contra hne
    exact hvote (not_or.mp hne)
  · intro heq
    exact Nat.le_of_not_lt fun hlt => hlen ⟨heq, hlt⟩

theorem driven_requestVote (req : RequestVoteRequest) (r : RaftNode) :
    r.Driven (r.requestVote req).2 := by
  have hobs := driven_observeTerm req.term r
  rcases requestVote_cases req r with ⟨hg, h⟩ | h | h
  · rw [h]
    refine ⟨hobs.nodeID, hobs.peers, ?_⟩
    rcases hobs.term with hup | ⟨hterm, hstate, hvote⟩
    · exact Or.inl hup
    · refine Or.inr ⟨hterm, hstate, ?_⟩
      rcases hvote with hsame | hempty
      · rcases hg.unvoted with hun | hun
        · exact Or.inr (hsame.symm.trans hun)
        · exact Or.inl (hun.symm.trans hsame)
      · exact Or.inr hempty
  · rw [h]
    exact hobs
  · rw [h]
    exact driven_refl r

@[simp] theorem requestVote_log (req : RequestVoteRequest) (r : RaftNode) :
    (r.requestVote req).2.log = r.log := by
  rcases requestVote_cases req r with ⟨-, h⟩ | h | h <;> simp [h]

@[simp] theorem requestVote_commitIndex (req : RequestVoteRequest) (r : RaftNode) :
    (r.requestVote req).2.commitIndex = r.commitIndex := by
  rcases requestVote_cases req r with ⟨-, h⟩ | h | h <;> simp [h]

/-! ## Entries -/

theorem appendEntries_cases (req : AppendEntriesRequest) (r : RaftNode) :
    (∃ log, r.currentTerm ≤ req.term ∧
        r.prevMatches req.prevLogIndex req.prevLogTerm = true ∧
        mergeEntries r.log req.entries = some log ∧
        r.appendEntries req =
          (some true,
            { r.observeTerm req.term with
              log := log
              commitIndex :=
                if r.commitIndex < req.leaderCommit then min req.leaderCommit log.length
                else r.commitIndex })) ∨
      (∃ ok, r.appendEntries req = (ok, r.observeTerm req.term)) ∨
      r.appendEntries req = (some false, r) := by
  unfold appendEntries
  dsimp only
  by_cases hold : req.term < r.currentTerm
  · rw [if_pos hold]
    exact Or.inr (Or.inr rfl)
  rw [if_neg hold]
  have hprev : (r.observeTerm req.term).prevMatches req.prevLogIndex req.prevLogTerm =
      r.prevMatches req.prevLogIndex req.prevLogTerm := by
    unfold prevMatches
    rw [observeTerm_log]
  rw [hprev, observeTerm_log, observeTerm_commitIndex]
  by_cases hp : r.prevMatches req.prevLogIndex req.prevLogTerm = true
  · rw [if_neg (not_not.mpr hp)]
    cases hm : mergeEntries r.log req.entries with
    | none => exact Or.inr (Or.inl ⟨none, rfl⟩)
    | some log => exact Or.inl ⟨log, Nat.le_of_not_lt hold, hp, rfl, rfl⟩
  · rw [if_pos hp]
    exact Or.inr (Or.inl ⟨some false, rfl⟩)

theorem driven_appendEntries (req : AppendEntriesRequest) (r : RaftNode) :
    r.Driven (r.appendEntries req).2 := by
  have hobs := driven_observeTerm req.term r
  rcases appendEntries_cases req r with ⟨log, -, -, -, h⟩ | ⟨ok, h⟩ | h
  · rw [h]
    exact ⟨hobs.nodeID, hobs.peers, hobs.term⟩
  · rw [h]
    exact hobs
  · rw [h]
    exact driven_refl r

theorem noVote_appendEntries (req : AppendEntriesRequest) (r : RaftNode) :
    r.NoVote (r.appendEntries req).2 := by
  have hobs := noVote_observeTerm req.term r
  rcases appendEntries_cases req r with ⟨log, -, -, -, h⟩ | ⟨ok, h⟩ | h
  · rw [h]
    exact hobs
  · rw [h]
    exact hobs
  · rw [h]
    exact noVote_refl r

theorem propose_cases (cmd : Bytes) (r : RaftNode) :
    (r.state = .leader ∧ (r.propose cmd).2 =
        { r with log := r.log ++ [⟨r.log.length + 1, r.currentTerm, cmd⟩] }) ∨
      (r.propose cmd).2 = r := by
  unfold propose
  by_cases h : r.state = .leader
  · rw [if_neg (not_not.mpr h)]
    exact Or.inl ⟨h, rfl⟩
  · rw [if_pos h]
    exact Or.inr rfl

theorem driven_propose (cmd : Bytes) (r : RaftNode) : r.Driven (r.propose cmd).2 := by
  rcases propose_cases cmd r with ⟨-, h⟩ | h <;> rw [h]
  · exact ⟨rfl, rfl, Or.inr ⟨rfl, rfl, Or.inl rfl⟩⟩
  · exact driven_refl r

@[simp] theorem setCommitIndex_log (idx : ℕ) (r : RaftNode) :
    (r.setCommitIndex idx).log = r.log := by
  unfold setCommitIndex
  split <;> rfl

theorem noVote_propose (cmd : Bytes) (r : RaftNode) : r.NoVote (r.propose cmd).2 := by
  rcases propose_cases cmd r with ⟨-, h⟩ | h <;> rw [h]
  · exact Or.inr ⟨rfl, rfl⟩
  · exact noVote_refl r

theorem noVote_setCommitIndex (idx : ℕ) (r : RaftNode) : r.NoVote (r.setCommitIndex idx) := by
  unfold setCommitIndex
  split
  · exact Or.inr ⟨rfl, rfl⟩
  · exact noVote_refl r

theorem driven_setCommitIndex (idx : ℕ) (r : RaftNode) : r.Driven (r.setCommitIndex idx) := by
  unfold setCommitIndex
  split
  · exact ⟨rfl, rfl, Or.inr ⟨rfl, rfl, Or.inl rfl⟩⟩
  · exact driven_refl r

end RaftNode

end Gomq.Raft
