import Gomq.Lib.GoMap
import Gomq.Lib.Run
import Gomq.Raft.Node

/-!
# Quorum queues

A quorum queue copies the committed commands of a Raft node. `Publish` proposes a command, puts a
channel under the index it got, and waits. `OnCommit` copies what is committed and signals the
channel under the one index it is called with. The mutex is free between these steps, so a `Publish`
is cut into the parts between which other calls can run: propose, register, and then receive, or
time out and forget.
-/

namespace Gomq.Raft.RaftNode

/-- `Committed()`: `r.log[:r.commitIndex]` may reach into the spare capacity behind the log; beyond
that it panics, which is `none`. -/
def committed (spare : List LogEntry) (r : RaftNode) : Option (List LogEntry) :=
  if r.commitIndex = 0 then some []
  else if r.commitIndex ≤ (r.log ++ spare).length then some ((r.log ++ spare).take r.commitIndex)
  else none

theorem committed_of_le {r : RaftNode} (h : r.commitIndex ≤ r.log.length) (spare : List LogEntry) :
    r.committed spare = some (r.log.take r.commitIndex) := by
  unfold committed
  by_cases h0 : r.commitIndex = 0
  · rw [if_pos h0, h0, List.take_zero]
  · have hle : r.commitIndex ≤ (r.log ++ spare).length := by
      rw [List.length_append]; omega
    rw [if_neg h0, if_pos hle, List.take_append_of_le_length h]

end Gomq.Raft.RaftNode

namespace Gomq.Quorum

open Raft List

/-! ## The queue -/

/-- A channel is known by the number of the `Publish` call that made it. -/
structure QuorumQueue where
  raft : RaftNode
  messages : List Bytes
  pending : GoMap ℕ ℕ

def newQuorumQueue (raft : RaftNode) : QuorumQueue := ⟨raft, [], ∅⟩

def catchUp (committed : List LogEntry) (messages : List Bytes) : List Bytes :=
  if h : messages.length < committed.length then
    catchUp committed (messages ++ [(committed.get ⟨messages.length, h⟩).command])
  else messages
termination_by committed.length - messages.length
decreasing_by
  rw [length_append, length_singleton]
  omega

theorem catchUp_eq (committed : List LogEntry) (messages : List Bytes) :
    catchUp committed messages =
      messages ++ (committed.drop messages.length).map LogEntry.command := by
  fun_induction catchUp committed messages with
  | case1 messages h ih =>
    rw [ih, append_assoc, length_append, length_singleton,
      drop_eq_getElem_cons h]
    rfl
  | case2 messages h => rw [drop_of_length_le (Nat.le_of_not_lt h), map_nil,
      append_nil]

namespace QuorumQueue

/-- `OnCommit`: the channel that got a signal, and the queue; `none` after a panic. -/
def onCommit (spare : List LogEntry) (idx : ℕ) (q : QuorumQueue) :
    Option (Option ℕ × QuorumQueue) :=
  match q.raft.committed spare with
  | none => none
  | some committed =>
    let q := { q with messages := catchUp committed q.messages }
    match q.pending.get idx with
    | none => some (none, q)
    | some ch => some (some ch, { q with pending := q.pending.del idx })

def consume (count : ℕ) (q : QuorumQueue) : List Bytes :=
  q.messages.take (if q.messages.length < count then q.messages.length else count)

def acks (offset : ℕ) (q : QuorumQueue) : ℕ :=
  if q.messages.length < offset then q.messages.length else offset

def ack (offset : ℕ) (q : QuorumQueue) : QuorumQueue :=
  { q with messages := q.messages.drop (q.acks offset) }

end QuorumQueue

/-! ## Publishers -/

/-- Where a `Publish` call is. -/
inductive Publisher where
  | idle
  /-- `Propose` returned `idx`, nothing is registered yet. -/
  | proposed (msg : Bytes) (idx : ℕ)
  /-- In the `select`, with a signal in its channel or not. -/
  | waiting (msg : Bytes) (idx : ℕ) (signalled : Bool)
  /-- The timer fired, the channel is not deleted yet. -/
  | expired (msg : Bytes) (idx : ℕ)
  | returned (ok : Bool)
  deriving DecidableEq, Repr

def Publisher.signal : Publisher → Publisher
  | .waiting msg idx _ => .waiting msg idx true
  | p => p

/-! ## Runs -/

/-- The calls on the Raft node that do not come from the queue. -/
inductive NodeCall where
  | propose (cmd : Bytes)
  | appendEntries (req : AppendEntriesRequest)
  | requestVote (req : RequestVoteRequest)
  | becomeCandidate
  | becomeLeader
  | setCommitIndex (idx : ℕ)

def NodeCall.on (r : RaftNode) : NodeCall → RaftNode
  | propose cmd => (r.propose cmd).2
  | appendEntries req => (r.appendEntries req).2
  | requestVote req => (r.requestVote req).2
  | becomeCandidate => r.becomeCandidate
  | becomeLeader => r.becomeLeader
  | setCommitIndex idx => r.setCommitIndex idx

/-- A step of a `Publish` call, numbered `p`, or another call. -/
inductive Action where
  | propose (p : ℕ) (msg : Bytes)
  | register (p : ℕ)
  | receive (p : ℕ)
  | timeout (p : ℕ)
  | forget (p : ℕ)
  | onCommit (spare : List LogEntry) (idx : ℕ)
  | consume (count : ℕ)
  | ack (offset : ℕ)
  | node (call : NodeCall)

/-- The queue with its publishers. The last three fields are history, which no function reads: how
many messages were acknowledged, whether `OnCommit` has run for the present commit index, and the
largest index for which it has run with the entry there committed. -/
structure System where
  queue : QuorumQueue
  publishers : ℕ → Publisher
  acked : ℕ
  told : Bool
  notified : ℕ

def start (r : RaftNode) : System := ⟨newQuorumQueue r, fun _ => .idle, 0, false, 0⟩

namespace System

def HasCommitted (s : System) (idx : ℕ) : Prop :=
  (entryAt s.queue.raft.log idx).isSome ∧ idx ≤ s.queue.raft.commitIndex

instance (s : System) (idx : ℕ) : Decidable (s.HasCommitted idx) :=
  inferInstanceAs (Decidable (_ ∧ _))

def setPublisher (s : System) (p : ℕ) (state : Publisher) : System :=
  { s with publishers := Function.update s.publishers p state }

def signal (s : System) : Option ℕ → System
  | none => s
  | some p => s.setPublisher p (s.publishers p).signal

/-- The log has a message of the present term at its end. -/
def appended (s : System) (msg : Bytes) : System :=
  let ent : LogEntry := ⟨s.queue.raft.log.length + 1, s.queue.raft.currentTerm, msg⟩
  { s with
    queue := { s.queue with raft := { s.queue.raft with log := s.queue.raft.log ++ [ent] } } }

def propose (s : System) (p : ℕ) (msg : Bytes) : System :=
  match s.publishers p, s.queue.raft.propose msg with
  | .idle, (some idx, r) =>
    { s with queue := { s.queue with raft := r } }.setPublisher p (.proposed msg idx)
  | .idle, (none, _) => s.setPublisher p (.returned false)
  | _, _ => s

def register (s : System) (p : ℕ) : System :=
  match s.publishers p with
  | .proposed msg idx =>
    { s with queue := { s.queue with pending := s.queue.pending.set idx p } }.setPublisher p
      (.waiting msg idx false)
  | _ => s

def receive (s : System) (p : ℕ) : System :=
  match s.publishers p with
  | .waiting _ _ true => s.setPublisher p (.returned true)
  | _ => s

def timeout (s : System) (p : ℕ) : System :=
  match s.publishers p with
  | .waiting msg idx _ => s.setPublisher p (.expired msg idx)
  | _ => s

def forget (s : System) (p : ℕ) : System :=
  match s.publishers p with
  | .expired _ idx =>
    { s with queue := { s.queue with pending := s.queue.pending.del idx } }.setPublisher p
      (.returned false)
  | _ => s

/-- A panic leaves everything as it was. -/
def onCommit (s : System) (spare : List LogEntry) (idx : ℕ) : System :=
  match s.queue.onCommit spare idx with
  | none => s
  | some (ch, q) =>
    { s with
      queue := q
      told := s.told || idx == s.queue.raft.commitIndex
      notified := if s.HasCommitted idx then max s.notified idx else s.notified }.signal ch

def ack (s : System) (offset : ℕ) : System :=
  { s with queue := s.queue.ack offset, acked := s.acked + s.queue.acks offset }

def node (s : System) (call : NodeCall) : System :=
  { s with
    queue := { s.queue with raft := call.on s.queue.raft }
    told := s.told && (call.on s.queue.raft).commitIndex == s.queue.raft.commitIndex }

def step (s : System) : Action → System
  | .propose p msg => s.propose p msg
  | .register p => s.register p
  | .receive p => s.receive p
  | .timeout p => s.timeout p
  | .forget p => s.forget p
  | .onCommit spare idx => s.onCommit spare idx
  | .consume _ => s
  | .ack offset => s.ack offset
  | .node call => s.node call

/-! ## The steps of a publisher -/

section Cases

variable (s : System) (p : ℕ)

theorem propose_cases (msg : Bytes) :
    (s.publishers p = .idle ∧ s.propose p msg =
        (s.appended msg).setPublisher p (.proposed msg (s.queue.raft.log.length + 1))) ∨
      (s.publishers p = .idle ∧ s.propose p msg = s.setPublisher p (.returned false)) ∨
      s.propose p msg = s := by
  unfold propose RaftNode.propose
  cases hp : s.publishers p with
  | idle =>
    by_cases hl : s.queue.raft.state = .leader
    · rw [if_neg (not_not.mpr hl)]
      exact Or.inl ⟨rfl, rfl⟩
    · rw [if_pos hl]
      exact Or.inr (Or.inl ⟨rfl, rfl⟩)
  | _ => exact Or.inr (Or.inr rfl)

theorem register_cases :
    (∃ msg idx, s.publishers p = .proposed msg idx ∧ s.register p =
        { s with queue := { s.queue with pending := s.queue.pending.set idx p } }.setPublisher p
          (.waiting msg idx false)) ∨
      (∀ msg idx, s.publishers p ≠ .proposed msg idx) ∧ s.register p = s := by
  unfold register
  cases hp : s.publishers p with
  | proposed msg idx => exact Or.inl ⟨msg, idx, rfl, rfl⟩
  | _ => exact Or.inr ⟨nofun, rfl⟩

theorem receive_cases :
    (∃ msg idx, s.publishers p = .waiting msg idx true ∧
        s.receive p = s.setPublisher p (.returned true)) ∨ s.receive p = s := by
  unfold receive
  cases hp : s.publishers p with
  | waiting msg idx signalled =>
    cases signalled with
    | true => exact Or.inl ⟨msg, idx, rfl, rfl⟩
    | false => exact Or.inr rfl
  | _ => exact Or.inr rfl

theorem timeout_cases :
    (∃ msg idx signalled, s.publishers p = .waiting msg idx signalled ∧
        s.timeout p = s.setPublisher p (.expired msg idx)) ∨ s.timeout p = s := by
  unfold timeout
  cases hp : s.publishers p with
  | waiting msg idx signalled => exact Or.inl ⟨msg, idx, signalled, rfl, rfl⟩
  | _ => exact Or.inr rfl

theorem forget_cases :
    (∃ msg idx, s.publishers p = .expired msg idx ∧ s.forget p =
        { s with queue := { s.queue with pending := s.queue.pending.del idx } }.setPublisher p
          (.returned false)) ∨ s.forget p = s := by
  unfold forget
  cases hp : s.publishers p with
  | expired msg idx => exact Or.inl ⟨msg, idx, rfl, rfl⟩
  | _ => exact Or.inr rfl

end Cases

@[simp] theorem publishers_setPublisher (s : System) (p q : ℕ) (state : Publisher) :
    (s.setPublisher p state).publishers q = if q = p then state else s.publishers q := by
  unfold setPublisher
  by_cases h : q = p
  · subst h; simp
  · simp [h]

end System

end Gomq.Quorum
