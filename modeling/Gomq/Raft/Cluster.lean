import Gomq.Lib.Quorum
import Gomq.Lib.Run
import Gomq.Raft.Node

/-!
# A cluster of Raft nodes

Every node has its handlers, the goroutine of `Run` and the timer of `NewRaftNode`, which fires
`BecomeCandidate` once. A phase is where the goroutine of `Run` stands between two of its lock
sections. The network keeps every packet ever sent and an event may deliver any of them at any
time, so packets can be late, out of order, lost or handled twice. An event that is not possible in
a state leaves the state as it is.
-/

namespace Gomq.Raft

/-- Nodes with distinct, non-empty ids; the peers of each are exactly the others. -/
structure Config where
  ids : List GoString
  nodup : ids.Nodup
  ne_nil : ∀ n ∈ ids, n ≠ []
  peers : GoString → List GoString
  peers_perm : ∀ n ∈ ids, (peers n).Perm (ids.erase n)

/-- Where the goroutine of `Run` stands. -/
inductive Phase where
  /-- in its `select` -/
  | idle
  /-- before `BecomeCandidate`, after it saw that the node is not the leader -/
  | starting
  /-- in `startElection`, after `BecomeCandidate` -/
  | candidate
  /-- in `startElection`, waiting for the calls of `pending` to return -/
  | polling (req : RequestVoteRequest) (votes : ℕ) (pending : List GoString)
  /-- in `startElection`, after the final check, before `BecomeLeader` -/
  | won (req : RequestVoteRequest)
  /-- before the lock section of `sendHeartbeats` -/
  | beating
  deriving DecidableEq, Repr

structure Member where
  node : RaftNode
  phase : Phase
  /-- The timer of `NewRaftNode` has not fired yet. -/
  timer : Bool
  deriving DecidableEq, Repr

inductive Packet where
  | requestVote (dest : GoString) (req : RequestVoteRequest)
  | vote (voter : GoString) (req : RequestVoteRequest) (granted : Bool)
  | appendEntries (dest : GoString) (req : AppendEntriesRequest)
  deriving DecidableEq, Repr

structure Cluster where
  members : GoString → Member
  net : List Packet

inductive Event where
  /-- The timer of `NewRaftNode`. -/
  | timer (n : GoString)
  /-- The election timeout of `Run` and its look at the state. -/
  | timeout (n : GoString)
  | becomeCandidate (n : GoString)
  /-- `startElection` reads the node and sends its requests. -/
  | requestVotes (n : GoString)
  /-- A call of `startElection` returns an error. -/
  | callFails (n peer : GoString)
  | finalCheck (n : GoString)
  | becomeLeader (n : GoString)
  /-- The heartbeat tick of `Run` and its look at the state. -/
  | tick (n : GoString)
  | sendHeartbeats (n : GoString)
  | propose (n : GoString) (cmd : Bytes)
  | replicateAll (n : GoString)
  | setCommitIndex (n : GoString) (idx : ℕ)
  | deliver (p : Packet)
  deriving DecidableEq, Repr

namespace Cluster

def node (c : Cluster) (n : GoString) : RaftNode := (c.members n).node

def phase (c : Cluster) (n : GoString) : Phase := (c.members n).phase

def initial (cfg : Config) : Cluster where
  members n := ⟨newRaftNode n (cfg.peers n), .idle, true⟩
  net := []

/-- A node goes on as `m` and sends `ps`. -/
def put (c : Cluster) (n : GoString) (m : Member) (ps : List Packet) : Cluster where
  members := Function.update c.members n m
  net := c.net ++ ps

def deliver (c : Cluster) : Packet → Option (GoString × Member × List Packet)
  | .requestVote dest req =>
    let m := c.members dest
    let (granted, node) := m.node.requestVote req
    some (dest, { m with node := node }, [.vote dest req granted])
  | .vote voter req granted =>
    let m := c.members req.candidateID
    match m.phase with
    | .polling req' votes pending =>
      if req' = req ∧ voter ∈ pending then
        some (req.candidateID,
          { m with
            phase := .polling req (if granted then votes + 1 else votes) (pending.erase voter) },
          [])
      else none
    | _ => none
  | .appendEntries dest req =>
    let m := c.members dest
    some (dest, { m with node := (m.node.appendEntries req).2 }, [])

/-- What an event does: to which node, and what that node sends; `none` when it is not possible. -/
def act (c : Cluster) : Event → Option (GoString × Member × List Packet)
  | .timer n =>
    let m := c.members n
    if m.timer then some (n, { m with node := m.node.becomeCandidate, timer := false }, [])
    else none
  | .timeout n =>
    let m := c.members n
    if m.phase = .idle ∧ m.node.state ≠ .leader then some (n, { m with phase := .starting }, [])
    else none
  | .becomeCandidate n =>
    let m := c.members n
    if m.phase = .starting then
      some (n, { m with node := m.node.becomeCandidate, phase := .candidate }, [])
    else none
  | .requestVotes n =>
    let m := c.members n
    if m.phase = .candidate then
      some (n, { m with phase := .polling m.node.voteRequest 1 m.node.peers },
        m.node.peers.map (.requestVote · m.node.voteRequest))
    else none
  | .callFails n peer =>
    let m := c.members n
    match m.phase with
    | .polling req votes pending =>
      some (n, { m with phase := .polling req votes (pending.erase peer) }, [])
    | _ => none
  | .finalCheck n =>
    let m := c.members n
    match m.phase with
    | .polling req votes [] =>
      if m.node.state = .candidate ∧ m.node.currentTerm = req.term ∧
          (m.node.peers.length + 1) / 2 < votes then
        some (n, { m with phase := .won req }, [])
      else some (n, { m with phase := .idle }, [])
    | _ => none
  | .becomeLeader n =>
    let m := c.members n
    match m.phase with
    | .won _ => some (n, { m with node := m.node.becomeLeader, phase := .beating }, [])
    | _ => none
  | .tick n =>
    let m := c.members n
    if m.phase = .idle ∧ m.node.state = .leader then some (n, { m with phase := .beating }, [])
    else none
  | .sendHeartbeats n =>
    let m := c.members n
    if m.phase = .beating then
      some (n, { m with phase := .idle },
        m.node.peers.map (.appendEntries · m.node.heartbeat))
    else none
  | .propose n cmd =>
    let m := c.members n
    some (n, { m with node := (m.node.propose cmd).2 }, [])
  | .replicateAll n =>
    let m := c.members n
    match m.node.replicate with
    | some req => some (n, m, m.node.peers.map (.appendEntries · req))
    | none => none
  | .setCommitIndex n idx =>
    let m := c.members n
    some (n, { m with node := m.node.setCommitIndex idx }, [])
  | .deliver p => if p ∈ c.net then c.deliver p else none

def step (cfg : Config) (c : Cluster) (e : Event) : Cluster :=
  match c.act e with
  | some (n, m, ps) => if n ∈ cfg.ids then c.put n m ps else c
  | none => c

/-! ## What an event can do -/

/-- The moves of a node: the event, how the node goes on and what it sends. -/
inductive Moves (c : Cluster) (n : GoString) : Event → Member → List Packet → Prop where
  | timer : Moves c n (.timer n)
      { c.members n with node := (c.node n).becomeCandidate, timer := false } []
  | timeout : Moves c n (.timeout n) { c.members n with phase := .starting } []
  | becomeCandidate (hphase : c.phase n = .starting) : Moves c n (.becomeCandidate n)
      { c.members n with node := (c.node n).becomeCandidate, phase := .candidate } []
  | requestVotes (hphase : c.phase n = .candidate) : Moves c n (.requestVotes n)
      { c.members n with phase := .polling (c.node n).voteRequest 1 (c.node n).peers }
      ((c.node n).peers.map (.requestVote · (c.node n).voteRequest))
  | callFails (req : RequestVoteRequest) (votes : ℕ) (pending : List GoString) (peer : GoString)
      (hphase : c.phase n = .polling req votes pending) : Moves c n (.callFails n peer)
      { c.members n with phase := .polling req votes (pending.erase peer) } []
  | wins (req : RequestVoteRequest) (votes : ℕ) (hphase : c.phase n = .polling req votes [])
      (hstate : (c.node n).state = .candidate) (hterm : (c.node n).currentTerm = req.term)
      (hvotes : ((c.node n).peers.length + 1) / 2 < votes) : Moves c n (.finalCheck n)
      { c.members n with phase := .won req } []
  | givesUp : Moves c n (.finalCheck n) { c.members n with phase := .idle } []
  | becomeLeader (req : RequestVoteRequest) (hphase : c.phase n = .won req) :
      Moves c n (.becomeLeader n)
        { c.members n with node := (c.node n).becomeLeader, phase := .beating } []
  | tick : Moves c n (.tick n) { c.members n with phase := .beating } []
  | sendHeartbeats : Moves c n (.sendHeartbeats n) { c.members n with phase := .idle }
      ((c.node n).peers.map (.appendEntries · (c.node n).heartbeat))
  | propose (cmd : Bytes) : Moves c n (.propose n cmd)
      { c.members n with node := ((c.node n).propose cmd).2 } []
  | replicateAll (req : AppendEntriesRequest) (hreq : (c.node n).replicate = some req) :
      Moves c n (.replicateAll n) (c.members n) ((c.node n).peers.map (.appendEntries · req))
  | setCommitIndex (idx : ℕ) : Moves c n (.setCommitIndex n idx)
      { c.members n with node := (c.node n).setCommitIndex idx } []
  | requestVote (req : RequestVoteRequest) (hnet : .requestVote n req ∈ c.net) :
      Moves c n (.deliver (.requestVote n req))
        { c.members n with node := ((c.node n).requestVote req).2 }
        [.vote n req ((c.node n).requestVote req).1]
  | vote (voter : GoString) (req : RequestVoteRequest) (granted : Bool) (votes : ℕ)
      (pending : List GoString) (hnet : .vote voter req granted ∈ c.net)
      (hcand : req.candidateID = n) (hphase : c.phase n = .polling req votes pending)
      (hvoter : voter ∈ pending) : Moves c n (.deliver (.vote voter req granted))
      { c.members n with
        phase := .polling req (if granted then votes + 1 else votes) (pending.erase voter) } []
  | appendEntries (req : AppendEntriesRequest) (hnet : .appendEntries n req ∈ c.net) :
      Moves c n (.deliver (.appendEntries n req))
        { c.members n with node := ((c.node n).appendEntries req).2 } []

variable {cfg : Config} {c : Cluster} {e : Event} {n : GoString} {m : Member} {ps : List Packet}

theorem moves_of_deliver {p : Packet} (hp : p ∈ c.net) (h : c.deliver p = some (n, m, ps)) :
    c.Moves n (.deliver p) m ps := by
  cases p with
  | requestVote dest req =>
    cases h
    exact .requestVote req hp
  | vote voter req granted =>
    dsimp only [deliver] at h
    split at h
    · next req' votes pending hphase =>
      split at h
      · next hcond =>
        cases h
        obtain ⟨rfl, hvoter⟩ := hcond
        exact .vote voter req' granted votes pending hp rfl hphase hvoter
      · cases h
    · cases h
  | appendEntries dest req =>
    cases h
    exact .appendEntries req hp

theorem moves_of_act (h : c.act e = some (n, m, ps)) : c.Moves n e m ps := by
  cases e with
  | timer k =>
    dsimp only [act] at h
    split at h <;> cases h
    exact .timer
  | timeout k =>
    dsimp only [act] at h
    split at h <;> cases h
    exact .timeout
  | becomeCandidate k =>
    dsimp only [act] at h
    split at h <;> cases h
    exact .becomeCandidate (by assumption)
  | requestVotes k =>
    dsimp only [act] at h
    split at h <;> cases h
    exact .requestVotes (by assumption)
  | callFails k peer =>
    dsimp only [act] at h
    split at h <;> cases h
    exact .callFails _ _ _ peer (by assumption)
  | finalCheck k =>
    dsimp only [act] at h
    split at h
    · next req votes hphase =>
      split at h <;> cases h
      · next hcond => exact .wins req votes hphase hcond.1 hcond.2.1 hcond.2.2
      · exact .givesUp
    · cases h
  | becomeLeader k =>
    dsimp only [act] at h
    split at h <;> cases h
    exact .becomeLeader _ (by assumption)
  | tick k =>
    dsimp only [act] at h
    split at h <;> cases h
    exact .tick
  | sendHeartbeats k =>
    dsimp only [act] at h
    split at h <;> cases h
    exact .sendHeartbeats
  | propose k cmd =>
    cases h
    exact .propose cmd
  | replicateAll k =>
    dsimp only [act] at h
    split at h <;> cases h
    exact .replicateAll _ (by assumption)
  | setCommitIndex k idx =>
    cases h
    exact .setCommitIndex idx
  | deliver p =>
    dsimp only [act] at h
    split at h
    · exact moves_of_deliver (by assumption) h
    · cases h

theorem step_cases (cfg : Config) (c : Cluster) (e : Event) :
    c.step cfg e = c ∨
      ∃ n ∈ cfg.ids, ∃ m ps, c.Moves n e m ps ∧ c.step cfg e = c.put n m ps := by
  unfold step
  cases h : c.act e with
  | none => exact Or.inl rfl
  | some a =>
    obtain ⟨n, m, ps⟩ := a
    dsimp only
    by_cases hn : n ∈ cfg.ids
    · rw [if_pos hn]
      exact Or.inr ⟨n, hn, m, ps, moves_of_act h, rfl⟩
    · rw [if_neg hn]
      exact Or.inl rfl

theorem members_put {P : Member → Prop} {k : GoString} (hself : k = n → P m)
    (hother : k ≠ n → P (c.members k)) : P ((c.put n m ps).members k) := by
  show P (Function.update c.members n m k)
  by_cases h : k = n
  · rw [h, Function.update_self]
    exact hself h
  · rw [Function.update_of_ne h]
    exact hother h

@[simp] theorem mem_put_net {p : Packet} : p ∈ (c.put n m ps).net ↔ p ∈ c.net ∨ p ∈ ps :=
  List.mem_append

end Cluster

namespace Config

variable (cfg : Config) {n p : GoString}

def nodes : Finset GoString := cfg.ids.toFinset

variable {cfg}

theorem mem_nodes : n ∈ cfg.nodes ↔ n ∈ cfg.ids := List.mem_toFinset

theorem card_nodes : cfg.nodes.card = cfg.ids.length := List.toFinset_card_of_nodup cfg.nodup

theorem mem_peers (hn : n ∈ cfg.ids) : p ∈ cfg.peers n ↔ p ≠ n ∧ p ∈ cfg.ids :=
  (cfg.peers_perm n hn).mem_iff.trans cfg.nodup.mem_erase_iff

theorem nodup_peers (hn : n ∈ cfg.ids) : (cfg.peers n).Nodup :=
  (cfg.peers_perm n hn).nodup_iff.mpr (cfg.nodup.erase n)

theorem length_peers (hn : n ∈ cfg.ids) : (cfg.peers n).length + 1 = cfg.ids.length := by
  rw [(cfg.peers_perm n hn).length_eq]
  exact List.length_erase_add_one hn

end Config

end Gomq.Raft
