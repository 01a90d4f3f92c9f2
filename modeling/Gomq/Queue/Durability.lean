import Gomq.Queue.Notify

/-!
# Durability of a quorum publish

A `Publish` that is signalled knows its index only. Between `Propose` and the signal,
`AppendEntries` can replace the entry under the index, and `OnCommit` can be called for an index
that is not committed. If neither happens to a publish in progress, one that returns `nil` has its
message committed under the index that `Propose` returned (`durable_of_careful`).
-/

namespace Gomq.Quorum

open Raft List

/-! ## The statement -/

/-- The publish has proposed `msg` under `idx` and has not returned or timed out. -/
def Publisher.InProgress (msg : Bytes) (idx : ℕ) : Publisher → Prop
  | .proposed m i => m = msg ∧ i = idx
  | .waiting m i _ => m = msg ∧ i = idx
  | _ => False

/-- Whenever a `Publish` returns `nil`, its message is the command of the entry under its index, and
the index is committed. -/
def ReturnsDurable (s : System) : Action → Prop
  | .receive p => ∀ msg idx, s.publishers p = .waiting msg idx true →
      (entryAt s.queue.raft.log idx).map LogEntry.command = some msg ∧
        idx ≤ s.queue.raft.commitIndex
  | _ => True

/-- The request is accepted, and an entry of it has an index up to `idx` and another term than the
entry of the log there. -/
def Conflicts (req : AppendEntriesRequest) (idx : ℕ) (r : RaftNode) : Prop :=
  r.currentTerm ≤ req.term ∧ r.prevMatches req.prevLogIndex req.prevLogTerm = true ∧
    ∃ ent ∈ req.entries, ent.index ≤ idx ∧
      ∃ old, entryAt r.log ent.index = some old ∧ old.term ≠ ent.term

/-- `OnCommit` is called for a registered index only when the index is committed, and no
`AppendEntries` conflicts at or below the index of a publish in progress. -/
def Careful (s : System) : Action → Prop
  | .onCommit _ idx => (s.queue.pending.get idx).isSome → idx ≤ s.queue.raft.commitIndex
  | .node (.appendEntries req) => ∀ p msg idx, (s.publishers p).InProgress msg idx →
      ¬ Conflicts req idx s.queue.raft
  | _ => True

/-! ## The node -/

theorem mergeEntries_take {log log' : List LogEntry} {entries : List LogEntry} {idx : ℕ}
    (hidx : idx ≤ log.length)
    (hagree : ∀ ent ∈ entries, ent.index ≤ idx → ∀ old, entryAt log ent.index = some old →
      old.term = ent.term) (h : mergeEntries log entries = some log') :
    log'.take idx = log.take idx := by
  induction entries with
  | nil =>
    cases h
    rfl
  | cons ent rest ih =>
    unfold mergeEntries at h
    split at h
    · split at h
      · cases h
      · rename_i old hold
        split at h
        · -- the entry conflicts, so it is beyond `idx`
          rename_i hterm
          cases h
          have hbeyond : idx ≤ ent.index - 1 := by
            by_contra hlt
            exact hterm (hagree ent mem_cons_self (by omega) old hold)
          rw [take_append_of_le_length (by rw [length_take]; omega), take_take,
            min_eq_left hbeyond]
        · exact ih (fun e he => hagree e (mem_cons_of_mem ent he)) h
    · cases h
      exact take_append_of_le_length hidx

theorem entryAt_take {log : List LogEntry} {i idx : ℕ} (h : i ≤ idx) :
    entryAt (log.take idx) i = entryAt log i := by
  unfold entryAt
  by_cases h0 : i = 0
  · rw [if_pos h0, if_pos h0]
  · rw [if_neg h0, if_neg h0, List.getElem?_take_of_lt (by omega)]

theorem le_length_of_entryAt {log : List LogEntry} {idx : ℕ} {cmd : Bytes}
    (h : (entryAt log idx).map LogEntry.command = some cmd) : idx ≤ log.length := by
  unfold entryAt at h
  split at h
  · cases h
  · cases hget : log[idx - 1]? with
    | none => rw [hget] at h; cases h
    | some e =>
      have := (List.getElem?_eq_some_iff.mp hget).1
      omega

/-- `cmd` is the command of the entry under `idx`, and the index is committed if it has to be. -/
structure Holds (r : RaftNode) (cmd : Bytes) (idx : ℕ) (signalled : Prop) : Prop where
  entry : (entryAt r.log idx).map LogEntry.command = some cmd
  committed : signalled → idx ≤ r.commitIndex

section Node

variable {r : RaftNode} {cmd : Bytes} {idx : ℕ} {signalled : Prop}

theorem Holds.append (h : Holds r cmd idx signalled) {r' : RaftNode} {rest : List LogEntry}
    (hlog : r'.log = r.log ++ rest) (hc : r.commitIndex ≤ r'.commitIndex) :
    Holds r' cmd idx signalled where
  entry := by
    have hle := le_length_of_entryAt h.entry
    rw [hlog, ← entryAt_take (le_refl idx), take_append_of_le_length hle,
      entryAt_take (le_refl idx)]
    exact h.entry
  committed := fun hs => (h.committed hs).trans hc

theorem Holds.appendEntries (h : Holds r cmd idx signalled) {req : AppendEntriesRequest}
    (hreq : ¬ Conflicts req idx r) : Holds (r.appendEntries req).2 cmd idx signalled := by
  have hle := le_length_of_entryAt h.entry
  rcases RaftNode.appendEntries_cases req r with ⟨log, hterm, hprev, hmerge, heq⟩ | ⟨ok, heq⟩ | heq
  · have htake : log.take idx = r.log.take idx := by
      refine mergeEntries_take hle (fun ent hent hi old hold => ?_) hmerge
      by_contra hne
      exact hreq ⟨hterm, hprev, ent, hent, hi, old, hold, hne⟩
    rw [heq]
    refine ⟨?_, fun hs => ?_⟩
    · show (entryAt log idx).map LogEntry.command = some cmd
      rw [← entryAt_take (le_refl idx), htake, entryAt_take (le_refl idx)]
      exact h.entry
    · -- the commit index is raised, or cut to a log that still has the entry
      have hlen := congrArg List.length htake
      have hcom := h.committed hs
      rw [length_take, length_take] at hlen
      dsimp only
      split <;> omega
  · rw [heq]
    exact ⟨by simpa using h.entry, by simpa using h.committed⟩
  · rw [heq]
    exact h

/-- Every call on the node keeps what a publish in progress relies on, but for a conflict. -/
theorem Holds.call (h : Holds r cmd idx signalled) (call : NodeCall)
    (hcall : ∀ req, call = .appendEntries req → ¬ Conflicts req idx r) :
    Holds (call.on r) cmd idx signalled := by
  cases call with
  | propose c =>
    show Holds (r.propose c).2 cmd idx signalled
    rcases RaftNode.propose_cases c r with ⟨-, heq⟩ | heq <;> rw [heq]
    · exact h.append rfl (le_refl _)
    · exact h
  | appendEntries req => exact h.appendEntries (hcall req rfl)
  | requestVote req =>
    refine ⟨?_, ?_⟩
    · show (entryAt (r.requestVote req).2.log idx).map LogEntry.command = some cmd
      rw [RaftNode.requestVote_log]
      exact h.entry
    · show signalled → idx ≤ (r.requestVote req).2.commitIndex
      rw [RaftNode.requestVote_commitIndex]
      exact h.committed
  | becomeCandidate => exact ⟨h.entry, h.committed⟩
  | becomeLeader => exact ⟨h.entry, h.committed⟩
  | setCommitIndex i =>
    have hlog : (r.setCommitIndex i).log = r.log ++ [] := by simp
    refine h.append hlog ?_
    · show r.commitIndex ≤ (r.setCommitIndex i).commitIndex
      unfold RaftNode.setCommitIndex
      split
      · dsimp only; omega
      · exact le_refl _

end Node

/-! ## The invariant -/

def Publisher.Registered (idx : ℕ) : Publisher → Prop
  | .idle | .proposed _ _ => False
  | .waiting _ i _ => i = idx
  | .expired _ _ | .returned _ => True

/-- The entry of a publish in progress is in the log, and committed if the publish is signalled; a
channel is under the index its publish waits for. -/
structure Backed (s : System) : Prop where
  proposed : ∀ p msg idx, s.publishers p = .proposed msg idx → Holds s.queue.raft msg idx False
  waiting : ∀ p msg idx signalled, s.publishers p = .waiting msg idx signalled →
    Holds s.queue.raft msg idx (signalled = true)
  pending : ∀ idx p, s.queue.pending.get idx = some p → (s.publishers p).Registered idx

namespace Backed

variable {s : System}

theorem setPublisher (h : Backed s) (p : ℕ) {state : Publisher}
    (hproposed : ∀ msg idx, state = .proposed msg idx → Holds s.queue.raft msg idx False)
    (hwaiting : ∀ msg idx signalled, state = .waiting msg idx signalled →
      Holds s.queue.raft msg idx (signalled = true))
    (hpending : ∀ idx, s.queue.pending.get idx = some p → state.Registered idx) :
    Backed (s.setPublisher p state) := by
  constructor
  · intro q msg idx hq
    rw [System.publishers_setPublisher] at hq
    split at hq
    · exact hproposed msg idx hq
    · exact h.proposed q msg idx hq
  · intro q msg idx signalled hq
    rw [System.publishers_setPublisher] at hq
    split at hq
    · exact hwaiting msg idx signalled hq
    · exact h.waiting q msg idx signalled hq
  · intro idx q hq
    rw [System.publishers_setPublisher]
    split
    · rename_i hqp
      exact hpending idx (hqp ▸ hq)
    · exact h.pending idx q hq

theorem withRaft (h : Backed s) {r : RaftNode}
    (hr : ∀ p msg idx signalled, (s.publishers p).InProgress msg idx →
      Holds s.queue.raft msg idx signalled → Holds r msg idx signalled) :
    Backed { s with queue := { s.queue with raft := r } } where
  proposed := fun p msg idx hp =>
    hr p msg idx False (by rw [hp]; exact ⟨rfl, rfl⟩) (h.proposed p msg idx hp)
  waiting := fun p msg idx signalled hp =>
    hr p msg idx (signalled = true) (by rw [hp]; exact ⟨rfl, rfl⟩)
      (h.waiting p msg idx signalled hp)
  pending := h.pending

theorem withoutPending (h : Backed s) (idx : ℕ) :
    Backed { s with queue := { s.queue with pending := s.queue.pending.del idx } } where
  proposed := h.proposed
  waiting := h.waiting
  pending := by
    intro i p hp
    have hget : (s.queue.pending.del idx).get i = some p := hp
    rw [GoMap.get_del] at hget
    split at hget
    · cases hget
    · exact h.pending i p hget

theorem appended (h : Backed s) (msg : Bytes) : Backed (s.appended msg) :=
  h.withRaft fun _ _ _ _ _ hold => hold.append rfl (le_refl _)

theorem propose (h : Backed s) (p : ℕ) (msg : Bytes) : Backed (s.propose p msg) := by
  rcases s.propose_cases p msg with ⟨hidle, heq⟩ | ⟨hidle, heq⟩ | heq
  · rw [heq]
    refine (h.appended msg).setPublisher p ?_ nofun fun idx hget => ?_
    · intro msg' idx hst
      obtain ⟨rfl, rfl⟩ : msg = msg' ∧ s.queue.raft.log.length + 1 = idx := by simpa using hst
      refine ⟨?_, False.elim⟩
      simp [System.appended, entryAt]
    · have := h.pending idx p hget
      rw [hidle] at this
      exact this.elim
  · rw [heq]
    exact h.setPublisher p nofun nofun fun _ _ => trivial
  · rw [heq]
    exact h

theorem register (h : Backed s) (p : ℕ) : Backed (s.register p) := by
  rcases s.register_cases p with ⟨msg, idx, hp, heq⟩ | ⟨-, heq⟩
  · rw [heq]
    have hget : ∀ i q, (s.queue.pending.set idx p).get i = some q →
        (i = idx ∧ q = p) ∨ s.queue.pending.get i = some q := by
      intro i q hq
      rw [GoMap.get_set] at hq
      split at hq
      · rename_i hi
        exact Or.inl ⟨hi, (Option.some.inj hq).symm⟩
      · exact Or.inr hq
    have hnone : ∀ i, s.queue.pending.get i ≠ some p := by
      intro i hi
      have := h.pending i p hi
      rw [hp] at this
      exact this
    constructor
    · intro q msg' idx' hq
      rw [System.publishers_setPublisher] at hq
      split at hq
      · cases hq
      · exact h.proposed q msg' idx' hq
    · intro q msg' idx' signalled hq
      rw [System.publishers_setPublisher] at hq
      split at hq
      · obtain ⟨rfl, rfl, rfl⟩ : msg = msg' ∧ idx = idx' ∧ false = signalled := by simpa using hq
        exact ⟨(h.proposed p msg idx hp).entry, fun hsig => absurd hsig Bool.false_ne_true⟩
      · exact h.waiting q msg' idx' signalled hq
    · intro i q hq
      rw [System.publishers_setPublisher]
      rcases hget i q hq with ⟨rfl, rfl⟩ | hold
      · rw [if_pos rfl]
        exact rfl
      · have hne : q ≠ p := fun hqp => hnone i (hqp ▸ hold)
        rw [if_neg hne]
        exact h.pending i q hold
  · rw [heq]
    exact h

theorem onCommit (h : Backed s) (spare : List LogEntry) (idx : ℕ)
    (hc : (s.queue.pending.get idx).isSome → idx ≤ s.queue.raft.commitIndex) :
    Backed (s.onCommit spare idx) := by
  unfold System.onCommit QuorumQueue.onCommit
  split
  · exact h
  · rename_i ch q hq
    split at hq
    · cases hq
    · rename_i committed hcom
      cases hp : s.queue.pending.get idx with
      | none =>
        simp only [hp, Option.some.injEq, Prod.mk.injEq] at hq
        obtain ⟨rfl, rfl⟩ := hq
        exact ⟨h.proposed, h.waiting, h.pending⟩
      | some p =>
        simp only [hp, Option.some.injEq, Prod.mk.injEq] at hq
        obtain ⟨rfl, rfl⟩ := hq
        have hle := hc (by rw [hp]; rfl)
        have hreg := h.pending idx p hp
        have hsig : ∀ i, (s.publishers p).Registered i → (s.publishers p).signal.Registered i := by
          cases s.publishers p <;> exact fun _ hi => hi
        have hdel := h.withoutPending idx
        refine Backed.setPublisher (s := { s with
            queue := { s.queue with
              messages := catchUp committed s.queue.messages
              pending := s.queue.pending.del idx }
            told := _, notified := _ }) ⟨hdel.proposed, hdel.waiting, hdel.pending⟩ p ?_ ?_ ?_
        · intro msg i hst
          cases hpub : s.publishers p with
          | proposed m j => rw [hpub] at hreg; exact hreg.elim
          | _ => simp [hpub, Publisher.signal] at hst
        · intro msg i signalled hst
          cases hpub : s.publishers p with
          | waiting m j sg =>
            rw [hpub] at hreg
            obtain rfl : j = idx := hreg
            obtain ⟨rfl, rfl, rfl⟩ : m = msg ∧ j = i ∧ true = signalled := by
              simpa [hpub, Publisher.signal] using hst
            exact ⟨(h.waiting p m j sg hpub).entry, fun _ => hle⟩
          | _ => simp [hpub, Publisher.signal] at hst
        · exact fun i hi => hsig i (hdel.pending i p hi)

theorem step (h : Backed s) {a : Action} (ha : Careful s a) : Backed (s.step a) := by
  cases a with
  | propose p msg => exact h.propose p msg
  | register p => exact h.register p
  | receive p =>
    dsimp only [System.step]
    rcases s.receive_cases p with ⟨msg, idx, -, heq⟩ | heq <;> rw [heq]
    · exact h.setPublisher p nofun nofun fun _ _ => trivial
    · exact h
  | timeout p =>
    dsimp only [System.step]
    rcases s.timeout_cases p with ⟨msg, idx, _, -, heq⟩ | heq <;> rw [heq]
    · exact h.setPublisher p nofun nofun fun _ _ => trivial
    · exact h
  | forget p =>
    dsimp only [System.step]
    rcases s.forget_cases p with ⟨msg, idx, -, heq⟩ | heq <;> rw [heq]
    · exact (h.withoutPending idx).setPublisher p nofun nofun fun _ _ => trivial
    · exact h
  | onCommit spare idx => exact h.onCommit spare idx ha
  | consume count => exact h
  | ack offset => exact ⟨h.proposed, h.waiting, h.pending⟩
  | node call =>
    have hraft := h.withRaft (r := call.on s.queue.raft) fun p msg idx _ hp hold =>
      hold.call call fun req hreq => by
        subst hreq
        exact ha p msg idx hp
    exact ⟨hraft.proposed, hraft.waiting, hraft.pending⟩

theorem returnsDurable (h : Backed s) (a : Action) : ReturnsDurable s a := by
  cases a with
  | receive p =>
    intro msg idx hp
    have hold := h.waiting p msg idx true hp
    exact ⟨hold.entry, hold.committed rfl⟩
  | _ => trivial

end Backed

/-- In every run of careful steps, from a new queue on any node, every publish that returns `nil` is
durable. -/
theorem durable_of_careful (r : RaftNode) (as : List Action)
    (h : Along System.step Careful (start r) as) :
    Along System.step ReturnsDurable (start r) as :=
  Along.of_inv (fun _ _ hs ha => hs.step ha) (fun _ a hs _ => hs.returnsDurable a)
    (⟨nofun, nofun, nofun⟩ : Backed (start r)) h

/-! ## A publish whose entry was replaced -/

def overwrite : AppendEntriesRequest where
  term := 2
  leaderID := str "n2"
  prevLogIndex := 0
  prevLogTerm := 0
  entries := [⟨1, 2, str "other"⟩]
  leaderCommit := 1

def replacedThenSignalled : List Action :=
  [.propose 0 (str "m"), .register 0, .node (.appendEntries overwrite), .onCommit [] 1, .receive 0]

/-- The publish returns `nil`, and the committed entry under its index is another one. -/
theorem replacedThenSignalled_lost :
    (replacedThenSignalled.foldl System.step (start leader)).publishers 0 = .returned true ∧
      (replacedThenSignalled.foldl System.step (start leader)).queue.messages = [str "other"] ∧
      ¬ Along System.step ReturnsDurable (start leader) replacedThenSignalled := by
  refine ⟨by decide +kernel, by decide +kernel, fun h => ?_⟩
  have hdurable := (h.2.2.2.2.1 (str "m") 1 (by decide +kernel)).1
  revert hdurable
  decide +kernel

def committedThenSignalled : List Action :=
  [.propose 0 (str "m"), .register 0, .node (.setCommitIndex 1), .onCommit [] 1, .receive 0]

theorem committedThenSignalled_durable :
    Along System.step ReturnsDurable (start leader) committedThenSignalled :=
  durable_of_careful leader committedThenSignalled
    ⟨trivial, trivial, trivial, fun _ => by decide +kernel, trivial, trivial⟩

end Gomq.Quorum
