import Gomq.Queue.Quorum

/-!
# The contents of a quorum queue

`OnCommit` takes the number of messages in the queue for the number of commands it has copied. The
two agree only until the first acknowledgement, which takes a message out. After that, the next
`OnCommit` copies commands again that are in the queue or were acknowledged. `mirrors_iff`: as long
as the committed prefix of the node only grows, the queue holds the committed commands without the
acknowledged ones exactly if no `OnCommit` comes after an acknowledgement.
-/

namespace Gomq.Quorum

open Raft List

namespace System

def commands (s : System) : List Bytes :=
  (s.queue.raft.log.take s.queue.raft.commitIndex).map LogEntry.command

/-- Once `OnCommit` has run for the present commit index, the messages are the committed commands
without the acknowledged ones. -/
def Mirrors (s : System) : Prop := s.told = true → s.queue.messages = s.commands.drop s.acked

end System

/-- The committed prefix is in the log, and it only grows. -/
structure PrefixKept (r r' : RaftNode) : Prop where
  within : r.commitIndex ≤ r.log.length
  within' : r'.commitIndex ≤ r'.log.length
  kept : r.log.take r.commitIndex <+: r'.log.take r'.commitIndex

def Grown (s : System) (a : Action) : Prop := PrefixKept s.queue.raft (s.step a).queue.raft

/-- `OnCommit` runs only while nothing is acknowledged. A call for another index than the present
commit index may come later, until one for the present commit index has run. -/
def BeforeAcks (s : System) : Action → Prop
  | .onCommit _ idx => s.told = true ∨ idx = s.queue.raft.commitIndex → s.acked = 0
  | _ => True

/-! ## Steps -/

section Steps

variable {s : System}

theorem length_commands (h : s.queue.raft.commitIndex ≤ s.queue.raft.log.length) :
    s.commands.length = s.queue.raft.commitIndex := by
  simp [System.commands, h]

theorem onCommit_contents (h : s.queue.raft.commitIndex ≤ s.queue.raft.log.length)
    (spare : List LogEntry) (idx : ℕ) :
    (s.onCommit spare idx).queue.messages =
        s.queue.messages ++ s.commands.drop s.queue.messages.length ∧
      (s.onCommit spare idx).queue.raft = s.queue.raft ∧
      (s.onCommit spare idx).acked = s.acked ∧
      ((s.onCommit spare idx).told = true ↔
        s.told = true ∨ idx = s.queue.raft.commitIndex) := by
  unfold System.onCommit QuorumQueue.onCommit
  rw [RaftNode.committed_of_le h]
  dsimp only
  cases s.queue.pending.get idx with
  | none =>
    simp [System.signal, catchUp_eq, System.commands, map_drop]
  | some p =>
    simp [System.signal, System.setPublisher, catchUp_eq, System.commands, map_drop]

theorem step_contents {a : Action} (hc : ∀ spare idx, a ≠ .onCommit spare idx)
    (ha : ∀ offset, a ≠ .ack offset) :
    (s.step a).queue.messages = s.queue.messages ∧ (s.step a).acked = s.acked ∧
      ((s.step a).told = true → s.told = true ∧
        (s.step a).queue.raft.commitIndex = s.queue.raft.commitIndex) := by
  cases a with
  | propose p msg =>
    dsimp only [System.step]
    rcases s.propose_cases p msg with ⟨-, h⟩ | ⟨-, h⟩ | h <;> rw [h] <;>
      exact ⟨rfl, rfl, fun ht => ⟨ht, rfl⟩⟩
  | register p =>
    dsimp only [System.step]
    rcases s.register_cases p with ⟨msg, idx, -, h⟩ | ⟨-, h⟩ <;> rw [h] <;>
      exact ⟨rfl, rfl, fun ht => ⟨ht, rfl⟩⟩
  | receive p =>
    dsimp only [System.step]
    rcases s.receive_cases p with ⟨msg, idx, -, h⟩ | h <;> rw [h] <;>
      exact ⟨rfl, rfl, fun ht => ⟨ht, rfl⟩⟩
  | timeout p =>
    dsimp only [System.step]
    rcases s.timeout_cases p with ⟨msg, idx, _, -, h⟩ | h <;> rw [h] <;>
      exact ⟨rfl, rfl, fun ht => ⟨ht, rfl⟩⟩
  | forget p =>
    dsimp only [System.step]
    rcases s.forget_cases p with ⟨msg, idx, -, h⟩ | h <;> rw [h] <;>
      exact ⟨rfl, rfl, fun ht => ⟨ht, rfl⟩⟩
  | onCommit spare idx => exact absurd rfl (hc spare idx)
  | consume count => exact ⟨rfl, rfl, fun h => ⟨h, rfl⟩⟩
  | ack offset => exact absurd rfl (ha offset)
  | node call =>
    refine ⟨rfl, rfl, fun ht => ?_⟩
    simpa [System.step, System.node] using ht

theorem commands_isPrefix {a : Action} (h : Grown s a) : s.commands <+: (s.step a).commands := by
  obtain ⟨rest, hrest⟩ := h.kept
  exact ⟨rest.map LogEntry.command, by rw [System.commands, ← map_append, hrest]; rfl⟩

theorem commands_eq {a : Action} (h : Grown s a)
    (hc : (s.step a).queue.raft.commitIndex = s.queue.raft.commitIndex) :
    (s.step a).commands = s.commands := by
  refine ((commands_isPrefix h).eq_of_length ?_).symm
  rw [length_commands h.within, length_commands h.within', hc]

end Steps

/-! ## Runs -/

/-- While nothing is acknowledged the messages are committed commands from the first on; and the
queue mirrors the log wherever it has to. -/
structure Faithful (s : System) : Prop where
  fresh : s.acked = 0 → s.queue.messages <+: s.commands
  some : 0 < s.acked → s.commands ≠ []
  mirrors : s.Mirrors

section Faithful

variable {s : System}

theorem append_drop_of_isPrefix {α : Type} {l l' : List α} (h : l <+: l') :
    l ++ l'.drop l.length = l' := by
  obtain ⟨r, rfl⟩ := h
  rw [drop_left]

theorem append_drop_ne {α : Type} {l l' : List α} {n : ℕ} (hn : 0 < n) (hl : l' ≠ []) :
    l ++ l'.drop l.length ≠ l'.drop n := by
  intro h
  have hlen := congrArg List.length h
  have hpos := length_pos_of_ne_nil hl
  simp only [length_append, length_drop] at hlen
  omega

theorem mirrors_onCommit_iff (hs : Faithful s)
    (h : s.queue.raft.commitIndex ≤ s.queue.raft.log.length) (spare : List LogEntry) (idx : ℕ) :
    (s.onCommit spare idx).Mirrors ↔ BeforeAcks s (.onCommit spare idx) := by
  obtain ⟨hmsgs, hraft, hacked, htold⟩ := onCommit_contents h spare idx
  have hcmds : (s.onCommit spare idx).commands = s.commands := by
    unfold System.commands; rw [hraft]
  unfold System.Mirrors BeforeAcks
  rw [htold, hmsgs, hcmds, hacked]
  refine imp_congr_right fun _ => ⟨fun heq => ?_, fun h0 => ?_⟩
  · by_contra hne
    have hpos := Nat.pos_of_ne_zero hne
    exact append_drop_ne hpos (hs.some hpos) heq
  · rw [h0, drop_zero]
    exact append_drop_of_isPrefix (hs.fresh h0)

theorem mirrors_ack (hs : Faithful s) (offset : ℕ) : (s.ack offset).Mirrors := by
  intro ht
  show s.queue.messages.drop (s.queue.acks offset) = s.commands.drop (s.acked + s.queue.acks offset)
  rw [hs.mirrors ht, drop_drop]

theorem mirrors_step_iff (hs : Faithful s) {a : Action} (h : Grown s a) :
    (s.step a).Mirrors ↔ BeforeAcks s a := by
  by_cases hc : ∃ spare idx, a = .onCommit spare idx
  · obtain ⟨spare, idx, rfl⟩ := hc
    exact mirrors_onCommit_iff hs h.within spare idx
  have hcond : BeforeAcks s a := by
    cases a with
    | onCommit spare idx => exact absurd ⟨spare, idx, rfl⟩ hc
    | _ => trivial
  refine iff_of_true ?_ hcond
  by_cases ha : ∃ offset, a = .ack offset
  · obtain ⟨offset, rfl⟩ := ha
    exact mirrors_ack hs offset
  · obtain ⟨hmsgs, hacked, htold⟩ := step_contents (s := s)
      (fun spare idx heq => hc ⟨spare, idx, heq⟩) fun offset heq => ha ⟨offset, heq⟩
    intro ht
    rw [hmsgs, hacked, commands_eq h (htold ht).2]
    exact hs.mirrors (htold ht).1

theorem faithful_step (hs : Faithful s) {a : Action} (h : Grown s a) (hb : BeforeAcks s a) :
    Faithful (s.step a) := by
  have hmirrors := (mirrors_step_iff hs h).mpr hb
  have hgrow := commands_isPrefix h
  by_cases hc : ∃ spare idx, a = .onCommit spare idx
  · obtain ⟨spare, idx, rfl⟩ := hc
    obtain ⟨hmsgs, hraft, hacked, -⟩ := onCommit_contents h.within spare idx
    have hcmds : (s.onCommit spare idx).commands = s.commands := by
      unfold System.commands; rw [hraft]
    refine ⟨fun h0 => ?_, fun hpos => ?_, hmirrors⟩
    · show (s.onCommit spare idx).queue.messages <+: (s.onCommit spare idx).commands
      rw [hmsgs, hcmds, append_drop_of_isPrefix (hs.fresh (hacked.symm.trans h0))]
    · show (s.onCommit spare idx).commands ≠ []
      rw [hcmds]
      exact hs.some (lt_of_lt_of_eq hpos hacked)
  by_cases ha : ∃ offset, a = .ack offset
  · obtain ⟨offset, rfl⟩ := ha
    refine ⟨fun h0 => ?_, fun hpos => ?_, hmirrors⟩
    · -- nothing was taken out
      have hzero : s.acked = 0 ∧ s.queue.acks offset = 0 := Nat.add_eq_zero_iff.mp h0
      show s.queue.messages.drop (s.queue.acks offset) <+: s.commands
      rw [hzero.2, drop_zero]
      exact hs.fresh hzero.1
    · show s.commands ≠ []
      by_cases h0 : s.acked = 0
      · -- the first message to go was a committed command
        intro hnil
        have hempty : s.queue.messages = [] := prefix_nil.mp (hnil ▸ hs.fresh h0)
        have hacks : 0 < s.acked + s.queue.acks offset := hpos
        rw [h0, QuorumQueue.acks, hempty] at hacks
        simp only [length_nil] at hacks
        split at hacks <;> omega
      · exact hs.some (Nat.pos_of_ne_zero h0)
  · obtain ⟨hmsgs, hacked, -⟩ := step_contents (s := s) (fun spare idx heq => hc ⟨spare, idx, heq⟩)
      fun offset heq => ha ⟨offset, heq⟩
    refine ⟨fun h0 => ?_, fun hpos hnil => ?_, hmirrors⟩
    · rw [hmsgs]
      exact (hs.fresh (hacked.symm.trans h0)).trans hgrow
    · exact hs.some (lt_of_lt_of_eq hpos hacked) (prefix_nil.mp (hnil ▸ hgrow))

theorem faithful_start (r : RaftNode) : Faithful (start r) where
  fresh := fun _ => nil_prefix
  some := fun h => absurd h (lt_irrefl 0)
  mirrors := fun h => by cases h

end Faithful

/-- Assume that the committed prefix only grows. Then all states of a run mirror the log exactly if
every `OnCommit` comes before the acknowledgements. -/
theorem mirrors_iff (r : RaftNode) (as : List Action) (h : Along System.step Grown (start r) as) :
    Along System.step (fun s a => (s.step a).Mirrors) (start r) as ↔
      Along System.step BeforeAcks (start r) as :=
  Along.iff_of_inv (fun _ _ hs hg hb => faithful_step hs hg hb)
    (fun _ _ hs hg => mirrors_step_iff hs hg) (faithful_start r) h

/-! ## An acknowledged message that comes back -/

def twoCommands : RaftNode :=
  { newRaftNode [] [] with
    state := .leader, log := [⟨1, 0, str "a"⟩, ⟨2, 0, str "b"⟩], commitIndex := 1 }

def ackThenCommit : List Action :=
  [.onCommit [] 1, .consume 1, .ack 1, .node (.setCommitIndex 2), .onCommit [] 2]

theorem grown_ackThenCommit : Along System.step Grown (start twoCommands) ackThenCommit :=
  ⟨⟨by decide, by decide, by decide⟩, ⟨by decide, by decide, by decide⟩,
    ⟨by decide, by decide, by decide⟩, ⟨by decide, by decide, by decide⟩,
    ⟨by decide +kernel, by decide +kernel, by decide +kernel⟩, trivial⟩

/-- The command that was acknowledged is in the queue again. -/
theorem ackThenCommit_not_mirrored :
    Along System.step Grown (start twoCommands) ackThenCommit ∧
      (ackThenCommit.foldl System.step (start twoCommands)).acked = 1 ∧
      (ackThenCommit.foldl System.step (start twoCommands)).queue.messages =
        [str "a", str "b"] ∧
      ¬ Along System.step (fun s a => (s.step a).Mirrors) (start twoCommands) ackThenCommit := by
  have hmsgs : (ackThenCommit.foldl System.step (start twoCommands)).queue.messages =
      [str "a", str "b"] := by decide +kernel
  refine ⟨grown_ackThenCommit, by decide +kernel, hmsgs, fun h => ?_⟩
  have hlast := h.2.2.2.2.1 (by decide +kernel)
  exact absurd (hmsgs.symm.trans hlast) (by decide +kernel)

def commitThenAck : List Action := [.node (.setCommitIndex 2), .onCommit [] 2, .ack 1]

theorem commitThenAck_mirrored :
    Along System.step (fun s a => (s.step a).Mirrors) (start twoCommands) commitThenAck :=
  (mirrors_iff twoCommands commitThenAck
    ⟨⟨by decide, by decide, by decide⟩, ⟨by decide, by decide, by decide⟩,
      ⟨by decide +kernel, by decide +kernel, by decide +kernel⟩, trivial⟩).mpr
    ⟨trivial, fun _ => rfl, trivial, trivial⟩

end Gomq.Quorum
