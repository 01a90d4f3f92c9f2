import Gomq.Queue.Quorum

/-!
# Commit notifications

`OnCommit` signals the channel under the one index it is called with. A publisher that registers
after the call is not signalled, and neither is one with a smaller index, nor one whose channel
another publisher has replaced under the same index. `noneLost_iff` says which runs lose no
notification.
-/

namespace Gomq.Quorum

open Raft

/-- Every publisher that waits without a signal waits for an index beyond those for which `OnCommit`
has run with the entry committed. -/
def System.NoneLost (s : System) : Prop :=
  ∀ p msg idx, s.publishers p = .waiting msg idx false → s.notified < idx

/-- A publisher registers before `OnCommit` has got to its index; and when `OnCommit` runs for a
committed index, each publisher that waits without a signal for this index or a smaller one is the
one registered under it. -/
def Timely (s : System) : Action → Prop
  | .register p => ∀ msg idx, s.publishers p = .proposed msg idx → s.notified < idx
  | .onCommit spare idx =>
    (s.queue.raft.committed spare).isSome → s.HasCommitted idx →
      ∀ p msg i, s.publishers p = .waiting msg i false → i ≤ idx →
        s.queue.pending.get idx = some p
  | _ => True

section Steps

variable {s : System}

theorem NoneLost.setPublisher (h : s.NoneLost) (p : ℕ) {state : Publisher}
    (hstate : ∀ msg idx, state ≠ .waiting msg idx false) : (s.setPublisher p state).NoneLost := by
  intro q msg idx hq
  rw [System.publishers_setPublisher] at hq
  split at hq
  · exact absurd hq (hstate msg idx)
  · exact h q msg idx hq

theorem noneLost_register_iff (h : s.NoneLost) (p : ℕ) :
    (s.register p).NoneLost ↔ Timely s (.register p) := by
  rcases s.register_cases p with ⟨msg, idx, hp, heq⟩ | ⟨hp, heq⟩
  · rw [heq]
    constructor
    · intro hlost msg' idx' hp'
      obtain ⟨rfl, rfl⟩ : msg = msg' ∧ idx = idx' := by simpa [hp] using hp'
      exact hlost p msg idx (by simp)
    · intro htimely q msg' idx' hq
      rw [System.publishers_setPublisher] at hq
      split at hq
      · obtain ⟨rfl, rfl⟩ : msg = msg' ∧ idx = idx' := by simpa using hq
        exact htimely msg idx hp
      · exact h q msg' idx' hq
  · rw [heq]
    exact iff_of_true h fun msg idx hp' => absurd hp' (hp msg idx)

theorem onCommit_publishers (spare : List LogEntry) (idx : ℕ)
    (h : (s.queue.raft.committed spare).isSome) :
    (s.onCommit spare idx).notified =
        (if s.HasCommitted idx then max s.notified idx else s.notified) ∧
      ∀ p, (s.onCommit spare idx).publishers p =
        if s.queue.pending.get idx = some p then (s.publishers p).signal else s.publishers p := by
  obtain ⟨committed, hc⟩ := Option.isSome_iff_exists.mp h
  unfold System.onCommit QuorumQueue.onCommit
  rw [hc]
  dsimp only
  cases hp : s.queue.pending.get idx with
  | none => exact ⟨rfl, fun p => by simp [System.signal]⟩
  | some q =>
    refine ⟨rfl, fun p => ?_⟩
    simp only [System.signal, System.publishers_setPublisher, Option.some.injEq]
    by_cases hpq : p = q
    · subst hpq; simp
    · simp [hpq, Ne.symm hpq]

theorem onCommit_panic {spare : List LogEntry} {idx : ℕ}
    (h : s.queue.raft.committed spare = none) : s.onCommit spare idx = s := by
  unfold System.onCommit QuorumQueue.onCommit
  rw [h]

theorem signal_ne_waiting (p : Publisher) (msg : Bytes) (idx : ℕ) :
    p.signal ≠ .waiting msg idx false := by
  cases p <;> simp [Publisher.signal]

theorem noneLost_onCommit_iff (h : s.NoneLost) (spare : List LogEntry) (idx : ℕ) :
    (s.onCommit spare idx).NoneLost ↔ Timely s (.onCommit spare idx) := by
  cases hc : s.queue.raft.committed spare with
  | none =>
    rw [onCommit_panic hc]
    refine iff_of_true h fun hsome => ?_
    rw [hc] at hsome
    cases hsome
  | some committed =>
    obtain ⟨hnotified, hpubs⟩ := onCommit_publishers (s := s) spare idx (by rw [hc]; rfl)
    constructor
    · intro hlost _ hcom p msg i hp hi
      -- a publisher that was left without a signal would now be behind
      by_contra hne
      have := hlost p msg i (by rw [hpubs, if_neg hne]; exact hp)
      rw [hnotified, if_pos hcom] at this
      omega
    · intro htimely p msg i hp
      rw [hpubs] at hp
      split at hp
      · exact absurd hp (signal_ne_waiting _ msg i)
      · rename_i hne
        have hbefore := h p msg i hp
        rw [hnotified]
        split
        · rename_i hcom
          by_contra hlt
          exact hne (htimely (by rw [hc]; rfl) hcom p msg i hp (by omega))
        · exact hbefore

theorem noneLost_step_iff (h : s.NoneLost) (a : Action) : (s.step a).NoneLost ↔ Timely s a := by
  cases a with
  | register p => exact noneLost_register_iff h p
  | onCommit spare idx => exact noneLost_onCommit_iff h spare idx
  | propose p msg =>
    refine iff_of_true ?_ trivial
    show (s.propose p msg).NoneLost
    rcases s.propose_cases p msg with ⟨-, heq⟩ | ⟨-, heq⟩ | heq <;> rw [heq]
    · exact NoneLost.setPublisher (s := s.appended msg) h p nofun
    · exact NoneLost.setPublisher h p nofun
    · exact h
  | receive p =>
    refine iff_of_true ?_ trivial
    show (s.receive p).NoneLost
    rcases s.receive_cases p with ⟨msg, idx, -, heq⟩ | heq <;> rw [heq]
    · exact NoneLost.setPublisher h p nofun
    · exact h
  | timeout p =>
    refine iff_of_true ?_ trivial
    show (s.timeout p).NoneLost
    rcases s.timeout_cases p with ⟨msg, idx, _, -, heq⟩ | heq <;> rw [heq]
    · exact NoneLost.setPublisher h p nofun
    · exact h
  | forget p =>
    refine iff_of_true ?_ trivial
    show (s.forget p).NoneLost
    rcases s.forget_cases p with ⟨msg, idx, -, heq⟩ | heq <;> rw [heq]
    · exact NoneLost.setPublisher
        (s := { s with queue := { s.queue with pending := s.queue.pending.del idx } }) h p nofun
    · exact h
  | consume count => exact iff_of_true h trivial
  | ack offset => exact iff_of_true h trivial
  | node call => exact iff_of_true h trivial

end Steps

/-- No notification is lost in any state of a run exactly if every step is timely. -/
theorem noneLost_iff (r : RaftNode) (as : List Action) :
    Along System.step (fun s a => (s.step a).NoneLost) (start r) as ↔
      Along System.step Timely (start r) as :=
  Along.iff_of_kept (I := System.NoneLost) (fun _ a hs ht => (noneLost_step_iff hs a).mpr ht)
    (fun _ a hs => noneLost_step_iff hs a) fun _ _ _ h => by cases h

/-! ## A publisher that waits for nothing -/

def leader : RaftNode := { newRaftNode [] [] with state := .leader }

def commitTooSoon : List Action :=
  [.propose 0 (str "m"), .node (.setCommitIndex 1), .onCommit [] 1, .register 0]

theorem commitTooSoon_lost :
    (commitTooSoon.foldl System.step (start leader)).publishers 0 = .waiting (str "m") 1 false ∧
      (commitTooSoon.foldl System.step (start leader)).notified = 1 ∧
      ¬ Along System.step (fun s a => (s.step a).NoneLost) (start leader) commitTooSoon := by
  have hwaits : (commitTooSoon.foldl System.step (start leader)).publishers 0 =
      .waiting (str "m") 1 false := by decide +kernel
  have hnotified : (commitTooSoon.foldl System.step (start leader)).notified = 1 := by
    decide +kernel
  refine ⟨hwaits, hnotified, fun h => ?_⟩
  have hlost := h.2.2.2.1 0 (str "m") 1 hwaits
  exact absurd (hnotified ▸ hlost : 1 < 1) (lt_irrefl 1)

/-- Two publishers wait, and `OnCommit` runs for the second index only. -/
example :
    ([Action.propose 0 (str "m"), .register 0, .propose 1 (str "n"), .register 1,
      .node (.setCommitIndex 2), .onCommit [] 2].foldl System.step (start leader)).publishers 0 =
      .waiting (str "m") 1 false := by decide +kernel

end Gomq.Quorum
