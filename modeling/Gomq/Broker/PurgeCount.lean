import Gomq.Broker.Copies
import Gomq.Broker.QueueRuns

/-!
# The count of a purge

`Queue.Purge` reads the length of the queue and removes the messages in two critical sections of the
store, and reports what it read. Between the two other requests put messages in and take messages
out, so the report is exact if and only if these balance (`purgeCount_exact_iff`).
-/

namespace Gomq.Broker

open Wire Server

/-! ## A purge between its critical sections -/

/-- A purge that has read the length of its queue, and how many messages have been put into the
queue and taken out of it since. -/
structure Purging where
  ch : ChanRef
  queue : GoString
  noWait : Bool
  length : ℕ
  added : ℕ
  removed : ℕ

namespace Purging

/-- The count of the reply, cut to 32 bits. -/
def count (p : Purging) : UInt32 := UInt32.ofNat p.length

def note (queue : GoString) (added removed : ℕ) (p : Purging) : Purging :=
  if p.queue = queue then { p with added := p.added + added, removed := p.removed + removed }
  else p

/-- As many messages came as went, after the part of the length that 32 bits do not hold. -/
def Balanced (p : Purging) : Prop := p.length % 2 ^ 32 + p.removed = p.length + p.added

end Purging

structure Purges where
  server : Server
  pending : ℕ → Option Purging

/-- The critical sections of the store: a publish stores, a `Basic.Get` or a full queue lets go of
the head, and a purge has two. -/
inductive PurgesAction where
  | put (queue : GoString) (args : Table) (msg : MsgRef)
  | take (queue : GoString)
  | len (request : ℕ) (ch : ChanRef) (queue : GoString) (noWait : Bool)
  | purge (request : ℕ)

namespace Purges

def note (s : Purges) (queue : GoString) (added removed : ℕ) : ℕ → Option Purging :=
  fun r => (s.pending r).map (Purging.note queue added removed)

def step (s : Purges) : PurgesAction → Purges
  | .put queue args msg => ⟨s.server.storeIn queue args msg, s.note queue 1 0⟩
  | .take queue =>
    match s.server.dequeue queue with
    | (none, _) => s
    | (some _, server) => ⟨server, s.note queue 0 1⟩
  | .len r ch queue noWait =>
    ⟨s.server, Function.update s.pending r
      (some ⟨ch, queue, noWait, (s.server.ready queue).length, 0, 0⟩)⟩
  | .purge r =>
    match s.pending r with
    | none => s
    | some p =>
      ⟨(s.server.purge p.queue).replyUnless p.noWait p.ch
          (methodPayload 50 31 (writeUint32 p.count)),
        Function.update (s.note p.queue 0 (s.server.ready p.queue).length) r none⟩

theorem purge_alone (s : Purges) (r : ℕ) (ch : ChanRef) (queue : GoString) (noWait : Bool) :
    ((s.step (.len r ch queue noWait)).step (.purge r)).server =
      (s.server.performQueuePurge ch queue noWait).2 := by
  simp [step, performQueuePurge, Purging.count]

/-! ## One step -/

section Equations

variable {s : Purges} {queue : GoString} {r : ℕ}

theorem step_take_of_nil (h : s.server.ready queue = []) : s.step (.take queue) = s := by
  simp only [step, dequeue, h]

theorem step_take_of_cons {m : MsgRef} {l : List MsgRef} (h : s.server.ready queue = m :: l) :
    s.step (.take queue) =
      ⟨{ s.server with store := s.server.store.set queue l }, s.note queue 0 1⟩ := by
  simp only [step, dequeue, h]

theorem step_purge_of_none (h : s.pending r = none) : s.step (.purge r) = s := by
  simp only [step, h]

theorem step_purge_of_some {p : Purging} (h : s.pending r = some p) :
    s.step (.purge r) =
      ⟨(s.server.purge p.queue).replyUnless p.noWait p.ch
          (methodPayload 50 31 (writeUint32 p.count)),
        Function.update (s.note p.queue 0 (s.server.ready p.queue).length) r none⟩ := by
  simp only [step, h]

end Equations

theorem getLoop_alone (env : Env) (queue : GoString) (args : Table) (n : ℕ) (s : Purges) :
    ∃ k, ((List.replicate k (.take queue)).foldl step s).server =
      (getLoop env queue args n s.server).2 := by
  induction n generalizing s with
  | zero => exact ⟨0, rfl⟩
  | succ n ih =>
    unfold getLoop dequeue
    cases hready : s.server.ready queue with
    | nil => exact ⟨0, rfl⟩
    | cons m l =>
      have hstep := step_take_of_cons hready
      dsimp only
      split
      · obtain ⟨k, hk⟩ := ih (s.step (.take queue))
        refine ⟨k + 1, ?_⟩
        rw [List.replicate_succ, List.foldl_cons, hk, hstep]
      · exact ⟨1, congrArg server hstep⟩

/-- The length of each queue is what a purge of it has read, as changed since. -/
def Tallied (s : Purges) : Prop :=
  ∀ r p, s.pending r = some p →
    (s.server.ready p.queue).length + p.removed = p.length + p.added

section Tally

variable {s : Purges} {server : Server} {queue : GoString} {added removed : ℕ}

theorem Tallied.note (h : s.Tallied)
    (hself : (server.ready queue).length + removed = (s.server.ready queue).length + added)
    (hne : ∀ q, q ≠ queue → server.ready q = s.server.ready q) :
    Tallied ⟨server, s.note queue added removed⟩ := by
  intro r p' hp'
  obtain ⟨p, hp, rfl⟩ := Option.map_eq_some_iff.mp hp'
  have htally := h r p hp
  show (server.ready (Purging.note queue added removed p).queue).length + _ = _
  unfold Purging.note
  split
  · rename_i hq
    subst hq
    show (server.ready p.queue).length + (p.removed + removed) = p.length + (p.added + added)
    omega
  · rename_i hq
    rw [hne p.queue hq]
    exact htally

theorem Tallied.forget {pending : ℕ → Option Purging} (h : Tallied ⟨server, pending⟩) (r : ℕ) :
    Tallied ⟨server, Function.update pending r none⟩ := by
  intro r' p hp
  have hp : Function.update pending r none r' = some p := hp
  by_cases hr : r' = r
  · rw [hr, Function.update_self] at hp
    cases hp
  · rw [Function.update_of_ne hr] at hp
    exact h r' p hp

end Tally

theorem length_storeIn (s : Server) (queue : GoString) (args : Table) (msg : MsgRef) :
    ((s.storeIn queue args msg).ready queue).length = (s.ready queue).length + 1 := by
  rw [ready_storeIn, if_pos rfl, length_place]

theorem ready_purge (s : Server) (noWait : Bool) (ch : ChanRef) (payload : Bytes)
    (queue q : GoString) :
    ((s.purge queue).replyUnless noWait ch payload).ready q =
      if q = queue then [] else s.ready q := by
  have hpurge : (s.purge queue).ready q = if q = queue then [] else s.ready q := by
    unfold ready purge GoMap.getD
    rw [GoMap.get_del]
    split <;> rfl
  unfold replyUnless
  split
  · exact hpurge
  · rw [ready_reply, hpurge]

theorem tallied_step {s : Purges} (h : s.Tallied) (a : PurgesAction) : (s.step a).Tallied := by
  cases a with
  | put queue args msg =>
    refine h.note (length_storeIn s.server queue args msg) fun q hq => ?_
    rw [ready_storeIn, if_neg hq]
  | take queue =>
    cases hready : s.server.ready queue with
    | nil => rwa [step_take_of_nil hready]
    | cons m l =>
      rw [step_take_of_cons hready]
      refine h.note ?_ fun q hq => ?_
      · rw [hready]
        simp [ready]
      · simp [ready, hq]
  | len r ch queue noWait =>
    intro r' p hp
    have hp : Function.update s.pending r _ r' = some p := hp
    by_cases hr : r' = r
    · rw [hr, Function.update_self] at hp
      cases hp
      rfl
    · rw [Function.update_of_ne hr] at hp
      exact h r' p hp
  | purge r =>
    cases hp : s.pending r with
    | none => rwa [step_purge_of_none hp]
    | some p =>
      rw [step_purge_of_some hp]
      refine (h.note ?_ fun q hq => ?_).forget r
      · rw [ready_purge, if_pos rfl]
        simp
      · rw [ready_purge, if_neg hq]

/-! ## The reported count -/

def Exact (s : Purges) : PurgesAction → Prop
  | .purge r => ∀ p, s.pending r = some p → p.noWait = false →
      p.count.toNat + ((s.step (.purge r)).server.ready p.queue).length =
        (s.server.ready p.queue).length
  | _ => True

def FindsBalanced (s : Purges) : PurgesAction → Prop
  | .purge r => ∀ p, s.pending r = some p → p.noWait = false → p.Balanced
  | _ => True

theorem exact_iff {s : Purges} (h : s.Tallied) (a : PurgesAction) :
    s.Exact a ↔ s.FindsBalanced a := by
  cases a with
  | purge r =>
    refine forall_congr' fun p => forall_congr' fun hp => forall_congr' fun _ => ?_
    have htally := h r p hp
    have hcount : p.count.toNat = p.length % 2 ^ 32 := UInt32.toNat_ofNat'
    rw [step_purge_of_some hp, ready_purge, if_pos rfl, hcount]
    unfold Purging.Balanced
    simp only [List.length_nil]
    omega
  | _ => exact Iff.rfl

/-- In every interleaving of stores, dequeues and purges each reply reports what its purge removed
exactly if each removal with a reply finds its queue balanced. -/
theorem purgeCount_exact_iff (server : Server) (acts : List PurgesAction) :
    Along step Exact ⟨server, fun _ => none⟩ acts ↔
      Along step FindsBalanced ⟨server, fun _ => none⟩ acts :=
  Along.iff_of_kept (fun _ a h _ => tallied_step h a) (fun _ a h => exact_iff h a)
    (I := Tallied) fun _ _ hp => by cases hp

/-- A message that is stored between the two sections is removed and not reported. -/
theorem purgeCount_missesStore :
    let s := [PurgesAction.len 0 0 (str "q") false, .put (str "q") [] 0].foldl step
      ⟨newServer, fun _ => none⟩
    (s.pending 0).map Purging.count = some 0 ∧ s.server.ready (str "q") = [0] ∧
      (s.step (.purge 0)).server.ready (str "q") = [] ∧ ¬ s.Exact (.purge 0) := by
  refine ⟨by decide, by decide, by decide, fun hexact => ?_⟩
  exact absurd (hexact _ rfl rfl) (by decide)

end Purges

end Gomq.Broker
