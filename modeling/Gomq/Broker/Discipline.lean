import Gomq.Broker.Copies
import Gomq.Broker.Expiration
import Gomq.Lib.StableOrder

/-!
# One priority queue

A queue that is filled by `EnqueuePriority` only, emptied by `Dequeue` and cut down by
`RemoveExpired`. Beside the store runs the list of the messages that were put in and neither taken
out nor found expired, in the order in which they were put in. The queue has these messages, the
highest priority in front and the earliest first among equals (`Disciplined`), so `Dequeue` returns
the earliest of the highest (`priorityDiscipline`).
-/

namespace Gomq.Broker

open Wire

/-! ## The operations -/

/-- A callback of `RemoveExpired` that does not touch the queue `q`. No function of the broker
changes the priority of a message. -/
structure FrameCallback (q : GoString) where
  onExpired : Server → MsgRef → Server
  ready : ∀ s m, (onExpired s m).ready q = s.ready q
  priorityOf : ∀ s m, (onExpired s m).priorityOf = s.priorityOf

inductive QueueCall (q : GoString) where
  | enqueuePriority (msg : MsgRef)
  | dequeue
  | removeExpired (isExpired : Message → Bool) (callback : FrameCallback q)

/-- The broker, and the messages that were put into the queue and neither taken out nor found
expired, in the order in which they were put in. -/
structure Pending where
  server : Server
  arrivals : List MsgRef

def Pending.step (q : GoString) (s : Pending) : QueueCall q → Pending
  | .enqueuePriority msg => ⟨s.server.enqueuePriority q msg, s.arrivals ++ [msg]⟩
  | .dequeue =>
    match s.server.dequeue q with
    | (none, server) => ⟨server, s.arrivals⟩
    | (some msg, server) => ⟨server, s.arrivals.erase msg⟩
  | .removeExpired isExpired callback =>
    ⟨s.server.removeExpired q isExpired callback.onExpired,
      s.arrivals.filter fun m => !isExpired (s.server.msgs.read m)⟩

/-! ## The order of the queue -/

namespace Server

def priorityKey (s : Server) (m : MsgRef) : ℕ := (s.priorityOf m).toNat

theorem ready_enqueuePriority (s : Server) (q : GoString) (m : MsgRef) :
    (s.enqueuePriority q m).ready q = insertByKey s.priorityKey m (s.ready q) :=
  (s.ready_set q _).trans (insertByPriority_eq _ m _)

theorem dequeue_of_nil {s : Server} {q : GoString} (h : s.ready q = []) :
    s.dequeue q = (none, s) := by
  unfold dequeue
  rw [h]

theorem dequeue_of_cons {s : Server} {q : GoString} {m : MsgRef} {queue : List MsgRef}
    (h : s.ready q = m :: queue) :
    s.dequeue q = (some m, { s with store := s.store.set q queue }) := by
  unfold dequeue
  rw [h]

theorem removeExpired_spec (s : Server) {q : GoString} (isExpired : Message → Bool)
    (callback : FrameCallback q) :
    (s.removeExpired q isExpired callback.onExpired).ready q =
        (s.ready q).filter (fun m => !isExpired (s.msgs.read m)) ∧
      (s.removeExpired q isExpired callback.onExpired).priorityOf = s.priorityOf := by
  unfold removeExpired
  split
  · next h => exact ⟨by rw [h]; rfl, rfl⟩
  · refine List.foldlRecOn _ _ (motive := fun u : Server =>
      u.ready q = (s.ready q).filter (fun m => !isExpired (s.msgs.read m)) ∧
        u.priorityOf = s.priorityOf) ⟨s.ready_set q _, rfl⟩ fun u hu m _ => ?_
    exact ⟨(callback.ready u m).trans hu.1, (callback.priorityOf u m).trans hu.2⟩

end Server

def Disciplined (q : GoString) (s : Pending) : Prop :=
  StableOrder s.server.priorityKey s.arrivals (s.server.ready q)

theorem Disciplined.dequeue {q : GoString} {s : Pending} (h : Disciplined q s) :
    (s.arrivals = [] ∧ s.server.dequeue q = (none, s.server)) ∨
      ∃ m server, s.server.dequeue q = (some m, server) ∧
        FirstHighest s.server.priorityKey s.arrivals m (s.arrivals.erase m) ∧
        Disciplined q ⟨server, s.arrivals.erase m⟩ := by
  unfold Disciplined at h
  cases hq : s.server.ready q with
  | nil => exact .inl ⟨h.eq_nil_iff.mp hq, Server.dequeue_of_nil hq⟩
  | cons m queue =>
    rw [hq] at h
    obtain ⟨rest, hfirst, hrest⟩ := h.pop
    obtain rfl := hfirst.erase_eq
    refine .inr ⟨m, _, Server.dequeue_of_cons hq, hfirst, ?_⟩
    unfold Disciplined
    rw [s.server.ready_set q queue]
    exact hrest

theorem Disciplined.step {q : GoString} {s : Pending} (h : Disciplined q s) (call : QueueCall q) :
    Disciplined q (s.step q call) := by
  cases call with
  | enqueuePriority msg =>
    unfold Disciplined Pending.step
    rw [Server.ready_enqueuePriority]
    exact h.insert msg
  | dequeue =>
    unfold Pending.step
    rcases h.dequeue with ⟨-, hnone⟩ | ⟨m, server, hsome, -, hnext⟩
    · rw [hnone]
      exact h
    · rw [hsome]
      exact hnext
  | removeExpired isExpired callback =>
    obtain ⟨hready, hprio⟩ := s.server.removeExpired_spec isExpired callback
    unfold Disciplined Pending.step Server.priorityKey
    dsimp only
    rw [hready, hprio]
    exact h.filter _

/-- After every run on a queue that was empty: the queue holds exactly the messages that were put in
and neither taken out nor found expired, and `Dequeue` returns, of these, the one of the highest
priority that was put in earliest. -/
theorem priorityDiscipline (q : GoString) (server : Server) (hempty : server.ready q = [])
    (calls : List (QueueCall q)) :
    ((calls.foldl (Pending.step q) ⟨server, []⟩).server.ready q).Perm
        (calls.foldl (Pending.step q) ⟨server, []⟩).arrivals ∧
      match ((calls.foldl (Pending.step q) ⟨server, []⟩).server.dequeue q).1 with
      | none => (calls.foldl (Pending.step q) ⟨server, []⟩).arrivals = []
      | some m => FirstHighest (calls.foldl (Pending.step q) ⟨server, []⟩).server.priorityKey
          (calls.foldl (Pending.step q) ⟨server, []⟩).arrivals m
          ((calls.foldl (Pending.step q) ⟨server, []⟩).arrivals.erase m) := by
  have hstart : Disciplined q ⟨server, []⟩ := by
    unfold Disciplined
    rw [hempty]
    exact .nil
  have hend : Disciplined q (calls.foldl (Pending.step q) ⟨server, []⟩) :=
    List.foldlRecOn _ _ hstart fun s hs call _ => hs.step call
  generalize calls.foldl (Pending.step q) ⟨server, []⟩ = s at hend ⊢
  refine ⟨hend.perm, ?_⟩
  rcases hend.dequeue with ⟨harrivals, hnone⟩ | ⟨m, server', hsome, hfirst, -⟩
  · rw [hnone]
    exact harrivals
  · rw [hsome]
    exact hfirst

def threeMessages : Server :=
  { newServer with
    msgs := ((Heap.empty.alloc (newMessage [] { priority := 1 })).alloc
      (newMessage [] { priority := 5 })).alloc (newMessage [] { priority := 5 }) }

def threeCalls : List (QueueCall (str "p")) :=
  [.enqueuePriority 0, .enqueuePriority 1, .enqueuePriority 2,
    .removeExpired (fun _ => false) ⟨fun s _ => s, fun _ _ => rfl, fun _ _ => rfl⟩]

/-- The second comes out first. -/
theorem priorityDiscipline_three :
    threeMessages.ready (str "p") = [] ∧
      ((threeCalls.foldl (Pending.step (str "p")) ⟨threeMessages, []⟩).server.dequeue (str "p")).1 =
        some 1 ∧
      FirstHighest threeMessages.priorityKey [0, 1, 2] 1 [0, 2] := by
  have hempty : threeMessages.ready (str "p") = [] := rfl
  have hout : ((threeCalls.foldl (Pending.step (str "p")) ⟨threeMessages, []⟩).server.dequeue
      (str "p")).1 = some 1 := by decide +kernel
  have hfirst := (priorityDiscipline (str "p") threeMessages hempty threeCalls).2
  rw [hout] at hfirst
  exact ⟨hempty, hout, hfirst⟩

end Gomq.Broker
