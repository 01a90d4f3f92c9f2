import Gomq.Broker.Effects

/-!
# The expiry scan

The expiration manager goes over all queues of the store. From each it takes out the messages that
have expired and hands them to the dead-letter exchange of the queue, if it has one. Nothing else
of the broker is written but what a dead letter writes (`framed_scanAll`).
-/

namespace Gomq.Broker

open Wire

inductive DeadLetterReason where
  | rejected
  | expired
  | maxlen
  deriving DecidableEq

/-- `ShouldDeadLetter`; no caller passes the empty reason. -/
def shouldDeadLetter (args : Table) (_ : DeadLetterReason) : Bool :=
  (getDeadLetterConfig args).isSome

namespace Server

/-- `RemoveExpired`: the queue keeps the messages that are alive, and then each expired one is
handed to the callback. An empty queue is not written. -/
def removeExpired (s : Server) (queueName : GoString) (isExpired : Message → Bool)
    (onExpired : Server → MsgRef → Server) : Server :=
  match s.ready queueName with
  | [] => s
  | q =>
    let expired := q.filter fun m => isExpired (s.msgs.read m)
    let alive := q.filter fun m => !isExpired (s.msgs.read m)
    expired.foldl onExpired { s with store := s.store.set queueName alive }

def onExpired (env : Env) (queueArgs : Table) (s : Server) (msg : MsgRef) : Server :=
  if shouldDeadLetter queueArgs .expired then deadLetter env msg queueArgs s else s

def scanQueue (env : Env) (s : Server) (queueName : GoString) : Server :=
  s.removeExpired queueName (fun msg => isExpired env.now msg (s.queueArgs queueName))
    (onExpired env (s.queueArgs queueName))

/-- One round of the scan, over the queues of the store in the order a range visits them. -/
def scanAll (env : Env) (s : Server) : Server :=
  (env.nameOrder s.store.keys).foldl (scanQueue env) s

/-! ## What a scan keeps -/

section Scan

variable {P : Server → Prop} {env : Env}

theorem scanQueue_inv
    (hcut : ∀ s q l, P s → l.Sublist (s.ready q) → P { s with store := s.store.set q l })
    (hdead : ∀ s u m q, m ∈ s.ready q → P s → P u → P (deadLetter env m (s.queueArgs q) u))
    {s : Server} (hs : P s) (q : GoString) : P (s.scanQueue env q) := by
  unfold scanQueue removeExpired
  split
  · exact hs
  · refine List.foldlRecOn _ _ (hcut s q _ hs List.filter_sublist) fun u hu m hm => ?_
    unfold onExpired
    split
    · exact hdead s u m q (List.mem_of_mem_filter hm) hs hu
    · exact hu

theorem scanAll_inv
    (hcut : ∀ s q l, P s → l.Sublist (s.ready q) → P { s with store := s.store.set q l })
    (hdead : ∀ s u m q, m ∈ s.ready q → P s → P u → P (deadLetter env m (s.queueArgs q) u))
    {s : Server} (hs : P s) : P (s.scanAll env) :=
  List.foldlRecOn _ _ hs fun _ hu q _ => scanQueue_inv hcut hdead hu q

theorem framed_scanAll (env : Env) (s : Server) : Framed s (s.scanAll env) :=
  scanAll_inv (P := Framed s)
    (fun _ _ _ hu _ => hu.trans ⟨rfl, rfl, rfl, rfl, rfl, rfl, rfl, rfl, rfl, rfl⟩)
    (fun _ u m _ _ _ hu => hu.trans (framed_deadLetter env m _ u)) (Framed.refl s)

end Scan

end Server

end Gomq.Broker
