import Gomq.Broker.Server

/-!
# Message store, delivery tracker and pull consumers

The store keeps one list of message references a queue, the tracker the deliveries that wait for
an acknowledgement. `Basic.Get` makes a new pull consumer for each request, so each request
starts its tag sequence at zero.
-/

namespace Gomq.Broker

open Wire

namespace Server

/-! ## Message store -/

def ready (s : Server) (queueName : GoString) : List MsgRef := s.store.getD queueName []

def enqueue (s : Server) (queueName : GoString) (msg : MsgRef) : Server :=
  { s with store := s.store.set queueName (s.ready queueName ++ [msg]) }

def dequeue (s : Server) (queueName : GoString) : Option MsgRef × Server :=
  match s.ready queueName with
  | [] => (none, s)
  | msg :: q => (some msg, { s with store := s.store.set queueName q })

def enqueuePriority (s : Server) (queueName : GoString) (msg : MsgRef) : Server :=
  { s with
    store := s.store.set queueName
      (insertByPriority (fun m => (s.msgs.read m).properties.priority) msg (s.ready queueName)) }

def purge (s : Server) (queueName : GoString) : Server :=
  { s with store := s.store.del queueName }

/-! ## Delivery tracker -/

inductive TrackerError where
  /-- `channel %d has no deliveries` -/
  | noDeliveries (channelID : UInt16)
  /-- `delivery tag %d not found` -/
  | tagNotFound (deliveryTag : UInt64)
  deriving DecidableEq

/-- `Record`: whatever the tag held on this channel is replaced. -/
def record (s : Server) (deliveryTag : UInt64) (msg : MsgRef) (queueName : GoString)
    (channelID : UInt16) : Server :=
  let chMap := s.tracker.getD channelID ∅
  { s with
    tracker := s.tracker.set channelID
      (chMap.set deliveryTag ⟨deliveryTag, msg, queueName, channelID⟩) }

def getDelivery (s : Server) (deliveryTag : UInt64) (channelID : UInt16) :
    Option TrackedDelivery :=
  (s.tracker.get channelID).bind fun chMap => chMap.get deliveryTag

/-- `delete(chMap, deliveryTag)`. -/
def untrack (s : Server) (deliveryTag : UInt64) (channelID : UInt16) : Server :=
  { s with tracker := s.tracker.set channelID ((s.tracker.getD channelID ∅).del deliveryTag) }

def ack (s : Server) (deliveryTag : UInt64) (channelID : UInt16) :
    Option TrackerError × Server :=
  match s.tracker.get channelID with
  | none => (some (.noDeliveries channelID), s)
  | some chMap =>
    match chMap.get deliveryTag with
    | none => (some (.tagNotFound deliveryTag), s)
    | some _ => (none, s.untrack deliveryTag channelID)

def nack (s : Server) (deliveryTag : UInt64) (channelID : UInt16) (requeue : Bool) :
    Option TrackerError × Server :=
  match s.tracker.get channelID with
  | none => (some (.noDeliveries channelID), s)
  | some chMap =>
    match chMap.get deliveryTag with
    | none => (some (.tagNotFound deliveryTag), s)
    | some d =>
      let s := s.untrack deliveryTag channelID
      (none, if requeue then s.enqueue d.queueName d.msg else s)

def reject (s : Server) (deliveryTag : UInt64) (channelID : UInt16) (requeue : Bool) :
    Option TrackerError × Server :=
  s.nack deliveryTag channelID requeue

def rangeDeliveries (env : Env) (chMap : GoMap UInt64 TrackedDelivery) : List TrackedDelivery :=
  (env.tagOrder chMap.keys).filterMap chMap.get

def recoverAll (env : Env) (s : Server) (channelID : UInt16) (requeue : Bool) : ℕ × Server :=
  match s.tracker.get channelID with
  | none => (0, s)
  | some chMap =>
    let s' := if requeue then
        (rangeDeliveries env chMap).foldl (fun s d => s.enqueue d.queueName d.msg) s
      else s
    (chMap.keys.length, { s' with tracker := s'.tracker.del channelID })

end Server

/-! ## Pull consumers -/

structure PullConsumer where
  tagSeq : UInt64

def newPullConsumer : PullConsumer := ⟨0⟩

/-- The loop of `Get`: expired messages are dropped on the way. Each round takes a message out,
so one more round than messages is enough. -/
def getLoop (env : Env) (queueName : GoString) (queueArgs : Table) :
    ℕ → Server → Option MsgRef × Server
  | 0, s => (none, s)
  | n + 1, s =>
    match s.dequeue queueName with
    | (none, s) => (none, s)
    | (some msg, s) =>
      if isExpired env.now (s.msgs.read msg) queueArgs then getLoop env queueName queueArgs n s
      else (some msg, s)

def Server.queueArgs (s : Server) (queueName : GoString) : Table :=
  match s.queues.get queueName with
  | some q => q.args
  | none => []

def PullConsumer.get (env : Env) (pc : PullConsumer) (queueName : GoString) (autoAck : Bool)
    (channelID : UInt16) (s : Server) : Option MsgRef × PullConsumer × Server :=
  match getLoop env queueName (s.queueArgs queueName) ((s.ready queueName).length + 1) s with
  | (none, s) => (none, pc, s)
  | (some msg, s) =>
    if autoAck then (some msg, pc, s)
    else
      let tag := pc.tagSeq + 1
      let s := s.modifyMsg msg fun m => m.setDeliveryTag tag
      (some msg, ⟨tag⟩, s.record tag msg queueName channelID)

end Gomq.Broker
