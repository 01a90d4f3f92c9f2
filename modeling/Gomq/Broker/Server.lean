import Gomq.Wire.Frame
import Gomq.Broker.Routing

/-!
# The state of the broker

All managers of one `Server` and the objects reached from it. Messages, channels, connections and
consumer groups are mutable records shared through pointers, so they live in heaps. What a
connection wrote to its client is kept in `Connection.out`.

The model is of a server without a metadata store. Metrics are counted and never read back; they
are left out.
-/

namespace Gomq.Broker

open Wire

abbrev ChanRef := ℕ
abbrev ConnRef := ℕ
abbrev GroupRef := ℕ

/-- Choices of the runtime that the code cannot see: the time, the order in which a range over a
map visits the keys, and how `%v` prints kinds that no argument check distinguishes. -/
structure Env where
  now : ℕ
  tagOrder : List UInt64 → List UInt64
  tagOrder_perm : ∀ l, (tagOrder l).Perm l
  nameOrder : List GoString → List GoString
  nameOrder_perm : ∀ l, (nameOrder l).Perm l
  sprint : Value → GoString

instance : Inhabited Env := ⟨⟨0, id, fun _ => .rfl, id, fun _ => .rfl, fun _ => []⟩⟩

inductive GoError where
  | read (e : ReadError)
  | frame (e : FrameError)
  /-- A write to a connection that is gone. -/
  | write
  /-- `access refused` -/
  | accessDenied
  /-- `consumer tag %q already exists` -/
  | consumerTagExists (tag : GoString)
  /-- `queue %q already has exclusive consumer` -/
  | exclusiveConsumer (queue : GoString)
  /-- `exchange loop detected: %s` -/
  | exchangeLoop (exchange : GoString)
  /-- `exchange %q not found` -/
  | exchangeNotFound (exchange : GoString)
  /-- `exchange bind cycle detected: %s→%s` -/
  | bindCycle (source destination : GoString)
  /-- `expected method frame, got %d` -/
  | expectedMethodFrame (type : UInt8)
  /-- `read class-id: %w` -/
  | readClassID (e : ReadError)
  /-- `read method-id: %w` -/
  | readMethodID (e : ReadError)
  /-- `no handler for %d.%d` -/
  | noHandler (classID methodID : UInt16)
  deriving DecidableEq

/-! ## Connections and channels -/

inductive ConnState where
  | init
  | header
  | start
  | tune
  | open
  | closing
  | closed
  deriving DecidableEq

/-- The socket: absent (`raw == nil`), taking writes, or closed. -/
inductive RawConn where
  | absent
  | up
  | down
  deriving DecidableEq

structure Connection where
  raw : RawConn
  state : ConnState
  channels : GoMap UInt16 ChanRef
  maxCh : UInt16
  username : GoString
  vhost : GoString
  out : List Frame

/-- `NewConnection`: no channel exists, and the channel manager allows 2048. -/
def newConnection (raw : RawConn) : Connection where
  raw := raw
  state := .init
  channels := ∅
  maxCh := 2048
  username := []
  vhost := []
  out := []

instance : Inhabited Connection := ⟨newConnection .absent⟩

inductive ChanState where
  | opening
  | open
  | flow
  | closing
  | closed
  deriving DecidableEq

structure TxEntry where
  exchange : GoString
  routingKey : GoString
  msg : MsgRef

structure Channel where
  id : UInt16
  conn : ConnRef
  state : ChanState
  flowOn : Bool
  confirmMode : Bool
  deliveryTag : UInt64
  txMode : Bool
  txPending : List TxEntry

def newChannel (id : UInt16) (conn : ConnRef) : Channel where
  id := id
  conn := conn
  state := .opening
  flowOn := true
  confirmMode := false
  deliveryTag := 0
  txMode := false
  txPending := []

instance : Inhabited Channel := ⟨newChannel 0 0⟩

/-! ## Consumers, deliveries and limits -/

structure Consumer where
  tag : GoString
  queueName : GoString
  channel : Option ChanRef
  autoAck : Bool
  exclusive : Bool
  args : Table
  groupID : GoString

/-- How a group picks a member; the round-robin counter is part of the strategy. -/
inductive Strategy where
  | roundRobin (idx : UInt64)
  | hash
  deriving DecidableEq

structure ConsumerGroup where
  id : GoString
  queue : GoString
  strategy : Strategy
  members : List Consumer

instance : Inhabited ConsumerGroup := ⟨⟨[], [], .roundRobin 0, []⟩⟩

structure ConsumerGroupManager where
  heap : Heap ConsumerGroup
  byID : GoMap GoString GroupRef
  byQueue : GoMap GoString (List GroupRef)

structure ConsumerManager where
  byQueue : GoMap GoString (List Consumer)
  byTag : GoMap GoString Consumer
  groupMgr : Option ConsumerGroupManager

structure TrackedDelivery where
  deliveryTag : UInt64
  msg : MsgRef
  queueName : GoString
  channelID : UInt16
  deriving DecidableEq

abbrev DeliveryTracker := GoMap UInt16 (GoMap UInt64 TrackedDelivery)

structure DeliveryItem where
  msg : MsgRef
  queueName : GoString
  tag : UInt64
  deriving DecidableEq

structure DeliveryBatch where
  ch : ChanRef
  items : List DeliveryItem

/-- One hand-over of a message by the deliverer: who received it, and the tag and the channel
number it was recorded under. -/
structure Delivery where
  consumer : Consumer
  msg : MsgRef
  queueName : GoString
  tag : UInt64
  channelID : UInt16

structure PrefetchLimit where
  count : UInt16
  size : UInt32
  global : Bool
  deriving DecidableEq

structure Prefetch where
  globalLimit : Option PrefetchLimit
  limits : GoMap UInt16 PrefetchLimit

structure ExchangeStats where
  in_ : ℤ
  out : ℤ
  deriving DecidableEq

structure Queue where
  name : GoString
  durable : Bool
  exclusive : Bool
  autoDelete : Bool
  args : Table
  owner : Option ConnRef

/-- An access rule; `*` in a field matches everything. -/
structure Rule where
  user : GoString
  vhost : GoString
  resourceType : GoString
  resourceName : GoString
  permission : GoString
  allow : Bool
  deriving DecidableEq

/-! ## The server -/

structure Server where
  msgs : Heap Message
  chans : Heap Channel
  conns : Heap Connection
  exchanges : GoMap GoString Exchange
  queues : GoMap GoString Queue
  bindings : BindingManager
  e2eBindings : E2EBindingManager
  store : GoMap GoString (List MsgRef)
  consumers : ConsumerManager
  batches : GoMap UInt16 DeliveryBatch
  /-- The history of `deliverTo`. No function reads it. -/
  delivered : List Delivery
  tracker : DeliveryTracker
  prefetch : Prefetch
  paused : GoMap UInt16 Bool
  stats : GoMap GoString ExchangeStats
  aclMgr : Option (List Rule)

def defaultExchanges : GoMap GoString Exchange :=
  [(str "", ExchangeType.direct), (str "amq.direct", .direct), (str "amq.fanout", .fanout),
    (str "amq.topic", .topic), (str "amq.headers", .headers), (str "amq.match", .headers)].foldl
    (fun m e => m.set e.1 ⟨e.1, e.2, true, false, false, []⟩) ∅

def newServer : Server where
  msgs := Heap.empty
  chans := Heap.empty
  conns := Heap.empty
  exchanges := defaultExchanges
  queues := ∅
  bindings := ⟨∅, ∅⟩
  e2eBindings := ∅
  store := ∅
  consumers := ⟨∅, ∅, some ⟨Heap.empty, ∅, ∅⟩⟩
  batches := ∅
  delivered := []
  tracker := ∅
  prefetch := ⟨none, ∅⟩
  paused := ∅
  stats := ∅
  aclMgr := none

abbrev Outcome := Option GoError × Server

namespace Server

def sendFrame (s : Server) (c : ConnRef) (f : Frame) : Outcome :=
  match (s.conns.read c).raw with
  | .absent => (none, s)
  | .down =>
    match encodeFrame f with
    | .error e => (some (.frame e), s)
    | .ok _ => (some .write, s)
  | .up =>
    match encodeFrame f with
    | .error e => (some (.frame e), s)
    | .ok _ => (none, { s with conns := s.conns.modify c fun k => { k with out := k.out ++ [f] } })

/-- `Channel.SendFrame` of a method frame. -/
def sendMethod (s : Server) (ch : ChanRef) (payload : Bytes) : Outcome :=
  s.sendFrame (s.chans.read ch).conn ⟨frameMethod, (s.chans.read ch).id, payload⟩

/-- A reply whose send error is dropped (`_ = ch.SendFrame(..)`). -/
def reply (s : Server) (ch : ChanRef) (payload : Bytes) : Server := (s.sendMethod ch payload).2

def modifyChan (s : Server) (ch : ChanRef) (f : Channel → Channel) : Server :=
  { s with chans := s.chans.modify ch f }

def modifyMsg (s : Server) (m : MsgRef) (f : Message → Message) : Server :=
  { s with msgs := s.msgs.modify m f }

end Server

end Gomq.Broker
