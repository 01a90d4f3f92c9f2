import Gomq.Broker.Store

/-!
# Consumers, consumer groups and the deliverer

`Deliver` hands a message to one member of each group and to every ungrouped consumer. Each
hand-over is recorded under delivery tag 0 and under the channel number that the caller passes,
which is the publisher's.
-/

namespace Gomq.Broker

open Wire

/-- The string under `k`, empty when there is none or it is of another type. -/
def stringArg (args : Table) (k : GoString) : GoString :=
  match args.get k with
  | some (.string v) => v
  | _ => []

/-! ## Groups -/

def newConsumerGroup (id queue strategyName : GoString) : ConsumerGroup where
  id := id
  queue := queue
  strategy := if strategyName = str "hash" then .hash else .roundRobin 0
  members := []

def fnv64a (key : GoString) : UInt64 :=
  key.foldl (fun h b => (h ^^^ b.toUInt64) * 1099511628211) 14695981039346656037

/-- `Strategy.Select`: the member and the strategy afterwards. -/
def Strategy.select (st : Strategy) (members : List Consumer) (key : GoString) :
    Option Consumer × Strategy :=
  match members, st with
  | [], st => (none, st)
  | c :: cs, .roundRobin idx =>
    ((c :: cs)[(idx % UInt64.ofNat (c :: cs).length).toNat]?, .roundRobin (idx + 1))
  | c :: cs, .hash => ((c :: cs)[(fnv64a key % UInt64.ofNat (c :: cs).length).toNat]?, .hash)

namespace ConsumerGroupManager

def join (m : ConsumerGroupManager) (id queue : GoString) (c : Consumer) (strategy : GoString) :
    ConsumerGroupManager :=
  let add := fun g : ConsumerGroup => { g with members := g.members ++ [c] }
  match m.byID.get id with
  | some g => { m with heap := m.heap.modify g add }
  | none =>
    { heap := m.heap.alloc (add (newConsumerGroup id queue strategy))
      byID := m.byID.set id m.heap.next
      byQueue := m.byQueue.set queue (m.byQueue.getD queue [] ++ [m.heap.next]) }

/-- `Leave`: the first group, in range order, that has the tag loses that member, and is
deleted when it was the last one. -/
def leave (env : Env) (m : ConsumerGroupManager) (tag : GoString) : ConsumerGroupManager :=
  let hit := fun c : Consumer => c.tag == tag
  let found := (env.nameOrder m.byID.keys).find? fun id =>
    match m.byID.get id with
    | some g => (m.heap.read g).members.any hit
    | none => false
  match found with
  | none => m
  | some id =>
    match m.byID.get id with
    | none => m
    | some g =>
      let grp := m.heap.read g
      let members := grp.members.eraseP hit
      let m := { m with heap := m.heap.modify g fun x => { x with members := members } }
      if members.isEmpty then
        { m with
          byID := m.byID.del id
          byQueue := m.byQueue.set grp.queue
            ((m.byQueue.getD grp.queue []).eraseP fun r => (m.heap.read r).id == id) }
      else m

def select (m : ConsumerGroupManager) (groupID routingKey : GoString) :
    Option Consumer × ConsumerGroupManager :=
  match m.byID.get groupID with
  | none => (none, m)
  | some g =>
    let grp := m.heap.read g
    let r := grp.strategy.select grp.members routingKey
    (r.1, { m with heap := m.heap.modify g fun x => { x with strategy := r.2 } })

end ConsumerGroupManager

/-! ## Subscriptions -/

namespace Server

def getConsumers (s : Server) (queueName : GoString) : List Consumer :=
  s.consumers.byQueue.getD queueName []

def subscribe (s : Server) (tag queueName : GoString) (ch : Option ChanRef)
    (autoAck exclusive : Bool) (args : Table) : Outcome :=
  if (s.consumers.byTag.get tag).isSome then (some (.consumerTagExists tag), s)
  else if exclusive && (s.getConsumers queueName).any (·.exclusive) then
    (some (.exclusiveConsumer queueName), s)
  else
    let groupID := stringArg args (str "x-group-id")
    let named := stringArg args (str "x-group-strategy")
    let strategy := if named = [] then str "round-robin" else named
    let c : Consumer := ⟨tag, queueName, ch, autoAck, exclusive, args, groupID⟩
    let groupMgr :=
      if groupID = [] then s.consumers.groupMgr
      else s.consumers.groupMgr.map fun gm => gm.join groupID queueName c strategy
    (none,
      { s with
        consumers :=
          { byQueue := s.consumers.byQueue.set queueName (s.getConsumers queueName ++ [c])
            byTag := s.consumers.byTag.set tag c
            groupMgr := groupMgr } })

/-- `Unsubscribe`; its caller drops the error for an unknown tag. -/
def unsubscribe (env : Env) (s : Server) (tag : GoString) : Server :=
  match s.consumers.byTag.get tag with
  | none => s
  | some c =>
    let groupMgr :=
      if c.groupID = [] then s.consumers.groupMgr
      else s.consumers.groupMgr.map fun gm => gm.leave env tag
    { s with
      consumers :=
        { byQueue := s.consumers.byQueue.set c.queueName
            ((s.getConsumers c.queueName).eraseP fun x => x.tag == tag)
          byTag := s.consumers.byTag.del tag
          groupMgr := groupMgr } }

/-! ## Deliverer -/

def batchMaxSize : ℕ := 64

/-- `getOrCreateBatch(channelID, ch).Add(..)`: a batch keeps the channel it was created with. A
full one is flushed, and a flush sends `nil` frames, which the channel drops. -/
def addToBatch (s : Server) (channelID : UInt16) (ch : ChanRef) (item : DeliveryItem) : Server :=
  let b := s.batches.getD channelID ⟨ch, []⟩
  let items := b.items ++ [item]
  let left := if batchMaxSize ≤ items.length then [] else items
  { s with batches := s.batches.set channelID ⟨b.ch, left⟩ }

def deliverTo (s : Server) (msg : MsgRef) (c : Consumer) (queueName : GoString)
    (channelID : UInt16) : Server :=
  let tag : UInt64 := 0
  let s := s.modifyMsg msg fun m => m.setDeliveryTag tag
  let s : Server := match c.channel with
    | some ch => s.addToBatch channelID ch ⟨msg, queueName, tag⟩
    | none => s
  let d : Delivery := ⟨c, msg, queueName, tag, channelID⟩
  let s : Server := { s with delivered := s.delivered ++ [d] }
  s.record tag msg queueName channelID

/-- One member of the group `gid`; without a group manager the first of its consumers. -/
def selectMember (s : Server) (list : List Consumer) (gid routingKey : GoString) :
    Option Consumer × Server :=
  match s.consumers.groupMgr with
  | some gm =>
    let r := gm.select gid routingKey
    (r.1, { s with consumers := { s.consumers with groupMgr := some r.2 } })
  | none => (list.find? fun c => c.groupID == gid, s)

def deliver (env : Env) (s : Server) (msg : MsgRef) (queueName : GoString)
    (channelID : UInt16) : Server :=
  let list := s.getConsumers queueName
  let gids := ((list.map (·.groupID)).filter (· ≠ [])).dedup
  let s := (env.nameOrder gids).foldl (fun s gid =>
    match s.selectMember list gid (s.msgs.read msg).routingKey with
    | (some c, s) => s.deliverTo msg c queueName channelID
    | (none, s) => s) s
  (list.filter fun c => c.groupID == []).foldl
    (fun s c => s.deliverTo msg c queueName channelID) s

end Server

end Gomq.Broker
