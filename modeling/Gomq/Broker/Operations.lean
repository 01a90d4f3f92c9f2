import Gomq.Broker.Publisher

/-!
# The operations behind the methods

A handler decodes its arguments, checks access on the way, and then acts on the broker. This
module is the acting part: `Request` has one constructor for each method with arguments, and
`perform` is what the handler of that method does once the arguments are known. `exec` puts the
access check in front of it.
-/

namespace Gomq.Broker

open Wire

/-! ## Access control -/

def resExchange : GoString := str "exchange"
def resQueue : GoString := str "queue"
def permConfigure : GoString := str "configure"
def permWrite : GoString := str "write"
def permRead : GoString := str "read"

structure Access where
  resourceType : GoString
  resourceName : GoString
  permission : GoString
  deriving DecidableEq

def matchWildcard (pattern value : GoString) : Bool := pattern == str "*" || pattern == value

def Rule.matchesAccess (r : Rule) (user vhost : GoString) (a : Access) : Bool :=
  matchWildcard r.user user && matchWildcard r.vhost vhost &&
    matchWildcard r.resourceType a.resourceType &&
    matchWildcard r.resourceName a.resourceName && matchWildcard r.permission a.permission

/-- `ACLManager.Check`: the first rule that matches decides, and without one access is refused. -/
def checkRules (rules : List Rule) (user vhost : GoString) (a : Access) : Except GoError Unit :=
  match rules.find? fun r => r.matchesAccess user vhost a with
  | some r => if r.allow then .ok () else .error .accessDenied
  | none => .error .accessDenied

/-- The check of a handler; a server without an access manager allows everything. -/
def Server.check (s : Server) (ch : ChanRef) (a : Access) : Except GoError Unit :=
  match s.aclMgr with
  | none => .ok ()
  | some rules =>
    let conn := s.conns.read (s.chans.read ch).conn
    checkRules rules conn.username conn.vhost a

/-! ## Managers -/

def argsEqual (env : Env) (a b : Table) : Bool :=
  a.length == b.length && a.all fun kv =>
    match b.get kv.1 with
    | none => false
    | some bv => env.sprint kv.2 == env.sprint bv

def Queue.matchArgs (env : Env) (q : Queue) (durable exclusive autoDelete : Bool)
    (args : Table) : Bool :=
  q.durable == durable && q.exclusive == exclusive && q.autoDelete == autoDelete &&
    argsEqual env q.args args

/-- `SetChannelPrefetch`; the size has been cut to 16 bits by the caller. -/
def Prefetch.setChannelPrefetch (p : Prefetch) (channelID count size : UInt16)
    (global : Bool) : Prefetch :=
  if global then
    { globalLimit := some ⟨count, size.toUInt32, true⟩, limits := p.limits.del channelID }
  else { p with limits := p.limits.set channelID ⟨count, size.toUInt32, false⟩ }

namespace Server

/-- `QueueManager.Declare`; no queue when the name is taken with other arguments. -/
def declareQueue (env : Env) (s : Server) (name : GoString) (durable exclusive autoDelete : Bool)
    (args : Table) : Option Queue × Server :=
  match s.queues.get name with
  | some q => if q.matchArgs env durable exclusive autoDelete args then (some q, s) else (none, s)
  | none =>
    let q : Queue := ⟨name, durable, exclusive, autoDelete, args, none⟩
    (some q, { s with queues := s.queues.set name q })

/-- `ExchangeManager.Declare`; no exchange when the name is taken with another type. -/
def declareExchange (s : Server) (name : GoString) (exType : ExchangeType)
    (durable autoDelete internal : Bool) (args : Table) : Option Exchange × Server :=
  match s.exchanges.get name with
  | some ex => if ex.type = exType then (some ex, s) else (none, s)
  | none =>
    let ex : Exchange := ⟨name, exType, durable, autoDelete, internal, args⟩
    (some ex, { s with exchanges := s.exchanges.set name ex })

/-! ## Replies -/

def methodPayload (classID methodID : UInt16) (args : Bytes) : Bytes :=
  writeUint16 classID ++ writeUint16 methodID ++ args

def replyUnless (s : Server) (noWait : Bool) (ch : ChanRef) (payload : Bytes) : Server :=
  if noWait then s else s.reply ch payload

def confirmPayload (tag : UInt64) (ack : Bool) : Bytes :=
  methodPayload 60 (if ack then 80 else 120) (writeUint64 tag ++ writeUint8 0)

def sendPublisherConfirm (s : Server) (ch : ChanRef) (tag : UInt64) (ack : Bool) : Server :=
  s.reply ch (confirmPayload tag ack)

/-- `Basic.Return` for a mandatory message that went nowhere. -/
def sendReturn (s : Server) (ch : ChanRef) (exchange routingKey : GoString) (mandatory : Bool)
    (routed : ℕ) : Server :=
  if mandatory && routed == 0 then
    s.reply ch (methodPayload 60 50 (writeUint16 312 ++ writeShortString (str "NO_ROUTE") ++
      writeShortString exchange ++ writeShortString routingKey))
  else s

/-! ## Basic -/

def performQos (ch : ChanRef) (prefetchSize : UInt32) (prefetchCount : UInt16) (global : Bool)
    (s : Server) : Outcome :=
  let p := s.prefetch.setChannelPrefetch (s.chans.read ch).id prefetchCount
    prefetchSize.toUInt16 global
  (none, { s with prefetch := p }.reply ch (methodPayload 60 11 []))

def performConsume (ch : ChanRef) (queue tag : GoString) (noAck exclusive noWait : Bool)
    (args : Table) (s : Server) : Outcome :=
  match s.subscribe tag queue (some ch) noAck exclusive args with
  | (some e, s) => (some e, s)
  | (none, s) => (none, s.replyUnless noWait ch (methodPayload 60 21 (writeShortString tag)))

def performCancel (env : Env) (ch : ChanRef) (tag : GoString) (noWait : Bool) (s : Server) :
    Outcome :=
  (none, (s.unsubscribe env tag).replyUnless noWait ch
    (methodPayload 60 31 (writeShortString tag)))

/-- The message of a `Basic.Publish`: the handler reads no content frames. -/
def publishedMessage (exchange routingKey : GoString) : Message :=
  (newMessage [] {}).setRoutingMeta exchange routingKey

def stageTxPublish (s : Server) (ch : ChanRef) (e : TxEntry) : Server :=
  s.modifyChan ch fun c => { c with txPending := c.txPending ++ [e] }

/-- Staged in transaction mode; otherwise published, with a confirm in confirm mode. A publish
that fails returns before the confirm. -/
def performPublish (env : Env) (ch : ChanRef) (exchange routingKey : GoString)
    (mandatory : Bool) (s : Server) : Outcome :=
  let msg := s.msgs.next
  let s := { s with msgs := s.msgs.alloc (publishedMessage exchange routingKey) }
  let c := s.chans.read ch
  if c.txMode then
    (none, (s.stageTxPublish ch ⟨exchange, routingKey, msg⟩).sendReturn ch exchange routingKey
      mandatory 0)
  else if c.confirmMode then
    let tag := c.deliveryTag + 1
    let s := s.modifyChan ch fun c => { c with deliveryTag := tag }
    match s.publish env exchange routingKey msg c.id with
    | (.error e, s) => (some e, s)
    | (.ok routed, s) =>
      (none, (s.sendPublisherConfirm ch tag (decide (0 < routed))).sendReturn ch exchange
        routingKey mandatory routed)
  else
    match s.publish env exchange routingKey msg c.id with
    | (.error e, s) => (some e, s)
    | (.ok routed, s) => (none, s.sendReturn ch exchange routingKey mandatory routed)

def performGet (env : Env) (ch : ChanRef) (queue : GoString) (noAck : Bool) (s : Server) :
    Outcome :=
  match newPullConsumer.get env queue noAck (s.chans.read ch).id s with
  | (none, _, s) => (none, s.reply ch (methodPayload 60 72 (writeUint16 0)))
  | (some msg, _, s) =>
    (none, s.reply ch (methodPayload 60 71 (writeUint64 (s.msgs.read msg).deliveryTag ++
      writeBool false ++ writeShortString queue ++ writeUint16 0)))

def performAck (ch : ChanRef) (tag : UInt64) (s : Server) : Outcome :=
  (none, (s.ack tag (s.chans.read ch).id).2)

/-- Dead-letter a delivery that was refused for good, when its queue still exists. -/
def deadLetterRefused (env : Env) (d : Option TrackedDelivery) (requeue : Bool) (s : Server) :
    Server :=
  match requeue, d with
  | false, some d =>
    match s.queues.get d.queueName with
    | some q => deadLetter env d.msg q.args s
    | none => s
  | _, _ => s

def performNack (env : Env) (ch : ChanRef) (tag : UInt64) (requeue : Bool) (s : Server) :
    Outcome :=
  let id := (s.chans.read ch).id
  let d := s.getDelivery tag id
  (none, deadLetterRefused env d requeue (s.nack tag id requeue).2)

def performReject (env : Env) (ch : ChanRef) (tag : UInt64) (requeue : Bool) (s : Server) :
    Outcome :=
  let id := (s.chans.read ch).id
  let d := s.getDelivery tag id
  (none, deadLetterRefused env d requeue (s.reject tag id requeue).2)

def performRecover (env : Env) (ch : ChanRef) (requeue : Bool) (s : Server) : Outcome :=
  (none, (s.recoverAll env (s.chans.read ch).id requeue).2.reply ch (methodPayload 60 111 []))

/-! ## Queues -/

/-- A passive declare only looks the queue up. -/
def performQueueDeclare (env : Env) (ch : ChanRef) (queue : GoString)
    (passive durable exclusive autoDelete noWait : Bool) (args : Table) (s : Server) : Outcome :=
  let r := if passive then (s.queues.get queue, s)
    else s.declareQueue env queue durable exclusive autoDelete args
  match r with
  | (none, s) => (none, s)
  | (some q, s) =>
    (none, s.replyUnless noWait ch
      (methodPayload 50 11 (writeShortString q.name ++ writeUint32 0 ++ writeUint32 0)))

def performQueueBind (ch : ChanRef) (queue exchange routingKey : GoString) (noWait : Bool)
    (args : Table) (s : Server) : Outcome :=
  (none, { s with bindings := s.bindings.bind exchange queue routingKey args }.replyUnless
    noWait ch (methodPayload 50 21 []))

def performQueuePurge (ch : ChanRef) (queue : GoString) (noWait : Bool) (s : Server) : Outcome :=
  let count := UInt32.ofNat (s.ready queue).length
  (none, (s.purge queue).replyUnless noWait ch (methodPayload 50 31 (writeUint32 count)))

/-- Only the queue goes; its messages, bindings and consumers stay behind. -/
def performQueueDelete (ch : ChanRef) (queue : GoString) (noWait : Bool) (s : Server) : Outcome :=
  (none, { s with queues := s.queues.del queue }.replyUnless noWait ch
    (methodPayload 50 41 (writeUint32 0)))

def performQueueUnbind (ch : ChanRef) (queue exchange routingKey : GoString) (s : Server) :
    Outcome :=
  (none, { s with bindings := s.bindings.unbind exchange queue routingKey }.reply ch
    (methodPayload 50 51 []))

/-! ## Exchanges -/

/-- The type named in a declare; every unknown name is taken for `direct`. -/
def exchangeTypeOf (exType : GoString) : ExchangeType :=
  if exType = str "fanout" then .fanout else .direct

def performExchangeDeclare (ch : ChanRef) (exchange exType : GoString) (passive noWait : Bool)
    (args : Table) (s : Server) : Outcome :=
  let r := if passive then (s.exchanges.get exchange, s)
    else s.declareExchange exchange (exchangeTypeOf exType) false false false args
  match r with
  | (none, s) => (none, s)
  | (some _, s) => (none, s.replyUnless noWait ch (methodPayload 40 11 []))

def performExchangeDelete (ch : ChanRef) (exchange : GoString) (noWait : Bool) (s : Server) :
    Outcome :=
  (none, { s with
      exchanges := s.exchanges.del exchange
      e2eBindings := s.e2eBindings.unbindAllForExchange exchange }.replyUnless noWait ch
    (methodPayload 40 21 []))

def performExchangeBind (ch : ChanRef) (destination source routingKey : GoString)
    (noWait : Bool) (args : Table) (s : Server) : Outcome :=
  if s.e2eBindings.hasCycle source destination then (some (.bindCycle source destination), s)
  else
    (none, { s with
        e2eBindings := E2EBindingManager.bind s.e2eBindings source destination routingKey args
      }.replyUnless noWait ch (methodPayload 40 31 []))

def performExchangeUnbind (ch : ChanRef) (destination source routingKey : GoString)
    (noWait : Bool) (s : Server) : Outcome :=
  (none, { s with
      e2eBindings := E2EBindingManager.unbind s.e2eBindings source destination routingKey
    }.replyUnless noWait ch (methodPayload 40 51 []))

/-! ## Confirm -/

def performConfirmSelect (ch : ChanRef) (noWait : Bool) (s : Server) : Outcome :=
  (none, (s.modifyChan ch fun c => { c with confirmMode := true }).replyUnless noWait ch
    (methodPayload 85 11 []))

end Server

/-! ## Requests -/

/-- A method with its arguments, those the handlers ignore included. -/
inductive Request where
  | qos (prefetchSize : UInt32) (prefetchCount : UInt16) (global : Bool)
  | consume (queue tag : GoString) (noLocal noAck exclusive noWait : Bool) (args : Table)
  | cancel (tag : GoString) (noWait : Bool)
  | publish (exchange routingKey : GoString) (mandatory immediate : Bool)
  | get (queue : GoString) (noAck : Bool)
  | ack (tag : UInt64)
  | reject (tag : UInt64) (requeue : Bool)
  | recover (requeue : Bool)
  | nack (tag : UInt64) (requeue : Bool)
  | queueDeclare (queue : GoString) (passive durable exclusive autoDelete noWait : Bool)
      (args : Table)
  | queueBind (queue exchange routingKey : GoString) (noWait : Bool) (args : Table)
  | queuePurge (queue : GoString) (noWait : Bool)
  | queueDelete (queue : GoString) (ifUnused ifEmpty noWait : Bool)
  | queueUnbind (queue exchange routingKey : GoString) (args : Table)
  | exchangeDeclare (exchange exType : GoString)
      (passive durable autoDelete internal noWait : Bool) (args : Table)
  | exchangeDelete (exchange : GoString) (ifUnused noWait : Bool)
  | exchangeBind (destination source routingKey : GoString) (noWait : Bool) (args : Table)
  | exchangeUnbind (destination source routingKey : GoString) (noWait : Bool)
  | confirmSelect (noWait : Bool)

namespace Request

def access : Request → Option Access
  | .consume queue .. => some ⟨resQueue, queue, permRead⟩
  | .publish exchange .. => some ⟨resExchange, exchange, permWrite⟩
  | .get queue .. => some ⟨resQueue, queue, permRead⟩
  | .queueDeclare queue .. => some ⟨resQueue, queue, permConfigure⟩
  | .queueBind queue .. => some ⟨resQueue, queue, permConfigure⟩
  | .queuePurge queue .. => some ⟨resQueue, queue, permConfigure⟩
  | .queueDelete queue .. => some ⟨resQueue, queue, permConfigure⟩
  | .queueUnbind queue .. => some ⟨resQueue, queue, permConfigure⟩
  | .exchangeDeclare exchange .. => some ⟨resExchange, exchange, permConfigure⟩
  | .exchangeDelete exchange .. => some ⟨resExchange, exchange, permConfigure⟩
  | .exchangeBind destination .. => some ⟨resExchange, destination, permConfigure⟩
  | .exchangeUnbind destination .. => some ⟨resExchange, destination, permConfigure⟩
  | .qos .. | .cancel .. | .ack .. | .reject .. | .recover .. | .nack .. | .confirmSelect .. =>
    none

end Request

def perform (env : Env) (ch : ChanRef) : Request → Server → Outcome
  | .qos size count global, s => s.performQos ch size count global
  | .consume queue tag _ noAck exclusive noWait args, s =>
    s.performConsume ch queue tag noAck exclusive noWait args
  | .cancel tag noWait, s => s.performCancel env ch tag noWait
  | .publish exchange key mandatory _, s => s.performPublish env ch exchange key mandatory
  | .get queue noAck, s => s.performGet env ch queue noAck
  | .ack tag, s => s.performAck ch tag
  | .reject tag requeue, s => s.performReject env ch tag requeue
  | .recover requeue, s => s.performRecover env ch requeue
  | .nack tag requeue, s => s.performNack env ch tag requeue
  | .queueDeclare queue passive durable exclusive autoDelete noWait args, s =>
    s.performQueueDeclare env ch queue passive durable exclusive autoDelete noWait args
  | .queueBind queue exchange key noWait args, s =>
    s.performQueueBind ch queue exchange key noWait args
  | .queuePurge queue noWait, s => s.performQueuePurge ch queue noWait
  | .queueDelete queue _ _ noWait, s => s.performQueueDelete ch queue noWait
  | .queueUnbind queue exchange key _, s => s.performQueueUnbind ch queue exchange key
  | .exchangeDeclare exchange exType passive _ _ _ noWait args, s =>
    s.performExchangeDeclare ch exchange exType passive noWait args
  | .exchangeDelete exchange _ noWait, s => s.performExchangeDelete ch exchange noWait
  | .exchangeBind destination source key noWait args, s =>
    s.performExchangeBind ch destination source key noWait args
  | .exchangeUnbind destination source key noWait, s =>
    s.performExchangeUnbind ch destination source key noWait
  | .confirmSelect noWait, s => s.performConfirmSelect ch noWait

def Server.permits (s : Server) (ch : ChanRef) (req : Request) : Except GoError Unit :=
  match req.access with
  | none => .ok ()
  | some a => s.check ch a

/-- A method run on given argument values: the access check, then the operation. -/
def exec (env : Env) (ch : ChanRef) (req : Request) (s : Server) : Outcome :=
  match s.permits ch req with
  | .error e => (some e, s)
  | .ok () => perform env ch req s

end Gomq.Broker
