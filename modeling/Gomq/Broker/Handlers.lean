import Gomq.Broker.Operations

/-!
# Handlers, registry and dispatcher

A handler decodes its payload from the first byte on. The dispatcher has read the class and the
method id from its own reader and passes the whole payload, the four id bytes included.
-/

namespace Gomq.Broker

open Wire

/-! ## Decoding -/

abbrev Decoder := StateT Bytes (Except GoError)

namespace Decoder

/-- `v, err := dec.Read..(); if err != nil { return err }`. -/
def read {α : Type} (r : Bytes → Read α) : Decoder α := fun bs =>
  match (r bs).orFail with
  | .ok p => .ok p
  | .error e => .error (.read e)

/-- `_, _ = dec.ReadUint16()`. -/
def skipUint16 : Decoder Unit := fun bs => .ok ((), (readUint16 bs).rest)

def uint8 : Decoder UInt8 := read readUint8
def uint16 : Decoder UInt16 := read readUint16
def uint32 : Decoder UInt32 := read readUint32
def uint64 : Decoder UInt64 := read readUint64
def shortString : Decoder GoString := read readShortString
def table : Decoder Table := read readTable

end Decoder

def bit (bits mask : UInt8) : Bool := bits &&& mask != 0

abbrev Check := Access → Except GoError Unit

open Decoder

/-! ## The argument decoders -/

def decodeQos (_ : Check) : Decoder Request := do
  let prefetchSize ← uint32
  let prefetchCount ← uint16
  let bits ← uint8
  pure (.qos prefetchSize prefetchCount (bit bits 0x01))

def decodeConsume (check : Check) : Decoder Request := do
  skipUint16
  let queue ← shortString
  check ⟨resQueue, queue, permRead⟩
  let tag ← shortString
  let bits ← uint8
  let args ← table
  pure (.consume queue tag (bit bits 0x01) (bit bits 0x02) (bit bits 0x04) (bit bits 0x08) args)

def decodeCancel (_ : Check) : Decoder Request := do
  let tag ← shortString
  let bits ← uint8
  pure (.cancel tag (bit bits 0x01))

def decodePublish (check : Check) : Decoder Request := do
  skipUint16
  let exchange ← shortString
  check ⟨resExchange, exchange, permWrite⟩
  let routingKey ← shortString
  let bits ← uint8
  pure (.publish exchange routingKey (bit bits 0x01) (bit bits 0x02))

def decodeGet (check : Check) : Decoder Request := do
  skipUint16
  let queue ← shortString
  check ⟨resQueue, queue, permRead⟩
  let bits ← uint8
  pure (.get queue (bit bits 0x01))

def decodeAck (_ : Check) : Decoder Request := do
  let tag ← uint64
  pure (.ack tag)

def decodeReject (_ : Check) : Decoder Request := do
  let tag ← uint64
  let bits ← uint8
  pure (.reject tag (bit bits 0x01))

def decodeRecover (_ : Check) : Decoder Request := do
  let bits ← uint8
  pure (.recover (bit bits 0x01))

def decodeNack (_ : Check) : Decoder Request := do
  let tag ← uint64
  let bits ← uint8
  pure (.nack tag (bit bits 0x01))

def decodeQueueDeclare (check : Check) : Decoder Request := do
  skipUint16
  let queue ← shortString
  check ⟨resQueue, queue, permConfigure⟩
  let bits ← uint8
  let args ← table
  pure (.queueDeclare queue (bit bits 0x01) (bit bits 0x02) (bit bits 0x04) (bit bits 0x08)
    (bit bits 0x10) args)

def decodeQueueBind (check : Check) : Decoder Request := do
  skipUint16
  let queue ← shortString
  let exchange ← shortString
  check ⟨resQueue, queue, permConfigure⟩
  let routingKey ← shortString
  let bits ← uint8
  let args ← table
  pure (.queueBind queue exchange routingKey (bit bits 0x01) args)

def decodeQueuePurge (check : Check) : Decoder Request := do
  skipUint16
  let queue ← shortString
  check ⟨resQueue, queue, permConfigure⟩
  let bits ← uint8
  pure (.queuePurge queue (bit bits 0x01))

def decodeQueueDelete (check : Check) : Decoder Request := do
  skipUint16
  let queue ← shortString
  check ⟨resQueue, queue, permConfigure⟩
  let bits ← uint8
  pure (.queueDelete queue (bit bits 0x01) (bit bits 0x02) (bit bits 0x04))

/-- `Queue.Unbind` has no flags, and always replies. -/
def decodeQueueUnbind (check : Check) : Decoder Request := do
  skipUint16
  let queue ← shortString
  check ⟨resQueue, queue, permConfigure⟩
  let exchange ← shortString
  let routingKey ← shortString
  let args ← table
  pure (.queueUnbind queue exchange routingKey args)

def decodeExchangeDeclare (check : Check) : Decoder Request := do
  skipUint16
  let exchange ← shortString
  check ⟨resExchange, exchange, permConfigure⟩
  let exType ← shortString
  let bits ← uint8
  let args ← table
  pure (.exchangeDeclare exchange exType (bit bits 0x01) (bit bits 0x02) (bit bits 0x04)
    (bit bits 0x08) (bit bits 0x10) args)

def decodeExchangeDelete (check : Check) : Decoder Request := do
  skipUint16
  let exchange ← shortString
  check ⟨resExchange, exchange, permConfigure⟩
  let bits ← uint8
  pure (.exchangeDelete exchange (bit bits 0x01) (bit bits 0x02))

def decodeExchangeBind (check : Check) : Decoder Request := do
  skipUint16
  let destination ← shortString
  let source ← shortString
  check ⟨resExchange, destination, permConfigure⟩
  let routingKey ← shortString
  let bits ← uint8
  let args ← table
  pure (.exchangeBind destination source routingKey (bit bits 0x01) args)

def decodeExchangeUnbind (check : Check) : Decoder Request := do
  skipUint16
  let destination ← shortString
  let source ← shortString
  check ⟨resExchange, destination, permConfigure⟩
  let routingKey ← shortString
  let bits ← uint8
  pure (.exchangeUnbind destination source routingKey (bit bits 0x01))

def decodeConfirmSelect (_ : Check) : Decoder Request := do
  let bits ← uint8
  pure (.confirmSelect (bit bits 0x01))

/-! ## Handlers -/

abbrev MethodHandler := Env → ChanRef → Bytes → Server → Outcome

/-- A handler with arguments: decode with the access check in its place, then act. -/
def handleWith (decode : Check → Decoder Request) : MethodHandler := fun env ch payload s =>
  match decode (s.check ch) payload with
  | .error e => (some e, s)
  | .ok (req, _) => perform env ch req s

def handleQos : MethodHandler := handleWith decodeQos
def handleConsume : MethodHandler := handleWith decodeConsume
def handleCancel : MethodHandler := handleWith decodeCancel
def handlePublish : MethodHandler := handleWith decodePublish
def handleGet : MethodHandler := handleWith decodeGet
def handleAck : MethodHandler := handleWith decodeAck
def handleReject : MethodHandler := handleWith decodeReject
def handleRecover : MethodHandler := handleWith decodeRecover
def handleNack : MethodHandler := handleWith decodeNack
def handleQueueDeclare : MethodHandler := handleWith decodeQueueDeclare
def handleQueueBind : MethodHandler := handleWith decodeQueueBind
def handleQueuePurge : MethodHandler := handleWith decodeQueuePurge
def handleQueueDelete : MethodHandler := handleWith decodeQueueDelete
def handleQueueUnbind : MethodHandler := handleWith decodeQueueUnbind
def handleExchangeDeclare : MethodHandler := handleWith decodeExchangeDeclare
def handleExchangeDelete : MethodHandler := handleWith decodeExchangeDelete
def handleExchangeBind : MethodHandler := handleWith decodeExchangeBind
def handleExchangeUnbind : MethodHandler := handleWith decodeExchangeUnbind
def handleConfirmSelect : MethodHandler := handleWith decodeConfirmSelect

/-! ## Channels and connections -/

namespace Server

/-- `Channel.Close` passes through `closing`. -/
def closeChannel (s : Server) (ch : ChanRef) : Server :=
  s.modifyChan ch fun c => { c with state := .closed }

/-- `Connection.Close`: the state is `closing` when the check for `open` is made, so the client
is sent nothing. -/
def closeConnection (s : Server) (c : ConnRef) : Server :=
  match (s.conns.read c).state with
  | .closing | .closed => s
  | _ =>
    let chs := (s.conns.read c).channels.vals
    let s := { s with
      conns := s.conns.modify c fun k => { k with state := .closing, channels := ∅ } }
    let s := chs.foldl closeChannel s
    { s with
      conns := s.conns.modify c fun k =>
        { k with raw := if k.raw = .absent then .absent else .down, state := .closed } }

end Server

def handleChannelOpen : MethodHandler := fun _ ch _ s =>
  (none, (s.modifyChan ch fun c => { c with state := .open }).reply ch
    (Server.methodPayload 20 11 []))

def handleChannelRecover : MethodHandler := fun env ch payload s =>
  match uint8 payload with
  | .error e => (some e, s)
  | .ok (bits, _) =>
    (none, (s.recoverAll env (s.chans.read ch).id (bit bits 0x01)).2.reply ch
      (Server.methodPayload 20 101 []))

def handleChannelFlow : MethodHandler := fun _ ch payload s =>
  match uint8 payload with
  | .error e => (some e, s)
  | .ok (bits, _) =>
    let active := bit bits 0x01
    let id := (s.chans.read ch).id
    let s := s.modifyChan ch fun c => { c with flowOn := active }
    let s := { s with paused := if active then s.paused.del id else s.paused.set id true }
    (none, s.reply ch (Server.methodPayload 20 21 (writeUint8 (if active then 1 else 0))))

def handleChannelClose : MethodHandler := fun _ ch _ s =>
  (none, (s.reply ch (Server.methodPayload 20 41 [])).closeChannel ch)

def handleChannelCloseOk : MethodHandler := fun _ _ _ s => (none, s)

def handleConnectionClose : MethodHandler := fun _ ch _ s =>
  let s := s.reply ch (Server.methodPayload 10 51 [])
  (none, s.closeConnection (s.chans.read ch).conn)

def handleConnectionCloseOk : MethodHandler := fun _ _ _ s => (none, s)

/-! ## Transactions -/

/-- `sendChannelClose` returns the error of the send, and closes the channel in any case. -/
def sendChannelClose (s : Server) (ch : ChanRef) (code : UInt16) (text detail : GoString) :
    Outcome :=
  let r := s.sendMethod ch (Server.methodPayload 20 40 (writeUint16 code ++
    writeShortString text ++ writeShortString detail ++ writeUint16 0 ++ writeUint16 0))
  (r.1, r.2.closeChannel ch)

def handleTxSelect : MethodHandler := fun _ ch _ s =>
  if (s.chans.read ch).confirmMode then
    sendChannelClose s ch 406 (str "PRECONDITION_FAILED")
      (str "transactions and publisher confirms are mutually exclusive")
  else
    (none, (s.modifyChan ch fun c => { c with txMode := true }).reply ch
      (Server.methodPayload 90 11 []))

/-- The commit loop: it returns at the first publish that fails. -/
def publishEntries (env : Env) (channelID : UInt16) : List TxEntry → Server → Outcome
  | [], s => (none, s)
  | e :: entries, s =>
    match s.publish env e.exchange e.routingKey e.msg channelID with
    | (.error err, s) => (some err, s)
    | (.ok _, s) => publishEntries env channelID entries s

/-- `CommitTx` takes the staged entries off the channel before the loop starts. -/
def handleTxCommit : MethodHandler := fun env ch _ s =>
  let c := s.chans.read ch
  let s := s.modifyChan ch fun c => { c with txPending := [] }
  match publishEntries env c.id c.txPending s with
  | (some e, s) => (some e, s)
  | (none, s) => (none, s.reply ch (Server.methodPayload 90 21 []))

def handleTxRollback : MethodHandler := fun _ ch _ s =>
  (none, (s.modifyChan ch fun c => { c with txPending := [] }).reply ch
    (Server.methodPayload 90 31 []))

/-! ## Registry and dispatcher -/

def registry : List ((UInt16 × UInt16) × MethodHandler) :=
  [((20, 10), handleChannelOpen), ((20, 100), handleChannelRecover),
   ((10, 50), handleConnectionClose), ((10, 51), handleConnectionCloseOk),
   ((20, 20), handleChannelFlow), ((20, 40), handleChannelClose),
   ((20, 41), handleChannelCloseOk),
   ((60, 10), handleQos), ((60, 20), handleConsume), ((60, 30), handleCancel),
   ((60, 40), handlePublish), ((60, 70), handleGet), ((60, 80), handleAck),
   ((60, 90), handleReject), ((60, 110), handleRecover), ((60, 120), handleNack),
   ((50, 10), handleQueueDeclare), ((50, 20), handleQueueBind), ((50, 30), handleQueuePurge),
   ((50, 40), handleQueueDelete), ((50, 50), handleQueueUnbind),
   ((40, 10), handleExchangeDeclare), ((40, 20), handleExchangeDelete),
   ((40, 30), handleExchangeBind), ((40, 40), handleExchangeUnbind),
   ((85, 10), handleConfirmSelect),
   ((90, 10), handleTxSelect), ((90, 20), handleTxCommit), ((90, 30), handleTxRollback)]

def lookup (classID methodID : UInt16) : Option MethodHandler :=
  registry.lookup (classID, methodID)

def dispatch (env : Env) (ch : ChanRef) (f : Frame) (s : Server) : Outcome :=
  if f.type ≠ frameMethod then (some (.expectedMethodFrame f.type), s)
  else
    match (readUint16 f.payload).orFail with
    | .error e => (some (.readClassID e), s)
    | .ok (classID, rest) =>
      match (readUint16 rest).orFail with
      | .error e => (some (.readMethodID e), s)
      | .ok (methodID, _) =>
        match lookup classID methodID with
        | none => (some (.noHandler classID methodID), s)
        | some handler => handler env ch f.payload s

end Gomq.Broker
