import Gomq.Wire.Codec

/-!
# Messages, time-to-live and queue arguments

The clock is a number of nanoseconds; the zero `time.Time` is `none`. A `time.Duration` is an
`Int64`, so its arithmetic wraps.
-/

namespace Gomq.Broker

open Wire

/-- A reference to a message: queues, tracker and transactions share the record behind it. -/
abbrev MsgRef := ℕ

/-- A point in time, `none` for the zero value. -/
abbrev Time := Option ℕ

structure Properties where
  contentType : GoString := []
  contentEncoding : GoString := []
  headers : Table := []
  deliveryMode : UInt8 := 0
  priority : UInt8 := 0
  correlationID : GoString := []
  replyTo : GoString := []
  expiration : GoString := []
  messageID : GoString := []
  timestamp : Time := none
  type : GoString := []
  userID : GoString := []
  appID : GoString := []
  clusterID : GoString := []

structure Message where
  payload : Bytes
  properties : Properties
  exchange : GoString := []
  routingKey : GoString := []
  deliveryTag : UInt64 := 0
  enqueuedAt : Time := none

def newMessage (payload : Bytes) (props : Properties) : Message :=
  { payload := payload, properties := props }

instance : Inhabited Message := ⟨newMessage [] {}⟩

def Message.setDeliveryTag (m : Message) (tag : UInt64) : Message := { m with deliveryTag := tag }

def Message.setEnqueuedAt (m : Message) (t : Time) : Message := { m with enqueuedAt := t }

def Message.setRoutingMeta (m : Message) (ex key : GoString) : Message :=
  { m with exchange := ex, routingKey := key }

/-! ## Numbers in arguments -/

/-- The conversion `int64(n)`, equally `int(n)`, of a value of any numeric kind. For a float out of
range Go leaves the result to the implementation; here it wraps around. -/
def asInt64 : Value → Option Int64
  | .int v => some v
  | .int8 v => some v.toInt64
  | .int16 v => some v.toInt64
  | .int32 v => some v.toInt64
  | .int64 v => some v
  | .uint v => some v.toInt64
  | .uint8 v => some v.toUInt64.toInt64
  | .uint16 v => some v.toUInt64.toInt64
  | .uint32 v => some v.toUInt64.toInt64
  | .uint64 v => some v.toInt64
  | .float32 v => some (Int64.ofInt (truncFloat v))
  | .float64 v => some (Int64.ofInt (truncFloat v))
  | _ => none

theorem toInt64_eq_ofInt (w : UInt64) : w.toInt64 = Int64.ofInt w.toNat := by
  rw [← Int64.toInt_inj, Int64.toInt_ofInt, Int64.toInt, UInt64.toBitVec_toInt64,
    BitVec.toInt_eq_toNat_bmod]
  rfl

def asRat : Value → Option ℚ
  | .int v => some v.toInt
  | .int8 v => some v.toInt
  | .int16 v => some v.toInt
  | .int32 v => some v.toInt
  | .int64 v => some v.toInt
  | .uint v => some v.toNat
  | .uint8 v => some v.toNat
  | .uint16 v => some v.toNat
  | .uint32 v => some v.toNat
  | .uint64 v => some v.toNat
  | .float32 v => some v
  | .float64 v => some v
  | _ => none

/-! ## Time to live -/

/-- `strconv.ParseInt(s, 10, 64)`; every error is `none`. -/
def parseInt (s : GoString) : Option ℤ :=
  let neg := s.head? == some 0x2d
  let ds := if neg || s.head? == some 0x2b then s.tail else s
  if ds.isEmpty || ds.any (fun c => c < 0x30 || 0x39 < c) then none
  else
    let n : ℕ := ds.foldl (fun a c => a * 10 + (c.toNat - 0x30)) 0
    if neg then if n ≤ 2 ^ 63 then some (-n) else none
    else if n < 2 ^ 63 then some n else none

/-- `time.Duration(n) * time.Millisecond`. -/
def milliseconds (n : Int64) : Int64 := n * 1000000

def messageTTL (msg : Message) : Int64 :=
  if msg.properties.expiration = [] then 0
  else
    match parseInt msg.properties.expiration with
    | none => 0
    | some ms => milliseconds (Int64.ofInt ms)

def queueTTL (args : Table) : Int64 :=
  match args.get (str "x-message-ttl") with
  | none => 0
  | some v =>
    match asInt64 v with
    | none => 0
    | some n => milliseconds n

/-- `time.Since(t)`, which saturates. -/
def since (now t : ℕ) : Int64 :=
  Int64.ofInt (max (-(2 ^ 63)) (min ((now : ℤ) - t) (2 ^ 63 - 1)))

def isExpired (now : ℕ) (msg : Message) (queueArgs : Table) : Bool :=
  let ttl := if messageTTL msg = 0 then queueTTL queueArgs else messageTTL msg
  match msg.enqueuedAt with
  | none => false
  | some t => if ttl = 0 then false else ttl ≤ since now t

/-! ## Dead letters, length limits and priorities -/

structure DeadLetterConfig where
  exchange : GoString
  routingKey : GoString

def getDeadLetterConfig (args : Table) : Option DeadLetterConfig :=
  match args.get (str "x-dead-letter-exchange") with
  | some (.string exName) =>
    if exName = [] then none
    else
      match args.get (str "x-dead-letter-routing-key") with
      | some (.string rk) => some ⟨exName, rk⟩
      | _ => some ⟨exName, []⟩
  | _ => none

def maxLength (args : Table) : Int64 :=
  match args.get (str "x-max-length") with
  | none => 0
  | some v => (asInt64 v).getD 0

def maxPriority (args : Table) : UInt8 :=
  match args.get (str "x-max-priority") with
  | none => 0
  | some v =>
    match asRat v with
    | none => 0
    | some n => if 0 < n ∧ n ≤ 255 then UInt8.ofInt (truncFloat n) else 0

def insertByPriority (priority : MsgRef → UInt8) (msg : MsgRef) : List MsgRef → List MsgRef
  | [] => [msg]
  | m :: queue =>
    if priority m < priority msg then msg :: m :: queue
    else m :: insertByPriority priority msg queue

end Gomq.Broker
