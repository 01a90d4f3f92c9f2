import Gomq.Broker.Operations

/-!
# The connection handshake

`Negotiate` reads a protocol header and three frames from the client and sends three. Who the client
is, is decided in `readStartOk`: the mechanism PLAIN asks the configured authenticator, AMQPLAIN has
a table of users of its own, and EXTERNAL takes the common name of the TLS certificate. Errors while
the Start-Ok is decoded are dropped, so a mechanism and a response are always there.
-/

namespace Gomq.Auth

open Wire Broker

/-! ## Credentials -/

/-- `splitNull`. The two functions of this name, one over characters and one over bytes, both do
this (`splitNull_plain_eq`, `splitNull_amqplain_eq`). -/
def splitNull : Bytes → List Bytes
  | [] => [[]]
  | b :: bs =>
    if b = 0 then [] :: splitNull bs
    else
      match splitNull bs with
      | p :: ps => (b :: p) :: ps
      | [] => [[b]]

/-- The user and the password of a response of the form `\x00user\x00password`. -/
def credentials (response : GoString) : Option (GoString × GoString) :=
  if response.length < 3 then none
  else
    match splitNull response with
    | _ :: user :: password :: _ => some (user, password)
    | _ => none

/-- The configured authenticator: whom it accepts with which password. -/
abbrev Authenticator := GoString → GoString → Bool

abbrev Users := GoMap GoString GoString

/-- The table that `NewMemoryAuthenticator` and `NewAMQPLAIN` start with. -/
def guestUsers : Users := (∅ : Users).set (str "guest") (str "guest")

def Users.accepts (users : Users) : Authenticator := fun user password =>
  users.get user == some password

def newMemoryAuthenticator : Authenticator := Users.accepts guestUsers

/-! ## Mechanisms -/

inductive Mechanism where
  | amqplain (users : Users)
  | external

def Mechanism.name : Mechanism → GoString
  | .amqplain _ => str "AMQPLAIN"
  | .external => str "EXTERNAL"

/-- `Mechanism.Response`, without the texts of the errors, which the caller drops. `certificate` is
what `PeerCertificateCN` finds. -/
def Mechanism.response (certificate : Option GoString) (response : GoString) :
    Mechanism → Option GoString
  | .amqplain users =>
    match credentials response with
    | none => none
    | some (user, password) => if users.accepts user password then some user else none
  | .external =>
    match certificate with
    | none => none
    | some cn => if cn = [] then none else some cn

/-- The registry of `NewHandshaker`. -/
def sasl : GoMap GoString Mechanism :=
  [Mechanism.amqplain guestUsers, .external].foldl (fun reg m => reg.set m.name m) ∅

def saslNames (env : Env) : GoString :=
  (env.nameOrder sasl.keys).foldl
    (fun names n => (if names = [] then names else names ++ str " ") ++ n) []

/-! ## The handshake -/

structure TuneParams where
  channelMax : UInt16
  frameMax : UInt32
  heartbeat : UInt16
  deriving DecidableEq

/-- The arguments of a Tune-Ok can only lower the limits. -/
def TuneParams.lower (t : TuneParams) (args : Bytes) : TuneParams :=
  let chMax := readUint16 args
  let frmMax := readUint32 chMax.rest
  let hb := readUint16 frmMax.rest
  { channelMax := if 0 < chMax.val ∧ chMax.val < t.channelMax then chMax.val else t.channelMax
    frameMax := if 0 < frmMax.val ∧ frmMax.val < t.frameMax then frmMax.val else t.frameMax
    heartbeat := if 0 < hb.val ∧ hb.val < t.heartbeat then hb.val else t.heartbeat }

inductive StepError where
  | frame (e : FrameError)
  | eof
  | unexpectedEOF
  /-- `invalid protocol header %q` -/
  | invalidHeader (buf : Bytes)
  | send
  /-- `expected method frame, got %d` -/
  | expectedMethodFrame (type : UInt8)
  /-- `unexpected method %d.%d` -/
  | unexpectedMethod (classID methodID : UInt16)
  /-- `authentication failed` -/
  | authFailed
  /-- The error of the authenticator. -/
  | refused
  /-- `unsupported mechanism %q` -/
  | unsupportedMechanism (name : GoString)
  /-- `expected Tune-Ok, got %d.%d` -/
  | expectedTuneOk (classID methodID : UInt16)
  /-- `expected Open-Ok, got %d.%d` -/
  | expectedOpenOk (classID methodID : UInt16)
  deriving DecidableEq

/-- The error of `Negotiate`: the step that failed, and how. -/
inductive HandshakeError where
  | protocolHeader (e : StepError)
  | start (e : StepError)
  | startOk (e : StepError)
  | tune (e : StepError)
  | tuneOk (e : StepError)
  | open (e : StepError)
  | openOk (e : StepError)
  deriving DecidableEq

/-- The client and the network: the bytes it sends, which of the three sends to it get through, and
the common name of its certificate. -/
structure Peer where
  stream : Bytes
  startSent : Bool
  tuneSent : Bool
  openSent : Bool
  certificate : Option GoString

structure Handshaker where
  input : Bytes
  sent : List Frame
  username : GoString
  vhost : GoString
  heartbeat : UInt16
  tune : TuneParams

def newHandshaker (stream : Bytes) : Handshaker where
  input := stream
  sent := []
  username := []
  vhost := []
  heartbeat := 0
  tune := ⟨2048, 131072, 60⟩

namespace Handshaker

/-- Only the first byte of the header is looked at. -/
def readProtocolHeader (h : Handshaker) : Except StepError Handshaker :=
  let r := readFull 8 h.input
  match r.err with
  | some .eof => .error .eof
  | some _ => .error .unexpectedEOF
  | none =>
    if r.val.headD 0 ≠ 0x41 then .error (.invalidHeader r.val) else .ok { h with input := r.rest }

def sendMethodFrame (ok : Bool) (payload : Bytes) (h : Handshaker) : Except StepError Handshaker :=
  if ok then .ok { h with sent := h.sent ++ [⟨frameMethod, 0, payload⟩] } else .error .send

def serverProperties (env : Env) : Table :=
  (env.nameOrder [str "product", str "version"]).map fun k =>
    (k, .string (if k = str "product" then str "gomq" else str "0.1.0"))

def sendStart (env : Env) (ok : Bool) (h : Handshaker) : Except StepError Handshaker :=
  let table := match writeTable (serverProperties env) with
    | .ok t => t
    | .error _ => []
  h.sendMethodFrame ok (Server.methodPayload 10 10 (writeUint8 0 ++ writeUint8 9 ++ table ++
    writeString (saslNames env) ++ writeString (str "en_US")))

def readFrame (h : Handshaker) : Except StepError (Frame × Handshaker) :=
  match nextFrame defaultBufSize frameMaxDefault h.input with
  | .error e => .error (.frame e)
  | .ok (f, rest) => .ok (f, { h with input := rest })

end Handshaker

/-- The class and the method id of a payload; read errors are dropped. -/
def idsOf (payload : Bytes) : UInt16 × UInt16 :=
  ((readUint16 payload).val, (readUint16 (readUint16 payload).rest).val)

def argsOf (payload : Bytes) : Bytes := (readUint16 (readUint16 payload).rest).rest

/-- The mechanism and the response of a Start-Ok; the client properties are skipped. -/
def startOkOf (payload : Bytes) : GoString × GoString :=
  let mechanism := readString (readTable (argsOf payload)).rest
  let response := readString mechanism.rest
  (mechanism.val, response.val)

def authenticate (auth : Authenticator) (certificate : Option GoString)
    (mechanism response : GoString) : Except StepError GoString :=
  if mechanism = str "PLAIN" then
    match credentials response with
    | none => .error .authFailed
    | some (user, password) => if auth user password then .ok user else .error .refused
  else
    match sasl.get mechanism with
    | none => .error (.unsupportedMechanism mechanism)
    | some m =>
      match m.response certificate response with
      | none => .error .authFailed
      | some user => .ok user

namespace Handshaker

def readStartOk (auth : Authenticator) (certificate : Option GoString) (h : Handshaker) :
    Except StepError Handshaker :=
  match h.readFrame with
  | .error e => .error e
  | .ok (f, h) =>
    if f.type ≠ frameMethod then .error (.expectedMethodFrame f.type)
    else if idsOf f.payload ≠ (10, 11) then
      .error (.unexpectedMethod (idsOf f.payload).1 (idsOf f.payload).2)
    else
      match authenticate auth certificate (startOkOf f.payload).1 (startOkOf f.payload).2 with
      | .error e => .error e
      | .ok user => .ok { h with username := user }

def sendTune (ok : Bool) (h : Handshaker) : Except StepError Handshaker :=
  h.sendMethodFrame ok (Server.methodPayload 10 30 (writeUint16 h.tune.channelMax ++
    writeUint32 h.tune.frameMax ++ writeUint16 h.tune.heartbeat))

/-- The type of the frame is not looked at. -/
def readTuneOk (h : Handshaker) : Except StepError Handshaker :=
  match h.readFrame with
  | .error e => .error e
  | .ok (f, h) =>
    if idsOf f.payload ≠ (10, 31) then
      .error (.expectedTuneOk (idsOf f.payload).1 (idsOf f.payload).2)
    else .ok { h with tune := h.tune.lower (argsOf f.payload) }

def sendOpen (ok : Bool) (h : Handshaker) : Except StepError Handshaker :=
  { h with vhost := str "/" }.sendMethodFrame ok (Server.methodPayload 10 40
    (writeString (str "/") ++ writeString [] ++ writeUint8 0))

def readOpenOk (h : Handshaker) : Except StepError Handshaker :=
  match h.readFrame with
  | .error e => .error e
  | .ok (f, h) =>
    if idsOf f.payload ≠ (10, 41) then
      .error (.expectedOpenOk (idsOf f.payload).1 (idsOf f.payload).2)
    else .ok h

end Handshaker

/-- `fmt.Errorf("..: %w", err)`. -/
def wrap {α : Type} (f : StepError → HandshakeError) : Except StepError α → Except HandshakeError α
  | .ok a => .ok a
  | .error e => .error (f e)

def negotiate (env : Env) (auth : Authenticator) (peer : Peer) :
    Except HandshakeError Handshaker := do
  let h ← wrap .protocolHeader (newHandshaker peer.stream).readProtocolHeader
  let h ← wrap .start (h.sendStart env peer.startSent)
  let h ← wrap .startOk (h.readStartOk auth peer.certificate)
  let h ← wrap .tune (h.sendTune peer.tuneSent)
  let h ← wrap .tuneOk h.readTuneOk
  let h := { h with heartbeat := h.tune.heartbeat }
  let h ← wrap .open (h.sendOpen peer.openSent)
  wrap .openOk h.readOpenOk

end Gomq.Auth
