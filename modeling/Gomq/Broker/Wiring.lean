import Gomq.Broker.Handlers
import Gomq.Wire.Reads

/-!
# From a method frame to its operation

The encoding of a request, the frame that carries it, and what the dispatcher makes of that
frame. `Faithful` says that the dispatcher does with the frame what the operation does with the
arguments. It reduces to two facts about the decoder of the method: what it reads from the payload
that the dispatcher passes (`faithful_decodes`), and that the operation on what was read is the
operation on what was sent (`faithful_of_decodes`).
-/

namespace Gomq.Broker

open Wire Server

/-! ## Encoding -/

def packBits : List Bool → UInt8
  | [] => 0
  | b :: bs => (if b then 1 else 0) + 2 * packBits bs

namespace Request

def ids : Request → UInt16 × UInt16
  | .qos .. => (60, 10)
  | .consume .. => (60, 20)
  | .cancel .. => (60, 30)
  | .publish .. => (60, 40)
  | .get .. => (60, 70)
  | .ack .. => (60, 80)
  | .reject .. => (60, 90)
  | .recover .. => (60, 110)
  | .nack .. => (60, 120)
  | .queueDeclare .. => (50, 10)
  | .queueBind .. => (50, 20)
  | .queuePurge .. => (50, 30)
  | .queueDelete .. => (50, 40)
  | .queueUnbind .. => (50, 50)
  | .exchangeDeclare .. => (40, 10)
  | .exchangeDelete .. => (40, 20)
  | .exchangeBind .. => (40, 30)
  | .exchangeUnbind .. => (40, 40)
  | .confirmSelect .. => (85, 10)

def withTable (front : Bytes) (args : Table) : Except WriteError Bytes :=
  match writeTable args with
  | .ok t => .ok (front ++ t)
  | .error e => .error e

def encode : Request → Except WriteError Bytes
  | .qos size count global =>
    .ok (writeUint32 size ++ writeUint16 count ++ writeUint8 (packBits [global]))
  | .consume queue tag noLocal noAck exclusive noWait args =>
    withTable (writeUint16 0 ++ writeShortString queue ++ writeShortString tag ++
      writeUint8 (packBits [noLocal, noAck, exclusive, noWait])) args
  | .cancel tag noWait => .ok (writeShortString tag ++ writeUint8 (packBits [noWait]))
  | .publish exchange key mandatory immediate =>
    .ok (writeUint16 0 ++ writeShortString exchange ++ writeShortString key ++
      writeUint8 (packBits [mandatory, immediate]))
  | .get queue noAck =>
    .ok (writeUint16 0 ++ writeShortString queue ++ writeUint8 (packBits [noAck]))
  | .ack tag => .ok (writeUint64 tag)
  | .reject tag requeue => .ok (writeUint64 tag ++ writeUint8 (packBits [requeue]))
  | .recover requeue => .ok (writeUint8 (packBits [requeue]))
  | .nack tag requeue => .ok (writeUint64 tag ++ writeUint8 (packBits [requeue]))
  | .queueDeclare queue passive durable exclusive autoDelete noWait args =>
    withTable (writeUint16 0 ++ writeShortString queue ++
      writeUint8 (packBits [passive, durable, exclusive, autoDelete, noWait])) args
  | .queueBind queue exchange key noWait args =>
    withTable (writeUint16 0 ++ writeShortString queue ++ writeShortString exchange ++
      writeShortString key ++ writeUint8 (packBits [noWait])) args
  | .queuePurge queue noWait =>
    .ok (writeUint16 0 ++ writeShortString queue ++ writeUint8 (packBits [noWait]))
  | .queueDelete queue ifUnused ifEmpty noWait =>
    .ok (writeUint16 0 ++ writeShortString queue ++
      writeUint8 (packBits [ifUnused, ifEmpty, noWait]))
  | .queueUnbind queue exchange key args =>
    withTable (writeUint16 0 ++ writeShortString queue ++ writeShortString exchange ++
      writeShortString key) args
  | .exchangeDeclare exchange exType passive durable autoDelete internal noWait args =>
    withTable (writeUint16 0 ++ writeShortString exchange ++ writeShortString exType ++
      writeUint8 (packBits [passive, durable, autoDelete, internal, noWait])) args
  | .exchangeDelete exchange ifUnused noWait =>
    .ok (writeUint16 0 ++ writeShortString exchange ++ writeUint8 (packBits [ifUnused, noWait]))
  | .exchangeBind destination source key noWait args =>
    withTable (writeUint16 0 ++ writeShortString destination ++ writeShortString source ++
      writeShortString key ++ writeUint8 (packBits [noWait])) args
  | .exchangeUnbind destination source key noWait =>
    .ok (writeUint16 0 ++ writeShortString destination ++ writeShortString source ++
      writeShortString key ++ writeUint8 (packBits [noWait]))
  | .confirmSelect noWait => .ok (writeUint8 (packBits [noWait]))

def decoder : Request → Check → Decoder Request
  | .qos .. => decodeQos
  | .consume .. => decodeConsume
  | .cancel .. => decodeCancel
  | .publish .. => decodePublish
  | .get .. => decodeGet
  | .ack .. => decodeAck
  | .reject .. => decodeReject
  | .recover .. => decodeRecover
  | .nack .. => decodeNack
  | .queueDeclare .. => decodeQueueDeclare
  | .queueBind .. => decodeQueueBind
  | .queuePurge .. => decodeQueuePurge
  | .queueDelete .. => decodeQueueDelete
  | .queueUnbind .. => decodeQueueUnbind
  | .exchangeDeclare .. => decodeExchangeDeclare
  | .exchangeDelete .. => decodeExchangeDelete
  | .exchangeBind .. => decodeExchangeBind
  | .exchangeUnbind .. => decodeExchangeUnbind
  | .confirmSelect .. => decodeConfirmSelect

def payload (req : Request) (args : Bytes) : Bytes :=
  methodPayload req.ids.1 req.ids.2 args

end Request

/-- The frame does what the operation does, for every state and channel: the same error or none,
and the same state afterwards, with what was sent. -/
def Faithful (req : Request) (args : Bytes) : Prop :=
  ∀ env ch c s, dispatch env ch ⟨frameMethod, c, req.payload args⟩ s = exec env ch req s

/-! ## The dispatcher -/

theorem dispatch_ids {classID methodID : UInt16} {h : MethodHandler}
    (hl : lookup classID methodID = some h) (env : Env) (ch : ChanRef) (c : UInt16) (args : Bytes)
    (s : Server) :
    dispatch env ch ⟨frameMethod, c, methodPayload classID methodID args⟩ s =
      h env ch (methodPayload classID methodID args) s := by
  unfold dispatch methodPayload
  rw [if_neg (not_not.mpr rfl)]
  dsimp only
  rw [List.append_assoc, readUint16_write]
  dsimp only [Read.orFail]
  rw [readUint16_write]
  dsimp only
  rw [hl]

theorem dispatch_method (env : Env) (ch : ChanRef) (c : UInt16) (req : Request) (args : Bytes)
    (s : Server) :
    dispatch env ch ⟨frameMethod, c, req.payload args⟩ s =
      handleWith req.decoder env ch (req.payload args) s := by
  have hl : lookup req.ids.1 req.ids.2 = some (handleWith req.decoder) := by cases req <;> rfl
  exact dispatch_ids hl env ch c args s

theorem payload_eq (req : Request) (args : Bytes) :
    req.payload args = 0 :: req.ids.1.toUInt8 :: 0 :: req.ids.2.toUInt8 :: args := by
  have hids : req.ids.1.toNat < 256 ∧ req.ids.2.toNat < 256 := by
    cases req <;> exact ⟨of_decide_eq_true rfl, of_decide_eq_true rfl⟩
  unfold Request.payload methodPayload
  rw [writeUint16_of_lt hids.1, writeUint16_of_lt hids.2]
  rfl

/-! ## Decoders with one access check -/

namespace Decoder

variable {α β : Type}

def permit : Check := fun _ => .ok ()

def Plain (d : Decoder α) : Prop := ∀ bs e, d bs = .error e → ∃ r, e = .read r

def Yields (P : α → Prop) (d : Decoder α) : Prop := ∀ bs a rest, d bs = .ok (a, rest) → P a

theorem bind_of_ok {d : Decoder α} {f : α → Decoder β} {bs rest : Bytes} {a : α}
    (h : d bs = .ok (a, rest)) : (d >>= f) bs = f a rest := by
  show (d bs >>= fun p => f p.1 p.2) = _
  rw [h]; rfl

theorem bind_of_error {d : Decoder α} {f : α → Decoder β} {bs : Bytes} {e : GoError}
    (h : d bs = .error e) : (d >>= f) bs = .error e := by
  show (d bs >>= fun p => f p.1 p.2) = _
  rw [h]; rfl

theorem bind_eq_ok {d : Decoder α} {f : α → Decoder β} {bs rest : Bytes} {b : β}
    (h : (d >>= f) bs = .ok (b, rest)) :
    ∃ a mid, d bs = .ok (a, mid) ∧ f a mid = .ok (b, rest) := by
  cases hd : d bs with
  | error e => rw [bind_of_error hd] at h; cases h
  | ok p => rw [bind_of_ok hd] at h; exact ⟨p.1, p.2, rfl, h⟩

theorem plain_read (r : Bytes → Read α) : Plain (read r) := by
  intro bs e h
  unfold read at h
  split at h
  · cases h
  · cases h; exact ⟨_, rfl⟩

theorem plain_skip : Plain skipUint16 := fun _ _ h => by cases h

theorem plain_pure (a : α) : Plain (pure a) := fun _ _ h => by cases h

theorem plain_bind {d : Decoder α} {f : α → Decoder β} (hd : Plain d) (hf : ∀ a, Plain (f a)) :
    Plain (d >>= f) := by
  intro bs e h
  cases hd' : d bs with
  | error e' => rw [bind_of_error hd'] at h; cases h; exact hd bs _ hd'
  | ok p => rw [bind_of_ok hd'] at h; exact hf p.1 p.2 e h

theorem yields_pure {P : α → Prop} {a : α} (h : P a) : Yields P (pure a) := by
  intro bs b rest hb
  cases hb
  exact h

theorem yields_bind {P : β → Prop} {d : Decoder α} {f : α → Decoder β}
    (h : ∀ a, Yields P (f a)) : Yields P (d >>= f) := by
  intro bs b rest hb
  obtain ⟨a, mid, -, hf⟩ := bind_eq_ok hb
  exact h a mid b rest hf

/-- The decoder makes the access check of the request it returns, if that has any, and otherwise
fails only where a read fails. -/
structure Checked (d : Check → Decoder Request) : Prop where
  plain : Plain (d permit)
  checks : ∀ chk bs req rest, d permit bs = .ok (req, rest) →
    d chk bs = match req.access with
      | none => .ok (req, rest)
      | some a => match chk a with
        | .ok _ => .ok (req, rest)
        | .error e => .error e

theorem checked_bind {d : Decoder α} {f : α → Check → Decoder Request} (hd : Plain d)
    (hf : ∀ a, Checked (f a)) : Checked fun chk => d >>= fun a => f a chk where
  plain := plain_bind hd fun a => (hf a).plain
  checks := by
    intro chk bs req rest h
    obtain ⟨a, mid, hok, hrest⟩ := bind_eq_ok h
    rw [bind_of_ok hok]
    exact (hf a).checks chk mid req rest hrest

theorem checked_check {a : Access} {d : Decoder Request} (hd : Plain d)
    (ha : Yields (fun req => req.access = some a) d) :
    Checked fun chk => (do chk a; d : Decoder Request) where
  plain := plain_bind (fun _ _ h => by cases h) fun _ => hd
  checks := by
    intro chk bs req rest h
    have hread : d bs = .ok (req, rest) := h
    rw [ha bs req rest hread]
    dsimp only
    cases chk a with
    | error e => rfl
    | ok u => exact hread

theorem checked_none {d : Decoder Request} (hd : Plain d)
    (ha : Yields (fun req => req.access = none) d) : Checked fun _ => d where
  plain := hd
  checks := by
    intro chk bs req rest h
    rw [ha bs req rest h, h]

theorem plain_bits {f : UInt8 → Request} : Plain (do let bits ← uint8; pure (f bits)) :=
  plain_bind (plain_read _) fun _ => plain_pure _

theorem plain_bits_table {f : UInt8 → Table → Request} :
    Plain (do let bits ← uint8; let args ← table; pure (f bits args)) :=
  plain_bind (plain_read _) fun _ => plain_bind (plain_read _) fun _ => plain_pure _

end Decoder

open Decoder

theorem checked_qos : Checked decodeQos := by
  unfold decodeQos
  exact checked_none
    (plain_bind (plain_read _) fun _ => plain_bind (plain_read _) fun _ => plain_bits)
    (yields_bind fun _ => yields_bind fun _ => yields_bind fun _ => yields_pure rfl)

theorem checked_consume : Checked decodeConsume := by
  unfold decodeConsume
  exact checked_bind plain_skip fun _ => checked_bind (plain_read _) fun _ => checked_check
    (plain_bind (plain_read _) fun _ => plain_bits_table)
    (yields_bind fun _ => yields_bind fun _ => yields_bind fun _ => yields_pure rfl)

theorem checked_cancel : Checked decodeCancel := by
  unfold decodeCancel
  exact checked_none (plain_bind (plain_read _) fun _ => plain_bits)
    (yields_bind fun _ => yields_bind fun _ => yields_pure rfl)

theorem checked_publish : Checked decodePublish := by
  unfold decodePublish
  exact checked_bind plain_skip fun _ => checked_bind (plain_read _) fun _ => checked_check
    (plain_bind (plain_read _) fun _ => plain_bits)
    (yields_bind fun _ => yields_bind fun _ => yields_pure rfl)

theorem checked_name {a : GoString → Access} {f : GoString → UInt8 → Request}
    (h : ∀ name bits, (f name bits).access = some (a name)) :
    Checked fun chk => (do
      skipUint16
      let name ← shortString
      chk (a name)
      let bits ← uint8
      pure (f name bits)) :=
  checked_bind plain_skip fun _ => checked_bind (plain_read _) fun name => checked_check plain_bits
    (yields_bind fun bits => yields_pure (h name bits))

theorem checked_get : Checked decodeGet := by
  unfold decodeGet
  exact checked_name (by intros; rfl)

theorem checked_ack : Checked decodeAck := by
  unfold decodeAck
  exact checked_none (plain_bind (plain_read _) fun _ => plain_pure _)
    (yields_bind fun _ => yields_pure rfl)

theorem checked_reject : Checked decodeReject := by
  unfold decodeReject
  exact checked_none (plain_bind (plain_read _) fun _ => plain_bits)
    (yields_bind fun _ => yields_bind fun _ => yields_pure rfl)

theorem checked_recover : Checked decodeRecover := by
  unfold decodeRecover
  exact checked_none plain_bits
    (yields_bind fun _ => yields_pure rfl)

theorem checked_nack : Checked decodeNack := by
  unfold decodeNack
  exact checked_none (plain_bind (plain_read _) fun _ => plain_bits)
    (yields_bind fun _ => yields_bind fun _ => yields_pure rfl)

theorem checked_queueDeclare : Checked decodeQueueDeclare := by
  unfold decodeQueueDeclare
  exact checked_bind plain_skip fun _ => checked_bind (plain_read _) fun _ => checked_check
    plain_bits_table (yields_bind fun _ => yields_bind fun _ => yields_pure rfl)

theorem checked_queueBind : Checked decodeQueueBind := by
  unfold decodeQueueBind
  exact checked_bind plain_skip fun _ => checked_bind (plain_read _) fun _ =>
    checked_bind (plain_read _) fun _ => checked_check
      (plain_bind (plain_read _) fun _ => plain_bits_table)
      (yields_bind fun _ => yields_bind fun _ => yields_bind fun _ => yields_pure rfl)

theorem checked_queuePurge : Checked decodeQueuePurge := by
  unfold decodeQueuePurge
  exact checked_name (by intros; rfl)

theorem checked_queueDelete : Checked decodeQueueDelete := by
  unfold decodeQueueDelete
  exact checked_name (by intros; rfl)

theorem checked_queueUnbind : Checked decodeQueueUnbind := by
  unfold decodeQueueUnbind
  exact checked_bind plain_skip fun _ => checked_bind (plain_read _) fun _ => checked_check
    (plain_bind (plain_read _) fun _ => plain_bind (plain_read _) fun _ =>
      plain_bind (plain_read _) fun _ => plain_pure _)
    (yields_bind fun _ => yields_bind fun _ => yields_bind fun _ => yields_pure rfl)

theorem checked_exchangeDeclare : Checked decodeExchangeDeclare := by
  unfold decodeExchangeDeclare
  exact checked_bind plain_skip fun _ => checked_bind (plain_read _) fun _ => checked_check
    (plain_bind (plain_read _) fun _ => plain_bits_table)
    (yields_bind fun _ => yields_bind fun _ => yields_bind fun _ => yields_pure rfl)

theorem checked_exchangeDelete : Checked decodeExchangeDelete := by
  unfold decodeExchangeDelete
  exact checked_name (by intros; rfl)

theorem checked_exchangeBind : Checked decodeExchangeBind := by
  unfold decodeExchangeBind
  exact checked_bind plain_skip fun _ => checked_bind (plain_read _) fun _ =>
    checked_bind (plain_read _) fun _ => checked_check
      (plain_bind (plain_read _) fun _ => plain_bits_table)
      (yields_bind fun _ => yields_bind fun _ => yields_bind fun _ => yields_pure rfl)

theorem checked_exchangeUnbind : Checked decodeExchangeUnbind := by
  unfold decodeExchangeUnbind
  exact checked_bind plain_skip fun _ => checked_bind (plain_read _) fun _ =>
    checked_bind (plain_read _) fun _ => checked_check
      (plain_bind (plain_read _) fun _ => plain_bits)
      (yields_bind fun _ => yields_bind fun _ => yields_pure rfl)

theorem checked_confirmSelect : Checked decodeConfirmSelect := by
  unfold decodeConfirmSelect
  exact checked_none plain_bits
    (yields_bind fun _ => yields_pure rfl)

theorem checked_decoder (req : Request) : Checked req.decoder := by
  cases req with
  | qos => exact checked_qos
  | consume => exact checked_consume
  | cancel => exact checked_cancel
  | publish => exact checked_publish
  | get => exact checked_get
  | ack => exact checked_ack
  | reject => exact checked_reject
  | recover => exact checked_recover
  | nack => exact checked_nack
  | queueDeclare => exact checked_queueDeclare
  | queueBind => exact checked_queueBind
  | queuePurge => exact checked_queuePurge
  | queueDelete => exact checked_queueDelete
  | queueUnbind => exact checked_queueUnbind
  | exchangeDeclare => exact checked_exchangeDeclare
  | exchangeDelete => exact checked_exchangeDelete
  | exchangeBind => exact checked_exchangeBind
  | exchangeUnbind => exact checked_exchangeUnbind
  | confirmSelect => exact checked_confirmSelect

/-! ## Faithful frames -/

section Faithful

variable {req r : Request} {args rest : Bytes}

theorem faithful_of_decodes (h : req.decoder permit (req.payload args) = .ok (r, rest))
    (ha : r.access = req.access) (hp : ∀ env ch s, perform env ch r s = perform env ch req s) :
    Faithful req args := by
  intro env ch c s
  rw [dispatch_method]
  unfold handleWith exec permits
  rw [(checked_decoder req).checks (s.check ch) _ r rest h, ha]
  cases req.access with
  | none => exact hp env ch s
  | some a =>
    dsimp only
    cases s.check ch a with
    | error e => rfl
    | ok u => exact hp env ch s

def txChannel (acl : Option (List Rule)) : Server :=
  { newServer with
    conns := Heap.empty.alloc (newConnection .up)
    chans := Heap.empty.alloc { newChannel 1 0 with txMode := true }
    aclMgr := acl }

theorem perform_txChannel (acl : Option (List Rule)) (req : Request) {e : GoError}
    (h : (perform default 0 req (txChannel acl)).1 = some e) :
    e ≠ .accessDenied ∧ ∀ r, e ≠ .read r := by
  cases req with
  | exchangeBind d src key noWait args =>
    change (performExchangeBind 0 d src key noWait args (txChannel acl)).1 = some e at h
    unfold performExchangeBind at h
    split at h
    · cases h; exact ⟨nofun, nofun⟩
    · cases h
  | consume q tag noLocal noAck exclusive noWait args =>
    have hsub : ((txChannel acl).subscribe tag q (some 0) noAck exclusive args).1 = none := by
      unfold subscribe
      rw [if_neg (by exact nofun), if_neg (by cases exclusive <;> exact nofun)]
    change (performConsume 0 q tag noAck exclusive noWait args (txChannel acl)).1 = some e
      at h
    unfold performConsume at h
    rcases hs : (txChannel acl).subscribe tag q (some 0) noAck exclusive args with ⟨_ | e', u⟩
    · rw [hs] at h; cases h
    · rw [hs] at hsub; cases hsub
  | get q noAck =>
    change (performGet default 0 q noAck (txChannel acl)).1 = some e at h
    unfold performGet at h
    split at h <;> cases h
  | queueDeclare q passive durable exclusive autoDelete noWait args =>
    change (performQueueDeclare default 0 q passive durable exclusive autoDelete noWait args
      (txChannel acl)).1 = some e at h
    unfold performQueueDeclare at h
    dsimp only at h
    split at h <;> cases h
  | exchangeDeclare ex ty passive durable autoDelete internal noWait args =>
    change (performExchangeDeclare 0 ex ty passive noWait args (txChannel acl)).1 = some e
      at h
    unfold performExchangeDeclare at h
    dsimp only at h
    split at h <;> cases h
  | _ => cases h

theorem faithful_decodes (h : Faithful req args) :
    ∃ r rest, req.decoder permit (req.payload args) = .ok (r, rest) ∧
      ∀ env ch s, s.aclMgr = none → perform env ch r s = perform env ch req s := by
  have hcheck : ∀ (s : Server) ch, s.aclMgr = none → s.check ch = permit := by
    intro s ch hs
    funext a
    unfold check
    rw [hs]; rfl
  have hexec : ∀ env ch (s : Server), s.aclMgr = none →
      handleWith req.decoder env ch (req.payload args) s = perform env ch req s := by
    intro env ch s hs
    have hdisp := h env ch 0 s
    rw [dispatch_method] at hdisp
    rw [hdisp]
    unfold exec permits
    rw [hcheck s ch hs]
    cases req.access <;> rfl
  cases hd : req.decoder permit (req.payload args) with
  | error e =>
    obtain ⟨r, rfl⟩ := (checked_decoder req).plain _ _ hd
    have hfail := hexec default 0 (txChannel none) rfl
    unfold handleWith at hfail
    rw [hcheck _ 0 rfl, hd] at hfail
    exact absurd rfl ((perform_txChannel none req (congrArg Prod.fst hfail).symm).2 r)
  | ok p =>
    refine ⟨p.1, p.2, rfl, fun env ch s hs => ?_⟩
    rw [← hexec env ch s hs]
    unfold handleWith
    rw [hcheck s ch hs, hd]

def denyEmpty : List Rule :=
  [⟨str "*", str "*", str "*", [], str "*", false⟩,
    ⟨str "*", str "*", str "*", str "*", str "*", true⟩]

theorem checkRules_denyEmpty (user vhost : GoString) (a : Access) :
    checkRules denyEmpty user vhost a =
      if a.resourceName = [] then .error .accessDenied else .ok () := by
  have hstar : ∀ v, matchWildcard (str "*") v = true := fun v => rfl
  have hempty : matchWildcard [] a.resourceName = decide (a.resourceName = []) := by
    cases a.resourceName <;> rfl
  unfold checkRules denyEmpty
  rw [List.find?_cons]
  unfold Rule.matchesAccess
  dsimp only
  rw [hempty, hstar, hstar, hstar, hstar, Bool.true_and, Bool.true_and, Bool.true_and,
    Bool.and_true]
  by_cases hn : a.resourceName = []
  · rw [decide_eq_true hn, if_pos hn]; rfl
  · rw [decide_eq_false hn, if_neg hn]; rfl

theorem faithful_name (h : Faithful req args)
    (hd : req.decoder permit (req.payload args) = .ok (r, rest)) {a a' : Access}
    (hr : r.access = some a') (hempty : a'.resourceName = []) (hreq : req.access = some a) :
    a.resourceName = [] := by
  by_contra hne
  have hcheck : ∀ x : Access, (txChannel (some denyEmpty)).check 0 x =
      if x.resourceName = [] then .error .accessDenied else .ok () :=
    fun x => checkRules_denyEmpty _ _ x
  have hdisp := h default 0 0 (txChannel (some denyEmpty))
  rw [dispatch_method] at hdisp
  unfold handleWith exec permits at hdisp
  rw [(checked_decoder req).checks _ _ r rest hd, hr, hreq] at hdisp
  dsimp only at hdisp
  rw [hcheck, hcheck, if_pos hempty, if_neg hne] at hdisp
  exact (perform_txChannel _ req (congrArg Prod.fst hdisp).symm).1 rfl

end Faithful

end Gomq.Broker
