import Gomq.Broker.Observed
import Gomq.Broker.Shifted

/-!
# Which frames reach their operation with their arguments

The handlers decode the payload from its first byte on, where the ids are. So the reserved field
of a method is read from the class id, the length of its first name from the high byte of the
method id, which is 0, and what follows from the low byte of the method id and the four bytes too
early. `Aligned` lists the arguments for which the result is the same as with the right ones.
-/

namespace Gomq.Broker

open Wire Decoder Request List

/-! ## The condition -/

/-- The arguments with which a method survives the shift. -/
def Aligned : Request → Prop
  | .qos size count global => size.toNat = count.toNat * 65536 + 10 ∧ global = false
  | .consume .. => False
  | .cancel tag noWait => tag = [] ∧ noWait = false
  | .publish exchange key mandatory _ =>
    exchange = [] ∧ key = repeating 40 ∧ mandatory = false
  | .get queue noAck => queue = [] ∧ noAck = false
  | .ack tag => tag = 0x003C0050003C0050
  | .reject tag requeue => tag = 0x003C005A003C005A ∧ requeue = false
  | .recover requeue => requeue = false
  | .nack tag requeue => tag = 0x003C0078003C0078 ∧ requeue = false
  | .queueDeclare .. => False
  | .queueBind .. => False
  | .queuePurge queue noWait => queue = [] ∧ noWait = false
  | .queueDelete queue _ _ noWait => queue = [] ∧ noWait = false
  | .queueUnbind .. => False
  | .exchangeDeclare exchange exType passive durable autoDelete internal noWait args =>
    -- the seventh byte of the type takes the place of the flags, and a table has to follow it
    exchange = [] ∧ ∃ t b bs args' rest, writeTable args = .ok t ∧
      (writeShortString exType ++
        packBits [passive, durable, autoDelete, internal, noWait] :: t).drop 7 = b :: bs ∧
      readTable bs = ⟨args', none, rest⟩ ∧ bit b 0x01 = passive ∧ bit b 0x10 = noWait ∧
      (passive = true ∨ (exType ≠ str "fanout" ∧ args' = args))
  | .exchangeDelete exchange _ noWait => exchange = [] ∧ noWait = false
  | .exchangeBind destination source key noWait args =>
    destination = [] ∧ source = repeating 30 ∧ key = [] ∧ noWait = false ∧ args = []
  | .exchangeUnbind destination source key noWait =>
    destination = [] ∧ source = repeating 40 ∧ key = [] ∧ noWait = false
  | .confirmSelect noWait => noWait = false

theorem Faithful.agree {req r : Request} {args rest : Bytes} (h : Faithful req args)
    (hd : req.decoder permit (req.payload args) = .ok (r, rest)) : Agree r req := by
  obtain ⟨r', rest', hd', hp⟩ := faithful_decodes h
  rw [hd] at hd'
  cases hd'
  exact hp

theorem permit_ok (a : Access) (bs : Bytes) :
    (liftM (permit a) : Decoder Unit) bs = .ok ((), bs) := rfl

/-! ## Methods whose arguments are read from the ids alone -/

section Ids

variable {A : Bytes}

theorem faithful_cancel {tag : GoString} {noWait : Bool} :
    Faithful (.cancel tag noWait) A ↔ Aligned (.cancel tag noWait) := by
  have hd : (cancel tag noWait).decoder permit ((cancel tag noWait).payload A) =
      .ok (.cancel [] false, 0 :: 30 :: A) := by
    rw [payload_eq]
    show decodeCancel permit (0 :: 60 :: 0 :: 30 :: A) = _
    unfold decodeCancel
    rw [bind_of_ok (shortString_zero _), bind_of_ok (uint8_cons _ _)]
    rfl
  constructor
  · intro h
    obtain ⟨hn, ht⟩ := agree_cancel (h.agree hd)
    exact ⟨(ht rfl).symm, hn.symm⟩
  · rintro ⟨rfl, rfl⟩
    exact faithful_of_decodes hd rfl fun _ _ _ => rfl

theorem faithful_recover {requeue : Bool} :
    Faithful (.recover requeue) A ↔ Aligned (.recover requeue) := by
  have hd : (recover requeue).decoder permit ((recover requeue).payload A) =
      .ok (.recover false, 60 :: 0 :: 110 :: A) := by
    rw [payload_eq]
    show decodeRecover permit (0 :: 60 :: 0 :: 110 :: A) = _
    unfold decodeRecover
    rw [bind_of_ok (uint8_cons _ _)]
    rfl
  constructor
  · intro h
    exact (agree_recover (h.agree hd)).symm
  · rintro rfl
    exact faithful_of_decodes hd rfl fun _ _ _ => rfl

theorem faithful_confirmSelect {noWait : Bool} :
    Faithful (.confirmSelect noWait) A ↔ Aligned (.confirmSelect noWait) := by
  have hd : (confirmSelect noWait).decoder permit
      ((confirmSelect noWait).payload A) =
        .ok (.confirmSelect false, 85 :: 0 :: 10 :: A) := by
    rw [payload_eq]
    show decodeConfirmSelect permit (0 :: 85 :: 0 :: 10 :: A) = _
    unfold decodeConfirmSelect
    rw [bind_of_ok (uint8_cons _ _)]
    rfl
  constructor
  · intro h
    exact (agree_confirmSelect (h.agree hd)).symm
  · rintro rfl
    exact faithful_of_decodes hd rfl fun _ _ _ => rfl

theorem decode_name {a : GoString → Access} {f : GoString → UInt8 → Request} (c m : UInt8)
    (bs : Bytes) :
    (do
      skipUint16
      let name ← shortString
      permit (a name)
      let bits ← uint8
      pure (f name bits) : Decoder Request) (0 :: c :: 0 :: m :: bs) = .ok (f [] m, bs) := by
  rw [bind_of_ok (skipUint16_cons _ _ _), bind_of_ok (shortString_zero _),
    bind_of_ok (permit_ok _ _), bind_of_ok (uint8_cons _ _)]
  rfl

theorem faithful_get {queue : GoString} {noAck : Bool} :
    Faithful (.get queue noAck) A ↔ Aligned (.get queue noAck) := by
  have hd : (get queue noAck).decoder permit ((get queue noAck).payload A) =
      .ok (.get [] false, A) := by
    rw [payload_eq]
    exact decode_name 60 70 A
  constructor
  · intro h
    obtain rfl : queue = [] := faithful_name h hd rfl rfl rfl
    exact ⟨rfl, (agree_get (h.agree hd)).symm⟩
  · rintro ⟨rfl, rfl⟩
    exact faithful_of_decodes hd rfl fun _ _ _ => rfl

theorem faithful_queuePurge {queue : GoString} {noWait : Bool} :
    Faithful (.queuePurge queue noWait) A ↔ Aligned (.queuePurge queue noWait) := by
  have hd : (queuePurge queue noWait).decoder permit
      ((queuePurge queue noWait).payload A) = .ok (.queuePurge [] false, A) := by
    rw [payload_eq]
    exact decode_name 50 30 A
  constructor
  · intro h
    obtain rfl : queue = [] := faithful_name h hd rfl rfl rfl
    exact ⟨rfl, (agree_queuePurge (h.agree hd)).symm⟩
  · rintro ⟨rfl, rfl⟩
    exact faithful_of_decodes hd rfl fun _ _ _ => rfl

theorem faithful_queueDelete {queue : GoString} {ifUnused ifEmpty noWait : Bool} :
    Faithful (.queueDelete queue ifUnused ifEmpty noWait) A ↔
      Aligned (.queueDelete queue ifUnused ifEmpty noWait) := by
  have hd : (queueDelete queue ifUnused ifEmpty noWait).decoder permit
      ((queueDelete queue ifUnused ifEmpty noWait).payload A) =
        .ok (.queueDelete [] false false false, A) := by
    rw [payload_eq]
    exact decode_name 50 40 A
  constructor
  · intro h
    obtain rfl : queue = [] := faithful_name h hd rfl rfl rfl
    exact ⟨rfl, (agree_queueDelete (h.agree hd)).symm⟩
  · rintro ⟨rfl, rfl⟩
    exact faithful_of_decodes hd rfl fun _ _ _ => rfl

theorem faithful_exchangeDelete {exchange : GoString} {ifUnused noWait : Bool} :
    Faithful (.exchangeDelete exchange ifUnused noWait) A ↔
      Aligned (.exchangeDelete exchange ifUnused noWait) := by
  have hd : (exchangeDelete exchange ifUnused noWait).decoder permit
      ((exchangeDelete exchange ifUnused noWait).payload A) =
        .ok (.exchangeDelete [] false false, A) := by
    rw [payload_eq]
    exact decode_name 40 20 A
  constructor
  · intro h
    obtain rfl : exchange = [] := faithful_name h hd rfl rfl rfl
    exact ⟨rfl, (agree_exchangeDelete (h.agree hd)).symm⟩
  · rintro ⟨rfl, rfl⟩
    exact faithful_of_decodes hd rfl fun _ _ _ => rfl

end Ids

/-! ## Numbers -/

section Numbers

variable {A : Bytes}

theorem faithful_ack {tag : UInt64} (hA : (ack tag).encode = .ok A) :
    Faithful (.ack tag) A ↔ Aligned (.ack tag) := by
  have hA' : writeUint64 tag ++ [] = A := by rw [append_nil]; exact Except.ok.inj hA
  have hd : (ack tag).decoder permit ((ack tag).payload A) =
      .ok (.ack (UInt64.ofNat ((60 * 65536 + 80) * 2 ^ 32 + tag.toNat / 2 ^ 32)),
        beBytes 4 tag.toNat ++ []) := by
    rw [payload_eq, ← hA']
    show decodeAck permit (0 :: 60 :: 0 :: 80 :: (writeUint64 tag ++ [])) = _
    unfold decodeAck
    rw [bind_of_ok (uint64_shifted 80 tag [])]
    rfl
  constructor
  · intro h
    have htag := tag_of_shifted (m := 80) (agree_ack (h.agree hd))
    exact UInt64.toNat_inj.mp htag
  · rintro rfl
    exact faithful_of_decodes hd rfl fun _ _ _ => rfl

theorem decode_refuse (refuse : UInt64 → Bool → Request) (m : UInt8) (tag : UInt64) (bs : Bytes) :
    (do
      let tag ← uint64
      let bits ← uint8
      pure (refuse tag (bit bits 0x01)) : Decoder Request)
        (0 :: 60 :: 0 :: m :: (writeUint64 tag ++ bs)) =
      .ok (refuse (UInt64.ofNat ((60 * 65536 + m.toNat) * 2 ^ 32 + tag.toNat / 2 ^ 32))
        (bit (UInt8.ofNat (tag.toNat / 256 ^ 3)) 0x01), beBytes 3 tag.toNat ++ bs) := by
  rw [bind_of_ok (uint64_shifted m tag bs)]
  exact bind_of_ok (uint8_cons _ _)

theorem faithful_reject {tag : UInt64} {requeue : Bool}
    (hA : (reject tag requeue).encode = .ok A) :
    Faithful (.reject tag requeue) A ↔ Aligned (.reject tag requeue) := by
  have hpay : (reject tag requeue).payload A =
      0 :: 60 :: 0 :: 90 :: (writeUint64 tag ++ writeUint8 (packBits [requeue])) := by
    rw [payload_eq, ← Except.ok.inj hA]
    rfl
  have hd := decode_refuse .reject 90 tag (writeUint8 (packBits [requeue]))
  rw [← hpay] at hd
  constructor
  · intro h
    obtain ⟨ht, hq⟩ := agree_refuse (fun _ _ _ _ _ => rfl) (h.agree hd)
    have htag := tag_of_shifted (m := 90) ht
    exact ⟨UInt64.toNat_inj.mp htag, hq.symm.trans (flag_of_shifted htag)⟩
  · rintro ⟨rfl, rfl⟩
    exact faithful_of_decodes hd rfl fun _ _ _ => rfl

theorem faithful_nack {tag : UInt64} {requeue : Bool}
    (hA : (nack tag requeue).encode = .ok A) :
    Faithful (.nack tag requeue) A ↔ Aligned (.nack tag requeue) := by
  have hpay : (nack tag requeue).payload A =
      0 :: 60 :: 0 :: 120 :: (writeUint64 tag ++ writeUint8 (packBits [requeue])) := by
    rw [payload_eq, ← Except.ok.inj hA]
    rfl
  have hd := decode_refuse .nack 120 tag (writeUint8 (packBits [requeue]))
  rw [← hpay] at hd
  constructor
  · intro h
    obtain ⟨ht, hq⟩ := agree_refuse (fun _ _ _ _ _ => rfl) (h.agree hd)
    have htag := tag_of_shifted (m := 120) ht
    exact ⟨UInt64.toNat_inj.mp htag, hq.symm.trans (flag_of_shifted htag)⟩
  · rintro ⟨rfl, rfl⟩
    exact faithful_of_decodes hd rfl fun _ _ _ => rfl

theorem decode_qos (size : UInt32) (bs : Bytes) :
    decodeQos permit (0 :: 60 :: 0 :: 10 :: (writeUint32 size ++ bs)) =
      .ok (.qos 0x003C000A (UInt16.ofNat (size.toNat / 65536))
        (bit (UInt8.ofNat (size.toNat / 256)) 0x01), UInt8.ofNat size.toNat :: bs) := by
  have hlt := size.toNat_lt
  have hbe : ofBe [UInt8.ofNat (size.toNat / 256 ^ 3), UInt8.ofNat (size.toNat / 256 ^ 2)] =
      size.toNat / 65536 := by
    simp only [ofBe, foldl_cons, foldl_nil, UInt8.toNat_ofNat']
    norm_num only
    omega
  have h32 : ∀ bs, uint32 (0 :: 60 :: 0 :: 10 :: bs) = .ok (0x003C000A, bs) := by
    intro bs
    unfold uint32 Decoder.read
    rw [readUint32_cons]
    rfl
  have h16 : ∀ a b bs, uint16 (a :: b :: bs) = .ok (UInt16.ofNat (ofBe [a, b]), bs) := by
    intro a b bs
    unfold uint16 Decoder.read
    rw [readUint16_cons]
    rfl
  unfold decodeQos writeUint32
  rw [bind_of_ok (h32 _), beBytes, beBytes, beBytes, beBytes, beBytes, pow_one, pow_zero,
    Nat.div_one]
  rw [cons_append, cons_append, bind_of_ok (h16 _ _ _), cons_append,
    bind_of_ok (uint8_cons _ _), hbe]
  rfl

theorem faithful_qos {size : UInt32} {count : UInt16} {global : Bool}
    (hA : (qos size count global).encode = .ok A) :
    Faithful (.qos size count global) A ↔ Aligned (.qos size count global) := by
  have hpay : (qos size count global).payload A =
      0 :: 60 :: 0 :: 10 :: (writeUint32 size ++
        (writeUint16 count ++ writeUint8 (packBits [global]))) := by
    rw [payload_eq, ← Except.ok.inj hA, append_assoc]
    rfl
  have hd := decode_qos size (writeUint16 count ++ writeUint8 (packBits [global]))
  rw [← hpay] at hd
  have hlt := size.toNat_lt
  have hflag : size.toNat % 65536 = 10 → bit (UInt8.ofNat (size.toNat / 256)) 0x01 = false := by
    intro hlow
    have hbyte : UInt8.ofNat (size.toNat / 256) = 0 := by
      apply UInt8.toNat_inj.mp
      rw [UInt8.toNat_ofNat']
      show _ = 0
      omega
    rw [hbyte]
    rfl
  constructor
  · intro h
    obtain ⟨hsize, hcount, hglobal⟩ := agree_qos (h.agree hd)
    have hlow : size.toNat % 65536 = 10 := (congrArg UInt16.toNat hsize).symm
    have hhigh := congrArg UInt16.toNat hcount
    rw [UInt16.toNat_ofNat', Nat.mod_eq_of_lt (by omega)] at hhigh
    exact ⟨by omega, hglobal.symm.trans (hflag hlow)⟩
  · rintro ⟨hsize, rfl⟩
    refine faithful_of_decodes hd rfl fun env ch s => ?_
    have hcount := count.toNat_lt
    have hlow : (0x003C000A : UInt32).toUInt16 = size.toUInt16 := by
      apply UInt16.toNat_inj.mp
      show 10 = size.toNat % 65536
      omega
    have hhigh : UInt16.ofNat (size.toNat / 65536) = count := by
      rw [show size.toNat / 65536 = count.toNat by omega, UInt16.ofNat_toNat]
    show s.performQos ch 0x003C000A _ _ = s.performQos ch size count false
    unfold Server.performQos
    rw [hlow, hhigh, hflag (by omega)]

end Numbers

/-! ## Names -/

section Names

variable {A bs rest : Bytes} {req : Request}

theorem faithful_decodes_ids (h : Faithful req A) :
    ∃ r rest, req.decoder permit (req.payload A) = .ok (r, rest) ∧
      req.decoder permit (0 :: req.ids.1.toUInt8 :: 0 :: req.ids.2.toUInt8 :: A) =
        .ok (r, rest) := by
  obtain ⟨r, rest, hd, -⟩ := faithful_decodes h
  exact ⟨r, rest, hd, payload_eq req A ▸ hd⟩

theorem written_early (name tail : Bytes) :
    writeUint16 0 ++ writeShortString [] ++ writeShortString name ++ tail = early name tail := by
  rw [writeUint16_zero]
  simp [writeShortString, writeUint8]

theorem decode_publish :
    decodePublish permit (0 :: 60 :: 0 :: 40 :: bs) = .ok (req, rest) ↔
      ∃ key b, shortString (40 :: bs) = .ok (key, b :: rest) ∧
        req = .publish [] key (bit b 0x01) (bit b 0x02) := by
  unfold decodePublish
  rw [bind_of_ok (skipUint16_cons _ _ _), bind_of_ok (shortString_zero _),
    bind_of_ok (permit_ok _ _)]
  constructor
  · intro h
    obtain ⟨key, mid, hkey, h⟩ := bind_eq_ok h
    obtain ⟨b, mid', hb, h⟩ := bind_eq_ok h
    cases h
    rw [uint8_eq_ok hb] at hkey
    exact ⟨key, b, hkey, rfl⟩
  · rintro ⟨key, b, hkey, rfl⟩
    rw [bind_of_ok hkey, bind_of_ok (uint8_cons _ _)]
    rfl

theorem faithful_publish {exchange key : GoString} {mandatory immediate : Bool}
    (hA : (publish exchange key mandatory immediate).encode = .ok A) :
    Faithful (.publish exchange key mandatory immediate) A ↔
      Aligned (.publish exchange key mandatory immediate) := by
  have hA' : exchange = [] → A = early key [packBits [mandatory, immediate]] := by
    rintro rfl
    exact (Except.ok.inj hA).symm.trans (written_early key _)
  constructor
  · intro h
    obtain ⟨r, rest, hd, hd'⟩ := faithful_decodes_ids h
    obtain ⟨key', b, hread, rfl⟩ := decode_publish.mp hd'
    have hx : exchange = [] := faithful_name h hd rfl rfl rfl
    obtain ⟨rfl, hm⟩ := agree_publish (h.agree hd)
    rw [hA' hx] at hread
    obtain ⟨hk, hrest⟩ := (shortString_early (by decide)).mp hread
    cases hrest
    exact ⟨hx, hk, hm.symm⟩
  · rintro ⟨rfl, rfl, rfl⟩
    have hread : shortString (40 :: A) =
        .ok (repeating 40, [0, 0, 0, 40, packBits [false, immediate]]) := by
      rw [hA' rfl]
      exact (shortString_early (by decide)).mpr ⟨rfl, rfl⟩
    have hd := decode_publish.mpr ⟨_, _, hread, rfl⟩
    exact faithful_of_decodes (r := .publish [] (repeating 40) (bit 0 0x01) (bit 0 0x02))
      (by rw [payload_eq]; exact hd) rfl fun _ _ _ => rfl

theorem decode_consume (h : decodeConsume permit (0 :: 60 :: 0 :: 20 :: bs) = .ok (req, rest)) :
    ∃ tag b mid args, shortString (20 :: bs) = .ok (tag, b :: mid) ∧ table mid = .ok (args, rest) ∧
      req = .consume [] tag (bit b 0x01) (bit b 0x02) (bit b 0x04) (bit b 0x08) args := by
  unfold decodeConsume at h
  rw [bind_of_ok (skipUint16_cons _ _ _), bind_of_ok (shortString_zero _),
    bind_of_ok (permit_ok _ _)] at h
  obtain ⟨tag, mid, htag, h⟩ := bind_eq_ok h
  obtain ⟨b, mid', hb, h⟩ := bind_eq_ok h
  obtain ⟨args, mid'', hargs, h⟩ := bind_eq_ok h
  cases h
  rw [uint8_eq_ok hb] at htag
  exact ⟨tag, b, mid', args, htag, hargs, rfl⟩

/-- The tag would have to repeat 20, and then the table behind it is not read. -/
theorem not_faithful_consume {queue tag : GoString} {noLocal noAck exclusive noWait : Bool}
    {args : Table} (hA : (consume queue tag noLocal noAck exclusive noWait args).encode =
      .ok A) (hlen : A.length < 2 ^ 32) :
    ¬ Faithful (.consume queue tag noLocal noAck exclusive noWait args) A := by
  intro h
  obtain ⟨T, hT, rfl⟩ := withTable_eq_ok hA
  obtain ⟨r, rest, hd, hd'⟩ := faithful_decodes_ids h
  obtain ⟨tag', b, mid, args', hread, htable, rfl⟩ := decode_consume hd'
  obtain rfl : queue = [] := faithful_name h hd rfl rfl rfl
  obtain rfl := agree_consume (h.agree hd)
  rw [append_assoc, written_early] at hread
  obtain ⟨-, hrest⟩ := (shortString_early (by decide)).mp hread
  cases hrest
  exact table_cut hT hlen (by simp [ofBe]) htable

theorem decode_queueDeclare
    (h : decodeQueueDeclare permit (0 :: 50 :: 0 :: 10 :: bs) = .ok (req, rest)) :
    ∃ args, table bs = .ok (args, rest) ∧
      req = .queueDeclare [] false true false true false args := by
  unfold decodeQueueDeclare at h
  rw [bind_of_ok (skipUint16_cons _ _ _), bind_of_ok (shortString_zero _),
    bind_of_ok (permit_ok _ _), bind_of_ok (uint8_cons _ _)] at h
  obtain ⟨args, mid, hargs, h⟩ := bind_eq_ok h
  cases h
  exact ⟨args, hargs, rfl⟩

/-- The flags are read as durable and auto-delete. The table is read only if no flag was sent. -/
theorem not_faithful_queueDeclare {queue : GoString}
    {passive durable exclusive autoDelete noWait : Bool} {args : Table}
    (hA : (queueDeclare queue passive durable exclusive autoDelete noWait args).encode =
      .ok A) (hlen : A.length < 2 ^ 32) :
    ¬ Faithful (.queueDeclare queue passive durable exclusive autoDelete noWait args) A := by
  intro h
  obtain ⟨T, hT, rfl⟩ := withTable_eq_ok hA
  obtain ⟨r, rest, hd, hd'⟩ := faithful_decodes_ids h
  obtain ⟨args', htable, rfl⟩ := decode_queueDeclare hd'
  obtain rfl : queue = [] := faithful_name h hd rfl rfl rfl
  obtain ⟨-, hdurable⟩ := agree_queueDeclare (h.agree hd)
  obtain rfl : true = durable := hdurable rfl
  set bits := packBits [passive, true, exclusive, autoDelete, noWait] with hbits
  have hA' : writeUint16 0 ++ writeShortString [] ++ writeUint8 bits ++ T =
      0 :: 0 :: 0 :: bits :: T := by
    rw [writeUint16_zero]
    simp [writeShortString, writeUint8]
  rw [hA'] at htable
  have hne : bits.toNat ≠ 0 := by
    have : ∀ p e a n, (packBits [p, true, e, a, n]).toNat ≠ 0 := by decide
    exact this _ _ _ _
  exact table_cut hT hlen (by simpa [ofBe] using hne) htable

theorem decode_queueBind
    (h : decodeQueueBind permit (0 :: 50 :: 0 :: 20 :: bs) = .ok (req, rest)) :
    ∃ exchange mid key b mid' args, shortString (20 :: bs) = .ok (exchange, mid) ∧
      shortString mid = .ok (key, b :: mid') ∧ table mid' = .ok (args, rest) ∧
      req = .queueBind [] exchange key (bit b 0x01) args := by
  unfold decodeQueueBind at h
  rw [bind_of_ok (skipUint16_cons _ _ _), bind_of_ok (shortString_zero _)] at h
  obtain ⟨exchange, mid, hex, h⟩ := bind_eq_ok h
  rw [bind_of_ok (permit_ok _ _)] at h
  obtain ⟨key, mid', hkey, h⟩ := bind_eq_ok h
  obtain ⟨b, mid'', hb, h⟩ := bind_eq_ok h
  obtain ⟨args, mid3, hargs, h⟩ := bind_eq_ok h
  cases h
  rw [uint8_eq_ok hb] at hkey
  exact ⟨exchange, mid, key, b, mid'', args, hex, hkey, hargs, rfl⟩

/-- The exchange would have to repeat 20 and the key to be empty, and then the table behind them is
not read. -/
theorem not_faithful_queueBind {queue exchange key : GoString} {noWait : Bool} {args : Table}
    (hA : (queueBind queue exchange key noWait args).encode = .ok A)
    (hlen : A.length < 2 ^ 32) : ¬ Faithful (.queueBind queue exchange key noWait args) A := by
  intro h
  obtain ⟨T, hT, rfl⟩ := withTable_eq_ok hA
  obtain ⟨r, rest, hd, hd'⟩ := faithful_decodes_ids h
  obtain ⟨exchange', mid, key', b, mid', args', hex, hkey, htable, rfl⟩ := decode_queueBind hd'
  obtain rfl : queue = [] := faithful_name h hd rfl rfl rfl
  obtain ⟨rfl, rfl⟩ := agree_queueBind (h.agree hd)
  rw [append_assoc, append_assoc, written_early] at hex
  obtain ⟨-, rfl, hrest⟩ := shortString_early_next (by decide) rfl hex hkey
  cases hrest
  exact table_cut hT hlen (by simp [ofBe]) htable

theorem decode_queueUnbind
    (h : decodeQueueUnbind permit (0 :: 50 :: 0 :: 50 :: bs) = .ok (req, rest)) :
    ∃ exchange mid key mid' args, shortString (50 :: bs) = .ok (exchange, mid) ∧
      shortString mid = .ok (key, mid') ∧ table mid' = .ok (args, rest) ∧
      req = .queueUnbind [] exchange key args := by
  unfold decodeQueueUnbind at h
  rw [bind_of_ok (skipUint16_cons _ _ _), bind_of_ok (shortString_zero _),
    bind_of_ok (permit_ok _ _)] at h
  obtain ⟨exchange, mid, hex, h⟩ := bind_eq_ok h
  obtain ⟨key, mid', hkey, h⟩ := bind_eq_ok h
  obtain ⟨args, mid'', hargs, h⟩ := bind_eq_ok h
  cases h
  exact ⟨exchange, mid, key, mid', args, hex, hkey, hargs, rfl⟩

theorem not_faithful_queueUnbind {queue exchange key : GoString} {args : Table}
    (hA : (queueUnbind queue exchange key args).encode = .ok A)
    (hlen : A.length < 2 ^ 32) : ¬ Faithful (.queueUnbind queue exchange key args) A := by
  intro h
  obtain ⟨T, hT, rfl⟩ := withTable_eq_ok hA
  obtain ⟨r, rest, hd, hd'⟩ := faithful_decodes_ids h
  obtain ⟨exchange', mid, key', mid', args', hex, hkey, htable, rfl⟩ := decode_queueUnbind hd'
  obtain rfl : queue = [] := faithful_name h hd rfl rfl rfl
  obtain ⟨rfl, rfl⟩ := agree_queueUnbind (h.agree hd)
  rw [append_assoc, written_early] at hex
  obtain ⟨-, rfl, hrest⟩ := shortString_early_next (by decide) rfl hex hkey
  cases hrest
  exact table_cut hT hlen (by simp [ofBe]) htable

theorem decode_exchangeDeclare :
    decodeExchangeDeclare permit (0 :: 40 :: 0 :: 10 :: bs) = .ok (req, rest) ↔
      ∃ ty b mid args, shortString (10 :: bs) = .ok (ty, b :: mid) ∧
        table mid = .ok (args, rest) ∧
        req = .exchangeDeclare [] ty (bit b 0x01) (bit b 0x02) (bit b 0x04) (bit b 0x08)
          (bit b 0x10) args := by
  unfold decodeExchangeDeclare
  rw [bind_of_ok (skipUint16_cons _ _ _), bind_of_ok (shortString_zero _),
    bind_of_ok (permit_ok _ _)]
  constructor
  · intro h
    obtain ⟨ty, mid, hty, h⟩ := bind_eq_ok h
    obtain ⟨b, mid', hb, h⟩ := bind_eq_ok h
    obtain ⟨args, mid'', hargs, h⟩ := bind_eq_ok h
    cases h
    rw [uint8_eq_ok hb] at hty
    exact ⟨ty, b, mid', args, hty, hargs, rfl⟩
  · rintro ⟨ty, b, mid, args, hty, hargs, rfl⟩
    rw [bind_of_ok hty, bind_of_ok (uint8_cons _ _), bind_of_ok hargs]
    rfl

theorem exchangeTypeOf_ten {ty : GoString} (h : ty.length = 10) :
    Server.exchangeTypeOf ty = .direct := by
  unfold Server.exchangeTypeOf
  rw [if_neg]
  rintro rfl
  exact absurd h (by decide)

theorem faithful_exchangeDeclare {exchange exType : GoString}
    {passive durable autoDelete internal noWait : Bool} {args : Table}
    (hA : (exchangeDeclare exchange exType passive durable autoDelete internal noWait
      args).encode = .ok A) :
    Faithful (.exchangeDeclare exchange exType passive durable autoDelete internal noWait args) A ↔
      Aligned (.exchangeDeclare exchange exType passive durable autoDelete internal noWait
        args) := by
  obtain ⟨T, hT, rfl⟩ := withTable_eq_ok hA
  set bits := packBits [passive, durable, autoDelete, internal, noWait] with hbits
  have hA' : writeUint16 0 ++ writeShortString [] ++ writeShortString exType ++ writeUint8 bits ++
      T = 0 :: 0 :: 0 :: (writeShortString exType ++ bits :: T) := by
    rw [writeUint16_zero]
    simp [writeShortString, writeUint8]
  constructor
  · intro h
    obtain ⟨r, rest, hd, hd'⟩ := faithful_decodes_ids h
    obtain ⟨ty, b, mid, args', hread, htable, rfl⟩ := decode_exchangeDeclare.mp hd'
    obtain rfl : exchange = [] := faithful_name h hd rfl rfl rfl
    obtain ⟨hp, hn, hdecl⟩ := agree_exchangeDeclare (h.agree hd)
    rw [hA'] at hread
    obtain ⟨hle, hty, hdrop⟩ := shortString_eq_ok hread
    have hlen : ty.length = 10 := by
      rw [hty, length_take]
      exact Nat.min_eq_left hle
    refine ⟨rfl, T, b, mid, args', rest, hT, hdrop.symm, table_eq_ok htable, hp, hn, ?_⟩
    cases passive with
    | true => exact Or.inl rfl
    | false =>
      obtain ⟨htype, hargs⟩ := hdecl hp
      refine Or.inr ⟨?_, hargs⟩
      rintro rfl
      rw [exchangeTypeOf_ten hlen] at htype
      exact absurd htype (by decide)
  · rintro ⟨rfl, T', b, mid, args', rest, hT', hdrop, htable, hp, hn, hdecl⟩
    obtain rfl : T = T' := Except.ok.inj (hT.symm.trans hT')
    rw [← hbits] at hdrop
    have hle : (10 : UInt8).toNat ≤
        (0 :: 0 :: 0 :: (writeShortString exType ++ bits :: T)).length := by
      have := congrArg List.length hdrop
      rw [length_drop, length_cons] at this
      show 10 ≤ (writeShortString exType ++ bits :: T).length + 3
      omega
    have hread := shortString_of_le hle
    rw [show (0 :: 0 :: 0 :: (writeShortString exType ++ bits :: T)).drop (10 : UInt8).toNat =
      b :: mid from hdrop] at hread
    set ty := (0 :: 0 :: 0 :: (writeShortString exType ++ bits :: T)).take (10 : UInt8).toNat
      with hty
    have hlen : ty.length = 10 := by
      rw [hty, length_take]
      exact Nat.min_eq_left hle
    have hd := decode_exchangeDeclare.mpr ⟨ty, b, mid, args', hread, table_of_read htable, rfl⟩
    rw [← hA'] at hd
    refine faithful_of_decodes (r := .exchangeDeclare [] ty (bit b 0x01) (bit b 0x02) (bit b 0x04)
      (bit b 0x08) (bit b 0x10) args') (by rw [payload_eq]; exact hd) rfl fun env ch s => ?_
    show s.performExchangeDeclare ch [] ty (bit b 0x01) (bit b 0x10) args' =
      s.performExchangeDeclare ch [] exType passive noWait args
    rw [hp, hn]
    rcases hdecl with rfl | ⟨hfanout, rfl⟩
    · rfl
    · unfold Server.performExchangeDeclare
      rw [exchangeTypeOf_ten hlen, Server.exchangeTypeOf, if_neg hfanout]

theorem decode_exchangeBind :
    decodeExchangeBind permit (0 :: 40 :: 0 :: 30 :: bs) = .ok (req, rest) ↔
      ∃ source mid key b mid' args, shortString (30 :: bs) = .ok (source, mid) ∧
        shortString mid = .ok (key, b :: mid') ∧ table mid' = .ok (args, rest) ∧
        req = .exchangeBind [] source key (bit b 0x01) args := by
  unfold decodeExchangeBind
  rw [bind_of_ok (skipUint16_cons _ _ _), bind_of_ok (shortString_zero _)]
  constructor
  · intro h
    obtain ⟨source, mid, hsrc, h⟩ := bind_eq_ok h
    rw [bind_of_ok (permit_ok _ _)] at h
    obtain ⟨key, mid', hkey, h⟩ := bind_eq_ok h
    obtain ⟨b, mid'', hb, h⟩ := bind_eq_ok h
    obtain ⟨args, mid3, hargs, h⟩ := bind_eq_ok h
    cases h
    rw [uint8_eq_ok hb] at hkey
    exact ⟨source, mid, key, b, mid'', args, hsrc, hkey, hargs, rfl⟩
  · rintro ⟨source, mid, key, b, mid', args, hsrc, hkey, hargs, rfl⟩
    rw [bind_of_ok hsrc, bind_of_ok (permit_ok _ _), bind_of_ok hkey,
      bind_of_ok (uint8_cons _ _), bind_of_ok hargs]
    rfl

theorem faithful_exchangeBind {destination source key : GoString} {noWait : Bool} {args : Table}
    (hA : (exchangeBind destination source key noWait args).encode = .ok A) :
    Faithful (.exchangeBind destination source key noWait args) A ↔
      Aligned (.exchangeBind destination source key noWait args) := by
  obtain ⟨T, hT, rfl⟩ := withTable_eq_ok hA
  have hA' : writeUint16 0 ++ writeShortString [] ++ writeShortString source ++
      writeShortString key ++ writeUint8 (packBits [noWait]) ++ T =
        early source (writeShortString key ++ packBits [noWait] :: T) := by
    rw [append_assoc, append_assoc, written_early]
    rfl
  constructor
  · intro h
    obtain ⟨r, rest, hd, hd'⟩ := faithful_decodes_ids h
    obtain ⟨source', mid, key', b, mid', args', hsrc, hkey, htable, rfl⟩ :=
      decode_exchangeBind.mp hd'
    obtain rfl : destination = [] := faithful_name h hd rfl rfl rfl
    have hne : source' ≠ [] := by
      obtain ⟨hle, htake, -⟩ := shortString_eq_ok hsrc
      have hl := congrArg List.length htake
      rw [length_take, Nat.min_eq_left hle] at hl
      rintro rfl
      exact absurd hl (by decide)
    obtain ⟨rfl, rfl, rfl, rfl⟩ := agree_exchangeBind hne (h.agree hd)
    rw [hA'] at hsrc
    obtain ⟨hs, rfl, hrest⟩ := shortString_early_next (by decide) rfl hsrc hkey
    cases hrest
    have hempty := htable.symm.trans (table_zero T)
    cases hempty
    exact ⟨rfl, hs, rfl, rfl, rfl⟩
  · rintro ⟨rfl, rfl, rfl, rfl, rfl⟩
    have hsrc : shortString (30 :: early (repeating 30) (writeShortString [] ++
        packBits [false] :: T)) = .ok (repeating 30, 0 :: 30 :: 0 :: 0 :: 0 :: 0 :: T) :=
      (shortString_early (by decide)).mpr ⟨rfl, rfl⟩
    have hd := decode_exchangeBind.mpr
      ⟨_, _, _, _, _, _, hsrc, shortString_zero _, table_zero T, rfl⟩
    rw [← hA'] at hd
    exact faithful_of_decodes (by rw [payload_eq]; exact hd) rfl fun _ _ _ => rfl

theorem decode_exchangeUnbind :
    decodeExchangeUnbind permit (0 :: 40 :: 0 :: 40 :: bs) = .ok (req, rest) ↔
      ∃ source mid key b, shortString (40 :: bs) = .ok (source, mid) ∧
        shortString mid = .ok (key, b :: rest) ∧
        req = .exchangeUnbind [] source key (bit b 0x01) := by
  unfold decodeExchangeUnbind
  rw [bind_of_ok (skipUint16_cons _ _ _), bind_of_ok (shortString_zero _)]
  constructor
  · intro h
    obtain ⟨source, mid, hsrc, h⟩ := bind_eq_ok h
    rw [bind_of_ok (permit_ok _ _)] at h
    obtain ⟨key, mid', hkey, h⟩ := bind_eq_ok h
    obtain ⟨b, mid'', hb, h⟩ := bind_eq_ok h
    cases h
    rw [uint8_eq_ok hb] at hkey
    exact ⟨source, mid, key, b, hsrc, hkey, rfl⟩
  · rintro ⟨source, mid, key, b, hsrc, hkey, rfl⟩
    rw [bind_of_ok hsrc, bind_of_ok (permit_ok _ _), bind_of_ok hkey,
      bind_of_ok (uint8_cons _ _)]
    rfl

theorem faithful_exchangeUnbind {destination source key : GoString} {noWait : Bool}
    (hA : (exchangeUnbind destination source key noWait).encode = .ok A) :
    Faithful (.exchangeUnbind destination source key noWait) A ↔
      Aligned (.exchangeUnbind destination source key noWait) := by
  have hA' : destination = [] →
      A = early source (writeShortString key ++ [packBits [noWait]]) := by
    rintro rfl
    rw [← Except.ok.inj hA, append_assoc, written_early]
    rfl
  constructor
  · intro h
    obtain ⟨r, rest, hd, hd'⟩ := faithful_decodes_ids h
    obtain ⟨source', mid, key', b, hsrc, hkey, rfl⟩ := decode_exchangeUnbind.mp hd'
    have hdest : destination = [] := faithful_name h hd rfl rfl rfl
    subst hdest
    obtain ⟨rfl, rfl, rfl⟩ := agree_exchangeUnbind (h.agree hd)
    rw [hA' rfl] at hsrc
    obtain ⟨hs, rfl, hrest⟩ := shortString_early_next (by decide) rfl hsrc hkey
    cases hrest
    exact ⟨rfl, hs, rfl, rfl⟩
  · rintro ⟨rfl, rfl, rfl, rfl⟩
    have hsrc : shortString (40 :: A) = .ok (repeating 40, [0, 0, 0, 40, 0, 0]) := by
      rw [hA' rfl]
      exact (shortString_early (by decide)).mpr ⟨rfl, rfl⟩
    have hd := decode_exchangeUnbind.mpr ⟨_, _, _, _, hsrc, shortString_zero _, rfl⟩
    exact faithful_of_decodes (by rw [payload_eq]; exact hd) rfl fun _ _ _ => rfl

end Names

/-! ## All methods -/

/-- A frame whose payload fits into a frame does what its operation does with its arguments exactly
if the arguments are aligned. -/
theorem faithful_iff_aligned (req : Request) (A : Bytes) (hA : req.encode = .ok A)
    (hlen : A.length < 2 ^ 32) : Faithful req A ↔ Aligned req := by
  cases req with
  | qos => exact faithful_qos hA
  | consume => exact iff_of_false (not_faithful_consume hA hlen) id
  | cancel => exact faithful_cancel
  | publish => exact faithful_publish hA
  | get => exact faithful_get
  | ack => exact faithful_ack hA
  | reject => exact faithful_reject hA
  | recover => exact faithful_recover
  | nack => exact faithful_nack hA
  | queueDeclare => exact iff_of_false (not_faithful_queueDeclare hA hlen) id
  | queueBind => exact iff_of_false (not_faithful_queueBind hA hlen) id
  | queuePurge => exact faithful_queuePurge
  | queueDelete => exact faithful_queueDelete
  | queueUnbind => exact iff_of_false (not_faithful_queueUnbind hA hlen) id
  | exchangeDeclare => exact faithful_exchangeDeclare hA
  | exchangeDelete => exact faithful_exchangeDelete
  | exchangeBind => exact faithful_exchangeBind hA
  | exchangeUnbind => exact faithful_exchangeUnbind hA
  | confirmSelect => exact faithful_confirmSelect

/-- `Recover` without requeueing survives: its flag octet is read from the class id. -/
theorem faithful_recover_discard : Faithful (.recover false) [0] :=
  (faithful_iff_aligned (.recover false) [0] rfl (by decide)).mpr rfl

def declareQ : Request := .queueDeclare (str "q") false false false false false []

def declareQArgs : Bytes := [0, 0, 1, 113, 0, 0, 0, 0, 0]

/-- The name is taken for the size of the table, and no queue is declared. -/
theorem declareQ_not_faithful :
    declareQ.encode = .ok declareQArgs ∧
      (dispatch default 0 ⟨frameMethod, 1, declareQ.payload declareQArgs⟩ (txChannel none)).1 =
        some (.read .unexpectedEOF) ∧
      ((dispatch default 0 ⟨frameMethod, 1, declareQ.payload declareQArgs⟩
        (txChannel none)).2.queues.get (str "q")).isNone ∧
      ((exec default 0 declareQ (txChannel none)).2.queues.get (str "q")).isSome ∧
      ¬ Faithful declareQ declareQArgs := by
  have herr : (dispatch default 0 ⟨frameMethod, 1, declareQ.payload declareQArgs⟩
      (txChannel none)).1 = some (.read .unexpectedEOF) := rfl
  refine ⟨rfl, herr, rfl, rfl, fun h => ?_⟩
  rw [h] at herr
  cases herr

end Gomq.Broker
