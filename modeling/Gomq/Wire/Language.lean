import Gomq.Wire.Frame
import Gomq.Wire.Reads

/-!
# What the two frame readers accept

`Decoder.ReadFrame` reads field by field, `Framer.NextFrame` peeks at the header and then at the
whole frame. Both return the frame that the input begins with (`decoderReadFrame_eq_ok_iff`,
`nextFrame_eq_ok_iff`), but only the framer looks at its type. And `EncodeFrame` writes the length
of a payload in four bytes, whatever the length is. So both readers accept what the encoder produces
exactly on inputs without a frame of an unknown type and without one whose length does not fit
(`frameReaders_language_iff`).
-/

namespace Gomq.Wire

open List

inductive DecodeError where
  | read (e : ReadError)
  | frame (e : FrameError)

/-- `Decoder.ReadFrame`: the frame and the bytes after it. -/
def decoderReadFrame (maxSize : ℕ) (bs : Bytes) : Except DecodeError (Frame × Bytes) := do
  let (ft, bs) ← (readUint8 bs).orFail.mapError .read
  let (ch, bs) ← (readUint16 bs).orFail.mapError .read
  let (length, bs) ← (readUint32 bs).orFail.mapError .read
  if maxSize < length.toNat then throw (.frame (.payloadExceedsMax length.toNat maxSize))
  let (payload, bs) ← (readFull length.toNat bs).orFail.mapError .read
  let (fin, bs) ← (readUint8 bs).orFail.mapError .read
  if fin ≠ frameEnd then throw (.frame (.badFrameEnd fin))
  pure (⟨ft, ch, payload⟩, bs)

structure Framer where
  bufSize : ℕ
  maxSize : ℕ

def newFramer (bufSize maxSize : ℕ) : Framer :=
  ⟨bufSize, if maxSize < frameMinSize then frameMaxDefault else maxSize⟩

def Framer.nextFrame (f : Framer) (bs : Bytes) : Except FrameError (Frame × Bytes) :=
  Wire.nextFrame f.bufSize f.maxSize bs

/-! ## Frames on the wire -/

def Frame.wire (f : Frame) : Bytes :=
  writeUint8 f.type ++ writeUint16 f.channel ++ writeUint32 (UInt32.ofNat f.payload.length) ++
    f.payload ++ writeUint8 frameEnd

theorem encodeFrame_of_valid {f : Frame} (h : isValidFrameType f.type = true) :
    encodeFrame f = .ok f.wire := if_pos h

theorem encodeFrame_eq_ok_iff {f : Frame} {b : Bytes} :
    encodeFrame f = .ok b ↔ isValidFrameType f.type = true ∧ b = f.wire := by
  unfold encodeFrame
  split
  · next h => exact ⟨fun heq => ⟨h, (Except.ok.inj heq).symm⟩, fun heq => congrArg _ heq.2.symm⟩
  · next h => exact ⟨nofun, fun heq => absurd heq.1 h⟩

/-- The payload is within the limit, and its length is not cut. -/
def Frame.Within (maxSize : ℕ) (f : Frame) : Prop :=
  f.payload.length ≤ maxSize ∧ f.payload.length < 2 ^ 32

/-! ## `ReadFrame` -/

theorem bind_eq_ok_iff {ε α β : Type} {x : Except ε α} {f : α → Except ε β} {b : β} :
    x >>= f = .ok b ↔ ∃ a, x = .ok a ∧ f a = .ok b := by
  cases x with
  | error e => exact ⟨nofun, fun ⟨_, h, _⟩ => nomatch h⟩
  | ok a => exact ⟨fun h => ⟨a, rfl, h⟩, fun ⟨_, h, hf⟩ => Except.ok.inj h ▸ hf⟩

theorem mapError_eq_ok_iff {ε ε' α : Type} {g : ε → ε'} {x : Except ε α} {a : α} :
    x.mapError g = .ok a ↔ x = .ok a := by
  cases x <;> simp [Except.mapError]

theorem decoderReadFrame_wire {maxSize : ℕ} {f : Frame} (h : f.Within maxSize) (rest : Bytes) :
    decoderReadFrame maxSize (f.wire ++ rest) = .ok (f, rest) := by
  have hlen : (UInt32.ofNat f.payload.length).toNat = f.payload.length :=
    UInt32.toNat_ofNat_of_lt' h.2
  unfold decoderReadFrame Frame.wire
  simp only [append_assoc, readUint8_write, readUint16_write, readUint32_write,
    readFull_append, Read.orFail_mk, hlen, Except.mapError, bind, Except.bind, pure, Except.pure,
    if_neg (not_lt.mpr h.1), ne_eq, not_true_eq_false, if_false]

theorem decoderReadFrame_eq_ok_iff {maxSize : ℕ} {bs rest : Bytes} {f : Frame} :
    decoderReadFrame maxSize bs = .ok (f, rest) ↔ f.Within maxSize ∧ bs = f.wire ++ rest := by
  refine ⟨fun h => ?_, fun ⟨hf, hbs⟩ => hbs ▸ decoderReadFrame_wire hf rest⟩
  -- one field after the other
  unfold decoderReadFrame at h
  obtain ⟨⟨ft, bs₁⟩, h₁, h⟩ := bind_eq_ok_iff.mp h
  obtain ⟨⟨ch, bs₂⟩, h₂, h⟩ := bind_eq_ok_iff.mp h
  obtain ⟨⟨length, bs₃⟩, h₃, h⟩ := bind_eq_ok_iff.mp h
  dsimp only at h
  split at h
  · cases h
  next hmax =>
  obtain ⟨⟨payload, bs₄⟩, h₄, h⟩ := bind_eq_ok_iff.mp h
  dsimp only at h
  obtain ⟨⟨fin, bs₅⟩, h₅, h⟩ := bind_eq_ok_iff.mp h
  dsimp only at h
  split at h
  · cases h
  next hfin =>
  cases h
  rw [mapError_eq_ok_iff, readUint8_eq_ok_iff] at h₁ h₅
  rw [mapError_eq_ok_iff, readUint16_eq_ok_iff] at h₂
  rw [mapError_eq_ok_iff, readUint32_eq_ok_iff] at h₃
  rw [mapError_eq_ok_iff, readFull_eq_ok_iff] at h₄
  obtain ⟨hlen, h₄⟩ := h₄
  refine ⟨⟨hlen ▸ not_lt.mp hmax, hlen ▸ length.toNat_lt⟩, ?_⟩
  rw [h₁, h₂, h₃, h₄, h₅, not_not.mp hfin, Frame.wire, hlen, UInt32.ofNat_toNat]
  simp only [append_assoc]

/-! ## `NextFrame` -/

theorem peek_eq_ok_iff {bufSize n : ℕ} {bs data : Bytes} :
    peek bufSize n bs = .ok data ↔ n ≤ bufSize ∧ n ≤ bs.length ∧ data = bs.take n := by
  unfold peek
  split
  · next h => exact ⟨nofun, fun h' => absurd h'.1 (not_le.mpr h)⟩
  next h =>
  split
  · next hn => exact ⟨fun heq => ⟨not_lt.mp h, hn, (Except.ok.inj heq).symm⟩,
      fun heq => congrArg _ heq.2.2.symm⟩
  · next hn => exact ⟨nofun, fun h' => absurd h'.2.1 hn⟩

theorem writeUint16_ofBe {c : Bytes} (h : c.length = 2) :
    writeUint16 (UInt16.ofNat (ofBe c)) = c := by
  have hlt : ofBe c < 2 ^ 16 := (ofBe_lt c).trans_eq (by rw [h]; rfl)
  rw [writeUint16, UInt16.toNat_ofNat_of_lt' hlt, ← h, beBytes_ofBe]

theorem writeUint32_ofBe {l : Bytes} (h : l.length = 4) :
    writeUint32 (UInt32.ofNat (ofBe l)) = l := by
  have hlt : ofBe l < 2 ^ 32 := (ofBe_lt l).trans_eq (by rw [h]; rfl)
  rw [writeUint32, UInt32.toNat_ofNat_of_lt' hlt, ← h, beBytes_ofBe]

theorem exists_header {bs : Bytes} (h : 7 ≤ bs.length) :
    ∃ t c l tail, c.length = 2 ∧ l.length = 4 ∧ bs = t :: (c ++ (l ++ tail)) := by
  cases bs with
  | nil => cases h
  | cons t bs =>
    have hlen : 6 ≤ bs.length := Nat.le_of_succ_le_succ h
    refine ⟨t, bs.take 2, (bs.drop 2).take 4, bs.drop 6, ?_, ?_, ?_⟩
    · rw [length_take]
      omega
    · rw [length_take, length_drop]
      omega
    · rw [← append_assoc, ← take_add, take_append_drop]

theorem peek_whole (bufSize n : ℕ) {head : Bytes} (h : head.length = 7) (tail : Bytes) :
    peek bufSize (7 + n + 1) (head ++ tail) =
      if bufSize < 7 + n + 1 then .error .bufferFull
      else if tail.length < n + 1 then .error .eof
      else .ok (head ++ tail.take (n + 1)) := by
  unfold peek
  refine if_congr Iff.rfl rfl ?_
  have hlen : (head ++ tail).length = 7 + tail.length := by rw [length_append, h]
  have htake : (head ++ tail).take (7 + n + 1) = head ++ tail.take (n + 1) := by
    rw [Nat.add_assoc, ← h, take_length_add_append]
  by_cases hshort : tail.length < n + 1
  · rw [if_pos hshort, if_neg (by omega)]
  · rw [if_neg hshort, if_pos (by omega), htake]

theorem nextFrame_header {bufSize : ℕ} (hbuf : 7 ≤ bufSize) (maxSize : ℕ) (t : UInt8)
    {c l : Bytes} (hc : c.length = 2) (hl : l.length = 4) (tail : Bytes) :
    nextFrame bufSize maxSize (t :: (c ++ (l ++ tail))) =
      if isValidFrameType t = false then .error (.invalidFrameType t)
      else if maxSize < ofBe l then .error (.payloadExceedsMax (ofBe l) maxSize)
      else if bufSize < 7 + ofBe l + 1 then .error .bufferFull
      else if tail.length < ofBe l + 1 then .error .eof
      else if tail.getD (ofBe l) 0 ≠ frameEnd then .error (.badFrameEnd (tail.getD (ofBe l) 0))
      else .ok (⟨t, UInt16.ofNat (ofBe c), tail.take (ofBe l)⟩, tail.drop (ofBe l + 1)) := by
  set n := ofBe l with hn
  set head := t :: (c ++ l) with hhead
  have hlen : head.length = 7 := by
    rw [hhead, length_cons, length_append, hc, hl]
  have hbs : t :: (c ++ (l ++ tail)) = head ++ tail := by
    rw [hhead, cons_append, append_assoc]
  have hpeek : peek bufSize 7 (head ++ tail) = .ok head :=
    peek_eq_ok_iff.mpr ⟨hbuf, by rw [length_append]; omega, by rw [← hlen, take_left]⟩
  have hsize : ofBe (head.drop 3) = n := by
    rw [hhead, hn, drop_succ_cons, ← hc, drop_left]
  -- what is cut out of the whole frame
  have hend : (head ++ tail.take (n + 1)).getD (7 + n + 1 - 1) 0 = tail.getD n 0 := by
    rw [Nat.add_sub_cancel, ← hlen, getD_eq_getElem?_getD,
      List.getElem?_append_right (Nat.le_add_right _ _), Nat.add_sub_cancel_left,
      List.getElem?_take_of_lt (Nat.lt_succ_self n), getD_eq_getElem?_getD]
  have hchan : ((head ++ tail.take (n + 1)).drop 1).take 2 = c := by
    rw [hhead, cons_append, drop_succ_cons, drop_zero, append_assoc, ← hc,
      take_left]
  have hpayload : ((head ++ tail.take (n + 1)).drop 7).take n = tail.take n := by
    rw [← hlen, drop_left, take_take, Nat.min_eq_left (Nat.le_succ n)]
  have hrest : (head ++ tail).drop (7 + n + 1) = tail.drop (n + 1) := by
    rw [Nat.add_assoc, ← hlen, drop_length_add_append]
  rw [hbs]
  unfold nextFrame
  rw [hpeek]
  simp only [bind, Except.bind, pure, Except.pure, throw, throwThe, MonadExceptOf.throw, hsize,
    peek_whole bufSize n hlen]
  refine if_congr (by simp [hhead]) rfl (if_congr Iff.rfl rfl ?_)
  by_cases hfull : bufSize < 7 + n + 1
  · simp only [if_pos hfull]
  by_cases hshort : tail.length < n + 1
  · simp only [if_neg hfull, if_pos hshort]
  simp only [if_neg hfull, if_neg hshort, hend, hchan, hpayload, hrest]
  rfl

theorem wire_append (f : Frame) (rest : Bytes) :
    f.wire ++ rest = f.type :: (writeUint16 f.channel ++
      (writeUint32 (UInt32.ofNat f.payload.length) ++ (f.payload ++ frameEnd :: rest))) := by
  simp [Frame.wire, writeUint8]

theorem nextFrame_wire {bufSize maxSize : ℕ} (hbuf : 7 ≤ bufSize) {f : Frame}
    (htype : isValidFrameType f.type = true) (h : f.Within maxSize) (rest : Bytes) :
    nextFrame bufSize maxSize (f.wire ++ rest) =
      if bufSize < 7 + f.payload.length + 1 then .error .bufferFull else .ok (f, rest) := by
  have hsize : ofBe (writeUint32 (UInt32.ofNat f.payload.length)) = f.payload.length := by
    rw [writeUint32, ofBe_beBytes_of_lt (UInt32.toNat_lt _), UInt32.toNat_ofNat_of_lt' h.2]
  have hchan : UInt16.ofNat (ofBe (writeUint16 f.channel)) = f.channel := by
    rw [writeUint16, ofBe_beBytes_of_lt f.channel.toNat_lt, UInt16.ofNat_toNat]
  have htail : ¬ (f.payload ++ frameEnd :: rest).length < f.payload.length + 1 := by
    rw [length_append, length_cons]
    omega
  have hend : (f.payload ++ frameEnd :: rest).getD f.payload.length 0 = frameEnd := by
    simp [getD_eq_getElem?_getD]
  have hchanLen : (writeUint16 f.channel).length = 2 := length_beBytes 2 _
  have hsizeLen : (writeUint32 (UInt32.ofNat f.payload.length)).length = 4 := length_beBytes 4 _
  rw [wire_append, nextFrame_header hbuf maxSize f.type hchanLen hsizeLen, hsize,
    if_neg (by rw [htype]; decide), if_neg (not_lt.mpr h.1), if_neg htail, hend,
    if_neg (not_not.mpr rfl), take_left, hchan, drop_length_add_append]
  rfl

theorem nextFrame_eq_ok_iff {bufSize maxSize : ℕ} {bs rest : Bytes} {f : Frame} :
    nextFrame bufSize maxSize bs = .ok (f, rest) ↔
      isValidFrameType f.type = true ∧ f.Within maxSize ∧ 7 + f.payload.length + 1 ≤ bufSize ∧
        bs = f.wire ++ rest := by
  constructor
  · intro h
    obtain ⟨hbuf, hlen⟩ : 7 ≤ bufSize ∧ 7 ≤ bs.length := by
      obtain ⟨header, hpeek, -⟩ := bind_eq_ok_iff.mp h
      exact (peek_eq_ok_iff.mp hpeek).imp_right And.left
    obtain ⟨t, c, l, tail, hc, hl, rfl⟩ := exists_header hlen
    rw [nextFrame_header hbuf maxSize t hc hl] at h
    split at h
    · cases h
    next htype =>
    split at h
    · cases h
    next hmax =>
    split at h
    · cases h
    next hfit =>
    split at h
    · cases h
    next hlong =>
    split at h
    · cases h
    next hend =>
    cases h
    have hpayload : (tail.take (ofBe l)).length = ofBe l := by
      rw [length_take]
      omega
    have htail : tail = tail.take (ofBe l) ++ frameEnd :: tail.drop (ofBe l + 1) := by
      have hlt : ofBe l < tail.length := not_lt.mp hlong
      rw [← not_not.mp hend, getD_eq_getElem?_getD, List.getElem?_eq_getElem hlt,
        Option.getD_some, ← drop_eq_getElem_cons hlt, take_append_drop]
    have hwithin : ofBe l ≤ maxSize ∧ ofBe l < 2 ^ 32 :=
      ⟨not_lt.mp hmax, (ofBe_lt l).trans_eq (by rw [hl]; rfl)⟩
    refine ⟨by simpa using htype, ?_, ?_, ?_⟩
    · rwa [Frame.Within, hpayload]
    · rw [hpayload]
      exact not_lt.mp hfit
    · rw [wire_append, hpayload, writeUint16_ofBe hc, writeUint32_ofBe hl, ← htail]
  · rintro ⟨htype, hf, hfit, rfl⟩
    have hbuf : 7 ≤ bufSize := by omega
    rw [nextFrame_wire hbuf htype hf, if_neg (not_lt.mpr hfit)]

/-! ## The language of frames -/

/-- The input begins with the encoding of the frame, whose payload is within the limit. -/
def Encodes (maxSize : ℕ) (bs : Bytes) (f : Frame) : Prop :=
  isValidFrameType f.type = true ∧ f.payload.length ≤ maxSize ∧
    ∃ b, encodeFrame f = .ok b ∧ b <+: bs

def DecoderReturns (maxSize : ℕ) (bs : Bytes) (f : Frame) : Prop :=
  ∃ rest, decoderReadFrame maxSize bs = .ok (f, rest)

def FramerReturns (bufSize maxSize : ℕ) (bs : Bytes) (f : Frame) : Prop :=
  ∃ rest, (newFramer bufSize maxSize).nextFrame bs = .ok (f, rest)

def Begins (maxSize : ℕ) (bs : Bytes) (f : Frame) : Prop := f.Within maxSize ∧ f.wire <+: bs

theorem encodes_iff {maxSize : ℕ} {bs : Bytes} {f : Frame} :
    Encodes maxSize bs f ↔
      isValidFrameType f.type = true ∧ f.payload.length ≤ maxSize ∧ f.wire <+: bs := by
  unfold Encodes
  constructor
  · rintro ⟨htype, hmax, b, hb, hpre⟩
    rw [(encodeFrame_eq_ok_iff.mp hb).2] at hpre
    exact ⟨htype, hmax, hpre⟩
  · rintro ⟨htype, hmax, hpre⟩
    exact ⟨htype, hmax, f.wire, encodeFrame_of_valid htype, hpre⟩

theorem decoderReturns_iff {maxSize : ℕ} {bs : Bytes} {f : Frame} :
    DecoderReturns maxSize bs f ↔ Begins maxSize bs f := by
  unfold DecoderReturns Begins
  simp only [decoderReadFrame_eq_ok_iff, exists_and_left, prefix_iff_exists_eq_append]

theorem framerReturns_iff {bufSize maxSize : ℕ} (hmin : frameMinSize ≤ maxSize)
    (hbuf : maxSize + 8 ≤ bufSize) {bs : Bytes} {f : Frame} :
    FramerReturns bufSize maxSize bs f ↔ isValidFrameType f.type = true ∧ Begins maxSize bs f := by
  have hnew : newFramer bufSize maxSize = ⟨bufSize, maxSize⟩ := by
    rw [newFramer, if_neg (not_lt.mpr hmin)]
  unfold FramerReturns Begins Framer.nextFrame
  rw [hnew]
  simp only [nextFrame_eq_ok_iff]
  constructor
  · rintro ⟨rest, htype, hf, -, rfl⟩
    exact ⟨htype, hf, prefix_append _ _⟩
  · rintro ⟨htype, hf, rest, rfl⟩
    have hfit : 7 + f.payload.length + 1 ≤ bufSize := by
      have := hf.1
      omega
    exact ⟨rest, htype, hf, hfit, rfl⟩

/-- With a large buffer, `NextFrame` returns exactly what `EncodeFrame` writes. -/
theorem framerReturns_iff_encodes {bufSize maxSize : ℕ} (hmin : frameMinSize ≤ maxSize)
    (hmax : maxSize < 2 ^ 32) (hbuf : maxSize + 8 ≤ bufSize) {bs : Bytes} {f : Frame} :
    FramerReturns bufSize maxSize bs f ↔ Encodes maxSize bs f := by
  rw [framerReturns_iff hmin hbuf, encodes_iff]
  constructor
  · rintro ⟨htype, hf, hpre⟩
    exact ⟨htype, hf.1, hpre⟩
  · rintro ⟨htype, hlen, hpre⟩
    exact ⟨htype, ⟨hlen, hlen.trans_lt hmax⟩, hpre⟩

theorem framerReturns_iff_encodes_heartbeat :
    FramerReturns 4104 4096 [8, 0, 0, 0, 0, 0, 0, 0xCE] ⟨8, 0, []⟩ :=
  (framerReturns_iff_encodes (by decide) (by decide) le_rfl).mpr
    ⟨rfl, Nat.zero_le _, _, rfl, [], rfl⟩

/-- Both readers accept what `EncodeFrame` produces, with the frame it is the encoding of, exactly
on inputs that do not begin with a frame of an unknown type nor with the encoding of a frame whose
length does not fit in four bytes. -/
theorem frameReaders_language_iff {maxSize : ℕ} (hmin : frameMinSize ≤ maxSize) (bs : Bytes) :
    (∀ f, (DecoderReturns maxSize bs f ↔ Encodes maxSize bs f) ∧
      ∀ bufSize, maxSize + 8 ≤ bufSize →
        (FramerReturns bufSize maxSize bs f ↔ DecoderReturns maxSize bs f)) ↔
      (∀ f, Begins maxSize bs f → isValidFrameType f.type = true) ∧
        ∀ f, Encodes maxSize bs f → f.payload.length < 2 ^ 32 := by
  constructor
  · intro h
    constructor
    · intro f hf
      exact ((h f).1.mp (decoderReturns_iff.mpr hf)).1
    · intro f hf
      exact (decoderReturns_iff.mp ((h f).1.mpr hf)).1.2
  · rintro ⟨htypes, hlengths⟩ f
    constructor
    · rw [decoderReturns_iff]
      constructor
      · intro hf
        exact encodes_iff.mpr ⟨htypes f hf, hf.1.1, hf.2⟩
      · intro hf
        obtain ⟨-, hmax, hpre⟩ := encodes_iff.mp hf
        exact ⟨⟨hmax, hlengths f hf⟩, hpre⟩
    · intro bufSize hbuf
      rw [framerReturns_iff hmin hbuf, decoderReturns_iff]
      exact ⟨fun hf => hf.2, fun hf => ⟨htypes f hf, hf⟩⟩

theorem frameReaders_language_iff_heartbeat :
    (∀ f, (DecoderReturns 4096 [8, 0, 0, 0, 0, 0, 0, 0xCE] f ↔
        Encodes 4096 [8, 0, 0, 0, 0, 0, 0, 0xCE] f) ∧
      ∀ bufSize, 4096 + 8 ≤ bufSize →
        (FramerReturns bufSize 4096 [8, 0, 0, 0, 0, 0, 0, 0xCE] f ↔
          DecoderReturns 4096 [8, 0, 0, 0, 0, 0, 0, 0xCE] f)) ↔
      (∀ f, Begins 4096 [8, 0, 0, 0, 0, 0, 0, 0xCE] f → isValidFrameType f.type = true) ∧
        ∀ f, Encodes 4096 [8, 0, 0, 0, 0, 0, 0, 0xCE] f → f.payload.length < 2 ^ 32 :=
  frameReaders_language_iff (by decide) [8, 0, 0, 0, 0, 0, 0, 0xCE]

/-- A frame of type 4, which `EncodeFrame` never writes: `ReadFrame` returns it, `NextFrame` refuses
it. -/
theorem frameReaders_language_unknownType :
    decoderReadFrame 4096 [4, 0, 0, 0, 0, 0, 0, 0xCE] = .ok (⟨4, 0, []⟩, []) ∧
      (newFramer 4104 4096).nextFrame [4, 0, 0, 0, 0, 0, 0, 0xCE] =
        .error (.invalidFrameType 4) ∧
      ∀ f, ¬ Encodes 4096 [4, 0, 0, 0, 0, 0, 0, 0xCE] f := by
  refine ⟨rfl, rfl, ?_⟩
  intro f hf
  obtain ⟨htype, -, rest, hwire⟩ := encodes_iff.mp hf
  rw [wire_append] at hwire
  rw [(List.cons.inj hwire).1] at htype
  cases htype

end Gomq.Wire
