import Gomq.Wire.RoundTrip

/-!
# The encoder and its buffer

`Codec` says which bytes each method writes. Here the encoder is the buffer that it writes to, so
that what a failed write leaves behind can be said. No write to the buffer itself fails.

* A short string comes back unless it is longer than its length octet can say
  (`shortStringSafe_iff`); the encoder has no error for it.
* `WriteTable` writes the entries to a temporary encoder first. A value of a type that it does not
  know, at any depth, makes it fail with nothing written (`writeTable_clean`). `writeTableValue` is
  not clean: the tag of a nested table stays in the temporary encoder, which is dropped.
-/

namespace Gomq.Wire

open List

structure Encoder where
  buf : Bytes
  deriving DecidableEq

def newEncoder : Encoder := ⟨[]⟩

namespace Encoder

def write (e : Encoder) (b : Bytes) : Option WriteError × Encoder := (none, ⟨e.buf ++ b⟩)

def writeUint8 (e : Encoder) (v : UInt8) : Option WriteError × Encoder :=
  e.write (Wire.writeUint8 v)

def writeShortString (e : Encoder) (v : GoString) : Option WriteError × Encoder :=
  match e.writeUint8 (UInt8.ofNat v.length) with
  | (some err, e) => (some err, e)
  | (none, e) => e.write v

/-- The end of `WriteTable`: the temporary encoder's bytes with their number in front, or its
error. -/
def writeSized (e : Encoder) : Option WriteError × Encoder → Option WriteError × Encoder
  | (some err, _) => (some err, e)
  | (none, tmp) => e.write (writeUint32 (UInt32.ofNat tmp.buf.length) ++ tmp.buf)

mutual

def writeTableValue (e : Encoder) : Value → Option WriteError × Encoder
  | .bool v => e.write (Wire.writeUint8 0x74 ++ writeBool v)
  | .int8 v => e.write (Wire.writeUint8 0x62 ++ writeInt8 v)
  | .uint8 v => e.write (Wire.writeUint8 0x42 ++ Wire.writeUint8 v)
  | .int16 v => e.write (Wire.writeUint8 0x73 ++ writeInt16 v)
  | .uint16 v => e.write (Wire.writeUint8 0x75 ++ writeUint16 v)
  | .int32 v => e.write (Wire.writeUint8 0x49 ++ writeInt32 v)
  | .uint32 v => e.write (Wire.writeUint8 0x69 ++ writeUint32 v)
  | .int64 v => e.write (Wire.writeUint8 0x6c ++ writeInt64 v)
  | .uint64 v => e.write (Wire.writeUint8 0x4c ++ writeUint64 v)
  | .float32 v => e.write (Wire.writeUint8 0x66 ++ writeFloat32 v)
  | .float64 v => e.write (Wire.writeUint8 0x64 ++ writeFloat64 v)
  | .string v => e.write (Wire.writeUint8 0x53 ++ writeString v)
  | .bytes v => e.write (Wire.writeUint8 0x78 ++ writeBytes v)
  | .time v => e.write (Wire.writeUint8 0x54 ++ writeTimestamp v)
  -- the tag goes to this encoder, the entries go to a temporary one
  | .table t => writeSized ⟨e.buf ++ Wire.writeUint8 0x46⟩ (writeEntries newEncoder t)
  | .int _ | .uint _ | .other => (some .unsupportedType, e)

/-- The loop of `WriteTable`, in the order the range statement visits the entries. -/
def writeEntries (tmp : Encoder) : List (GoString × Value) → Option WriteError × Encoder
  | [] => (none, tmp)
  | (key, val) :: t =>
    match writeTableValue ⟨tmp.buf ++ writeString key⟩ val with
    | (some err, tmp) => (some (.tableKey key err), tmp)
    | (none, tmp) => writeEntries tmp t

end

def writeTable (e : Encoder) (t : Table) : Option WriteError × Encoder :=
  e.writeSized (writeEntries newEncoder t)

end Encoder

/-! ## Short strings -/

theorem readShortString_writeShortString (s : GoString) (rest : Bytes) :
    readShortString (writeShortString s ++ rest) =
      ⟨s.take (s.length % 256), none, s.drop (s.length % 256) ++ rest⟩ := by
  have hle : s.length % 256 ≤ s.length := Nat.mod_le _ _
  unfold readShortString writeShortString
  rw [append_assoc, readUint8_write]
  dsimp only
  rw [UInt8.toNat_ofNat', readFull_of_le (by rw [length_append]; omega),
    take_append_of_le_length hle, drop_append_of_le_length hle]

/-- The string is refused with nothing written, or it is read back from what was written, and what
follows it is left. -/
def ShortStringSafe (e : Encoder) (s : GoString) (rest : Bytes) : Prop :=
  (∃ err, e.writeShortString s = (some err, e)) ∨
    ∃ b, e.writeShortString s = (none, ⟨e.buf ++ b⟩) ∧
      readShortString (b ++ rest) = ⟨s, none, rest⟩

theorem Encoder.writeShortString_eq (e : Encoder) (s : GoString) :
    e.writeShortString s = (none, ⟨e.buf ++ Wire.writeShortString s⟩) := by
  unfold Encoder.writeShortString Encoder.writeUint8 Encoder.write Wire.writeShortString
  dsimp only
  rw [append_assoc]

/-- There is no error, so the string has to be read back. -/
theorem shortStringSafe_iff_read (e : Encoder) (s : GoString) (rest : Bytes) :
    ShortStringSafe e s rest ↔ readShortString (writeShortString s ++ rest) = ⟨s, none, rest⟩ := by
  unfold ShortStringSafe
  rw [e.writeShortString_eq]
  constructor
  · rintro (⟨err, herr⟩ | ⟨b, hb, hread⟩)
    · cases herr
    · have hbuf : e.buf ++ writeShortString s = e.buf ++ b := congrArg (fun r => r.2.buf) hb
      rw [append_cancel_left hbuf]
      exact hread
  · intro hread
    exact .inr ⟨_, rfl, hread⟩

theorem shortStringSafe_iff (e : Encoder) (s : GoString) (rest : Bytes) :
    ShortStringSafe e s rest ↔ s.length ≤ 255 := by
  rw [shortStringSafe_iff_read]
  constructor
  · intro hread
    rw [readShortString_writeShortString] at hread
    have htake : (s.take (s.length % 256)).length = s.length :=
      congrArg (fun r => r.val.length) hread
    rw [length_take] at htake
    omega
  · intro h
    exact readShortString_write h rest

/-- 256 bytes are announced as none. -/
theorem shortStringSafe_tooLong :
    readShortString (writeShortString (List.replicate 256 0x61) ++ [9]) =
        ⟨[], none, List.replicate 256 0x61 ++ [9]⟩ ∧
      ¬ ShortStringSafe newEncoder (List.replicate 256 0x61) [9] := by
  have hread := readShortString_writeShortString (List.replicate 256 0x61) [9]
  rw [length_replicate] at hread
  refine ⟨hread, fun h => ?_⟩
  rw [shortStringSafe_iff_read, hread] at h
  have hlen : ([] : GoString).length = (List.replicate 256 (0x61 : UInt8)).length :=
    congrArg (fun r => r.val.length) h
  rw [length_replicate] at hlen
  cases hlen

/-! ## The stateful encoder and the bytes of `Codec` -/

namespace Encoder

theorem writeSized_ok (e tmp : Encoder) :
    e.writeSized (none, tmp) =
      (none, ⟨e.buf ++ (writeUint32 (UInt32.ofNat tmp.buf.length) ++ tmp.buf)⟩) := rfl

mutual

theorem writeTableValue_ok (e : Encoder) : ∀ {v : Value} {b : Bytes},
    Wire.writeTableValue v = .ok b → e.writeTableValue v = (none, ⟨e.buf ++ b⟩)
  | .bool _, _, h | .int8 _, _, h | .uint8 _, _, h | .int16 _, _, h | .uint16 _, _, h
  | .int32 _, _, h | .uint32 _, _, h | .int64 _, _, h | .uint64 _, _, h | .float32 _, _, h
  | .float64 _, _, h | .string _, _, h | .bytes _, _, h | .time _, _, h => by
    rw [Wire.writeTableValue] at h
    cases h
    rw [writeTableValue]
    rfl
  | .table t, _, h => by
    rw [Wire.writeTableValue] at h
    cases hbody : writeTableBody t with
    | error err => rw [hbody] at h; cases h
    | ok data =>
      rw [hbody] at h
      cases h
      rw [writeTableValue, writeEntries_ok newEncoder hbody, writeSized_ok]
      simp [newEncoder]
  | .int _, _, h | .uint _, _, h | .other, _, h => by
    rw [Wire.writeTableValue] at h
    cases h

theorem writeEntries_ok (tmp : Encoder) : ∀ {t : List (GoString × Value)} {data : Bytes},
    writeTableBody t = .ok data → writeEntries tmp t = (none, ⟨tmp.buf ++ data⟩)
  | [], _, h => by
    rw [writeTableBody] at h
    cases h
    rw [writeEntries, append_nil]
  | (key, val) :: t, _, h => by
    rw [writeTableBody] at h
    cases hval : Wire.writeTableValue val with
    | error err => rw [hval] at h; cases h
    | ok b =>
      rw [hval] at h
      dsimp only at h
      cases hrest : writeTableBody t with
      | error err => rw [hrest] at h; cases h
      | ok bs =>
        rw [hrest] at h
        cases h
        rw [writeEntries, writeTableValue_ok _ hval]
        dsimp only
        rw [writeEntries_ok _ hrest]
        simp

end

mutual

theorem writeTableValue_error (e : Encoder) : ∀ {v : Value} {err : WriteError},
    Wire.writeTableValue v = .error err → (e.writeTableValue v).1 = some err
  | .bool _, _, h | .int8 _, _, h | .uint8 _, _, h | .int16 _, _, h | .uint16 _, _, h
  | .int32 _, _, h | .uint32 _, _, h | .int64 _, _, h | .uint64 _, _, h | .float32 _, _, h
  | .float64 _, _, h | .string _, _, h | .bytes _, _, h | .time _, _, h => by
    rw [Wire.writeTableValue] at h
    cases h
  | .table t, _, h => by
    rw [Wire.writeTableValue] at h
    cases hbody : writeTableBody t with
    | ok data => rw [hbody] at h; cases h
    | error err =>
      rw [hbody] at h
      cases h
      obtain ⟨tmp, htmp⟩ := writeEntries_error newEncoder hbody
      rw [writeTableValue, htmp]
      rfl
  | .int _, _, h | .uint _, _, h | .other, _, h => by
    rw [Wire.writeTableValue] at h
    cases h
    rw [writeTableValue]

theorem writeEntries_error (tmp : Encoder) : ∀ {t : List (GoString × Value)} {err : WriteError},
    writeTableBody t = .error err → ∃ tmp', writeEntries tmp t = (some err, tmp')
  | [], _, h => by
    rw [writeTableBody] at h
    cases h
  | (key, val) :: t, _, h => by
    rw [writeTableBody] at h
    cases hval : Wire.writeTableValue val with
    | error err =>
      rw [hval] at h
      cases h
      have hfst := writeTableValue_error ⟨tmp.buf ++ writeString key⟩ hval
      refine ⟨(writeTableValue ⟨tmp.buf ++ writeString key⟩ val).2, ?_⟩
      rw [writeEntries]
      generalize writeTableValue ⟨tmp.buf ++ writeString key⟩ val = r at hfst ⊢
      obtain ⟨_, tmp'⟩ := r
      cases hfst
      rfl
    | ok b =>
      rw [hval] at h
      dsimp only at h
      cases hrest : writeTableBody t with
      | ok bs => rw [hrest] at h; cases h
      | error err =>
        rw [hrest] at h
        cases h
        rw [writeEntries, writeTableValue_ok _ hval]
        exact writeEntries_error _ hrest

end

theorem writeTable_eq (e : Encoder) (t : Table) :
    e.writeTable t =
      match Wire.writeTable t with
      | .ok b => (none, ⟨e.buf ++ b⟩)
      | .error err => (some err, e) := by
  unfold writeTable Wire.writeTable
  cases hbody : writeTableBody t with
  | ok data =>
    rw [writeEntries_ok newEncoder hbody, writeSized_ok]
    simp [newEncoder]
  | error err =>
    obtain ⟨tmp, htmp⟩ := writeEntries_error newEncoder hbody
    rw [htmp]
    rfl

end Encoder

/-! ## Which tables can be written -/

def Value.Unsupported : Value → Prop
  | .int _ | .uint _ | .other => True
  | _ => False

/-- The value is of such a type, or there is one inside, at any depth. -/
inductive HoldsUnsupported : Value → Prop
  | here {v : Value} : v.Unsupported → HoldsUnsupported v
  | inside {key : GoString} {v : Value} {t : Table} :
      (key, v) ∈ t → HoldsUnsupported v → HoldsUnsupported (.table t)

theorem holdsUnsupported_table {t : Table} :
    HoldsUnsupported (.table t) ↔ ∃ e ∈ t, HoldsUnsupported e.2 := by
  constructor
  · intro h
    cases h with
    | here h => exact h.elim
    | inside hmem h => exact ⟨_, hmem, h⟩
  · rintro ⟨e, hmem, h⟩
    exact .inside hmem h

theorem holdsUnsupported_sameMap {v v' : Value} (h : SameMap v v') :
    HoldsUnsupported v ↔ HoldsUnsupported v' := by
  induction h with
  | refl v => exact Iff.rfl
  | swap e e' t =>
    rw [holdsUnsupported_table, holdsUnsupported_table]
    simp only [mem_cons, exists_eq_or_imp]
    exact or_left_comm
  | val key t _ ih =>
    rw [holdsUnsupported_table, holdsUnsupported_table]
    simp only [mem_cons, exists_eq_or_imp, ih]
  | cons e _ ih =>
    rw [holdsUnsupported_table, holdsUnsupported_table] at ih ⊢
    simp only [mem_cons, exists_eq_or_imp, ih]
  | trans _ _ ih ih' => exact ih.trans ih'

mutual

theorem writeTableValue_ok_iff : ∀ v : Value,
    (∃ b, writeTableValue v = .ok b) ↔ ¬ HoldsUnsupported v
  | .bool _ | .int8 _ | .uint8 _ | .int16 _ | .uint16 _ | .int32 _ | .uint32 _ | .int64 _
  | .uint64 _ | .float32 _ | .float64 _ | .string _ | .bytes _ | .time _ =>
    iff_of_true ⟨_, by rw [writeTableValue]⟩ fun (.here h) => h
  | .int _ | .uint _ | .other => by
    rw [writeTableValue]
    exact iff_of_false nofun (not_not.mpr (.here True.intro))
  | .table t => by
    have hbody := writeTableBody_ok_iff t
    rw [holdsUnsupported_table, ← hbody, writeTableValue]
    cases writeTableBody t with
    | ok data => exact iff_of_true ⟨_, rfl⟩ ⟨_, rfl⟩
    | error err => exact iff_of_false nofun nofun

theorem writeTableBody_ok_iff : ∀ t : List (GoString × Value),
    (∃ data, writeTableBody t = .ok data) ↔ ¬ ∃ e ∈ t, HoldsUnsupported e.2
  | [] => iff_of_true ⟨[], by rw [writeTableBody]⟩ (by simp)
  | (key, val) :: t => by
    have hval := writeTableValue_ok_iff val
    have hrest := writeTableBody_ok_iff t
    rw [writeTableBody]
    simp only [mem_cons, exists_eq_or_imp, not_or]
    rw [← hval, ← hrest]
    cases writeTableValue val with
    | error err => exact iff_of_false nofun nofun
    | ok b =>
      cases writeTableBody t with
      | error err => exact iff_of_false nofun nofun
      | ok bs => exact iff_of_true ⟨_, rfl⟩ ⟨⟨_, rfl⟩, _, rfl⟩

end

/-- Whatever the encoder holds and in whatever order `t'` the entries of `t` are visited: with a
value of an unsupported type somewhere inside, the table is refused and the encoder is left as it
was, and without one its encoding is appended. -/
theorem writeTable_clean {t t' : Table} (horder : SameMap (.table t) (.table t')) (e : Encoder) :
    (HoldsUnsupported (.table t) → ∃ err, e.writeTable t' = (some err, e)) ∧
      (¬ HoldsUnsupported (.table t) →
        ∃ b, Wire.writeTable t' = .ok b ∧ e.writeTable t' = (none, ⟨e.buf ++ b⟩)) := by
  have hbody := writeTableBody_ok_iff t'
  rw [← holdsUnsupported_table, ← holdsUnsupported_sameMap horder] at hbody
  rw [e.writeTable_eq]
  unfold writeTable
  cases hw : writeTableBody t' with
  | ok data =>
    refine ⟨fun h => absurd h (hbody.mp ⟨data, hw⟩), fun _ => ⟨_, rfl, rfl⟩⟩
  | error err =>
    refine ⟨fun _ => ⟨err, rfl⟩, fun h => ?_⟩
    obtain ⟨data, hdata⟩ := hbody.mpr h
    cases hw.symm.trans hdata

/-- A plain `int` two tables down, behind an entry that is written first. -/
theorem writeTable_clean_nested :
    (∃ err, (⟨[7]⟩ : Encoder).writeTable
        [(str "x", .bool true), (str "y", .table [(str "z", .table [(str "n", .int 5)])])] =
      (some err, ⟨[7]⟩)) ∧
    ∃ b, Wire.writeTable
        [(str "x", .bool true), (str "y", .table [(str "z", .table [(str "n", .int32 5)])])] =
      .ok b ∧ (⟨[7]⟩ : Encoder).writeTable
        [(str "x", .bool true), (str "y", .table [(str "z", .table [(str "n", .int32 5)])])] =
      (none, ⟨[7] ++ b⟩) := by
  have hswap : ∀ e e' : GoString × Value, SameMap (.table [e', e]) (.table [e, e']) :=
    fun e e' => .swap e' e []
  constructor
  · refine (writeTable_clean (hswap _ _) ⟨[7]⟩).1 ?_
    refine .inside mem_cons_self ?_
    refine .inside mem_cons_self ?_
    exact .inside mem_cons_self (.here True.intro)
  · refine (writeTable_clean (hswap _ _) ⟨[7]⟩).2 ?_
    have hleaf : ∀ b, ¬ HoldsUnsupported (.bool b) := fun _ (.here h) => h
    have hnum : ∀ n, ¬ HoldsUnsupported (.int32 n) := fun _ (.here h) => h
    simp [holdsUnsupported_table, hleaf, hnum]

end Gomq.Wire
