import Mathlib.Data.List.Perm.Basic
import Mathlib.Data.List.Forall2
import Gomq.Wire.Reads

/-!
# What is written is read back

A sequence of values of the encoder's types, written one after the other and read with the matching
methods of the decoder.

A table is a map, and the encoder visits its entries in whatever order the range statement yields.
A `Table` lists its entries in one order; `SameMap` relates the orders of one map, at every depth
of nesting. The decoder returns the entries in the order they were written, so what it returns is
the same map as the one that was to be written, not the same list.
-/

namespace Gomq.Wire

open List

/-! ## The remaining methods -/

def writeInt8 (v : Int8) : Bytes := writeUint8 v.toUInt8

def writeInt16 (v : Int16) : Bytes := writeUint16 v.toUInt16

def writeInt32 (v : Int32) : Bytes := writeUint32 v.toUInt32

def writeInt64 (v : Int64) : Bytes := writeUint64 v.toUInt64

def writeTimestamp (unix : Int64) : Bytes := writeUint64 unix.toUInt64

def readInt8 (bs : Bytes) : Read Int8 := (readUint8 bs).map UInt8.toInt8

def readInt16 (bs : Bytes) : Read Int16 := (readUint16 bs).map UInt16.toInt16

def readInt32 (bs : Bytes) : Read Int32 := (readUint32 bs).map UInt32.toInt32

def readInt64 (bs : Bytes) : Read Int64 := (readUint64 bs).map UInt64.toInt64

def readTimestamp (bs : Bytes) : Read Int64 := (readUint64 bs).map UInt64.toInt64

/-- A value with the method that writes it. -/
inductive Item where
  | bool (v : Bool)
  | int8 (v : Int8)
  | int16 (v : Int16)
  | int32 (v : Int32)
  | int64 (v : Int64)
  | uint8 (v : UInt8)
  | uint16 (v : UInt16)
  | uint32 (v : UInt32)
  | uint64 (v : UInt64)
  | shortString (v : GoString)
  | string (v : GoString)
  | bytes (v : Bytes)
  | timestamp (unix : Int64)
  | table (t : Table)

inductive Kind where
  | bool | int8 | int16 | int32 | int64 | uint8 | uint16 | uint32 | uint64
  | shortString | string | bytes | timestamp | table
  deriving DecidableEq

def Item.kind : Item → Kind
  | bool _ => .bool
  | int8 _ => .int8
  | int16 _ => .int16
  | int32 _ => .int32
  | int64 _ => .int64
  | uint8 _ => .uint8
  | uint16 _ => .uint16
  | uint32 _ => .uint32
  | uint64 _ => .uint64
  | shortString _ => .shortString
  | string _ => .string
  | bytes _ => .bytes
  | timestamp _ => .timestamp
  | table _ => .table

/-- `Encoder.WriteBool`, …, `Encoder.WriteTable`. -/
def Item.write : Item → Except WriteError Bytes
  | bool v => .ok (writeBool v)
  | int8 v => .ok (writeInt8 v)
  | int16 v => .ok (writeInt16 v)
  | int32 v => .ok (writeInt32 v)
  | int64 v => .ok (writeInt64 v)
  | uint8 v => .ok (writeUint8 v)
  | uint16 v => .ok (writeUint16 v)
  | uint32 v => .ok (writeUint32 v)
  | uint64 v => .ok (writeUint64 v)
  | shortString v => .ok (writeShortString v)
  | string v => .ok (writeString v)
  | bytes v => .ok (writeBytes v)
  | timestamp v => .ok (writeTimestamp v)
  | table t => writeTable t

/-- `Decoder.ReadBool`, …, `Decoder.ReadTable`. -/
def Kind.read (bs : Bytes) : Kind → Read Item
  | bool => (readBool bs).map .bool
  | int8 => (readInt8 bs).map .int8
  | int16 => (readInt16 bs).map .int16
  | int32 => (readInt32 bs).map .int32
  | int64 => (readInt64 bs).map .int64
  | uint8 => (readUint8 bs).map .uint8
  | uint16 => (readUint16 bs).map .uint16
  | uint32 => (readUint32 bs).map .uint32
  | uint64 => (readUint64 bs).map .uint64
  | shortString => (readShortString bs).map .shortString
  | string => (readString bs).map .string
  | bytes => (readBytes bs).map .bytes
  | timestamp => (readTimestamp bs).map .timestamp
  | table => (readTable bs).map .table

def writeItems : List Item → Except WriteError Bytes
  | [] => .ok []
  | i :: is =>
    match i.write with
    | .error e => .error e
    | .ok b =>
      match writeItems is with
      | .error e => .error e
      | .ok bs => .ok (b ++ bs)

/-- One read after the other, up to the first that fails; the values and the bytes left over. -/
def readItems : List Kind → Bytes → Except ReadError (List Item × Bytes)
  | [], bs => .ok ([], bs)
  | k :: ks, bs =>
    match (k.read bs).orFail with
    | .error e => .error e
    | .ok (i, rest) =>
      match readItems ks rest with
      | .error e => .error e
      | .ok (is, rest') => .ok (i :: is, rest')

/-! ## Which values can be written -/

mutual

def Value.size : Value → ℕ
  | .bool _ | .int8 _ | .uint8 _ => 2
  | .int16 _ | .uint16 _ => 3
  | .int32 _ | .uint32 _ | .float32 _ => 5
  | .int64 _ | .uint64 _ | .float64 _ | .time _ => 9
  | .string v | .bytes v => 5 + v.length
  | .table t => 5 + bodySize t
  | .int _ | .uint _ | .other => 0

def bodySize : List (GoString × Value) → ℕ
  | [] => 0
  | (key, val) :: t => 4 + key.length + val.size + bodySize t

end

mutual

/-- A leaf of one of the sequence's own types, or a map of such values, with every length in 32
bits. The lengths of a table's keys are below that of the table. -/
def Value.Encodable : Value → Prop
  | .string v | .bytes v => v.length < 2 ^ 32
  | .table t => (t.map Prod.fst).Nodup ∧ bodySize t < 2 ^ 32 ∧ EntriesEncodable t
  | .int _ | .uint _ | .float32 _ | .float64 _ | .other => False
  | _ => True

def EntriesEncodable : List (GoString × Value) → Prop
  | [] => True
  | (_, val) :: t => val.Encodable ∧ EntriesEncodable t

end

def Item.Encodable : Item → Prop
  | shortString v => v.length ≤ 255
  | string v | bytes v => v.length < 2 ^ 32
  | table t => (Value.table t).Encodable
  | _ => True

/-! ## The orders of one map -/

/-- One value up to the order in which the entries of its tables are listed, at every depth. -/
inductive SameMap : Value → Value → Prop
  | refl (v : Value) : SameMap v v
  | swap (e e' : GoString × Value) (t : Table) :
      SameMap (.table (e :: e' :: t)) (.table (e' :: e :: t))
  | val (key : GoString) {v v' : Value} (t : Table) :
      SameMap v v' → SameMap (.table ((key, v) :: t)) (.table ((key, v') :: t))
  | cons (e : GoString × Value) {t t' : Table} :
      SameMap (.table t) (.table t') → SameMap (.table (e :: t)) (.table (e :: t'))
  | trans {u v w : Value} : SameMap u v → SameMap v w → SameMap u w

def Item.Same : Item → Item → Prop
  | table t, table t' => SameMap (.table t) (.table t')
  | i, i' => i = i'

theorem size_eq_of_sameMap {v v' : Value} (h : SameMap v v') : v.size = v'.size := by
  induction h with
  | refl v => rfl
  | swap e e' t => simp only [Value.size, bodySize]; omega
  | val key t _ ih => simp only [Value.size, bodySize, ih]
  | cons e _ ih => simp only [Value.size, bodySize] at ih ⊢; omega
  | trans _ _ ih ih' => exact ih.trans ih'

def Value.keys : Value → List GoString
  | .table t => t.map Prod.fst
  | _ => []

theorem keys_perm_of_sameMap {v v' : Value} (h : SameMap v v') : v.keys.Perm v'.keys := by
  induction h with
  | refl v => exact List.Perm.refl _
  | swap e e' t => exact List.Perm.swap _ _ _
  | val key t _ _ => exact List.Perm.refl _
  | cons e _ ih => exact ih.cons _
  | trans _ _ ih ih' => exact ih.trans ih'

def Value.lookup (key : GoString) : Value → Option Value
  | .table t => Table.get t key
  | _ => none

theorem Table.get_cons (key : GoString) (e : GoString × Value) (t : Table) :
    Table.get (e :: t) key = if key = e.1 then some e.2 else Table.get t key := by
  unfold Table.get
  rw [lookup_cons]
  split <;> simp_all

theorem lookup_sameMap {v v' : Value} (h : SameMap v v') (hkeys : v.keys.Nodup) (key : GoString) :
    Option.Rel SameMap (v.lookup key) (v'.lookup key) := by
  have hrefl : ∀ o : Option Value, Option.Rel SameMap o o := by
    rintro (_ | v)
    · exact .none
    · exact .some (.refl v)
  induction h with
  | refl v => exact hrefl _
  | swap e e' t =>
    have hne : e.1 ≠ e'.1 := fun heq => (nodup_cons.mp hkeys).1 (by simp [heq])
    simp only [Value.lookup, Table.get_cons]
    by_cases he : key = e.1
    · have he' : key ≠ e'.1 := he ▸ hne
      rw [if_pos he, if_neg he', if_pos he]
      exact hrefl _
    · rw [if_neg he, if_neg he]
      exact hrefl _
  | val k t h _ =>
    simp only [Value.lookup, Table.get_cons]
    split
    · exact .some h
    · exact hrefl _
  | cons e _ ih =>
    simp only [Value.lookup, Table.get_cons]
    split
    · exact hrefl _
    · exact ih (nodup_cons.mp hkeys).2
  | @trans u v w huv _ ih ih' =>
    have h₁ := ih hkeys
    have h₂ := ih' ((keys_perm_of_sameMap huv).nodup_iff.mp hkeys)
    generalize u.lookup key = a at h₁
    generalize v.lookup key = b at h₁ h₂
    generalize w.lookup key = c at h₂ ⊢
    cases h₁ with
    | none => exact h₂
    | some h₁ =>
      cases h₂ with
      | some h₂ => exact .some (h₁.trans h₂)

theorem table_encodable {t t' : Table} (h : SameMap (.table t) (.table t'))
    (ht : (Value.table t).Encodable) (hent : EntriesEncodable t') : (Value.table t').Encodable := by
  obtain ⟨hnodup, hsize, -⟩ := ht
  have hkeys : (t.map Prod.fst).Perm (t'.map Prod.fst) := keys_perm_of_sameMap h
  have hsame := size_eq_of_sameMap h
  simp only [Value.size] at hsame
  exact ⟨hkeys.nodup_iff.mp hnodup, by omega, hent⟩

theorem encodable_tail {e : GoString × Value} {t : Table} (h : (Value.table (e :: t)).Encodable) :
    (Value.table t).Encodable := by
  obtain ⟨hnodup, hsize, -, hent⟩ := h
  rw [bodySize] at hsize
  exact ⟨hnodup.of_cons, by omega, hent⟩

theorem encodable_of_sameMap {v v' : Value} (h : SameMap v v') (hv : v.Encodable) :
    v'.Encodable := by
  induction h with
  | refl v => exact hv
  | swap e e' t =>
    obtain ⟨-, -, he, he', ht⟩ := id hv
    exact table_encodable (.swap e e' t) hv ⟨he', he, ht⟩
  | val key t h ih =>
    obtain ⟨-, -, he, ht⟩ := id hv
    exact table_encodable (.val key t h) hv ⟨ih he, ht⟩
  | cons e h ih =>
    obtain ⟨-, -, he, -⟩ := id hv
    exact table_encodable (.cons e h) hv ⟨he, (ih (encodable_tail hv)).2.2⟩
  | trans _ _ ih ih' => exact ih' (ih hv)

mutual

theorem writeTableValue_size : ∀ {v : Value}, v.Encodable →
    ∃ b, writeTableValue v = .ok b ∧ b.length = v.size
  | .bool v, _ => ⟨_, rfl, by cases v <;> rfl⟩
  | .int8 _, _ | .uint8 _, _ | .int16 _, _ | .uint16 _, _ | .int32 _, _ | .uint32 _, _
  | .int64 _, _ | .uint64 _, _ | .time _, _ => ⟨_, by rw [writeTableValue], rfl⟩
  | .string v, _ => ⟨_, by rw [writeTableValue], by
      simp [writeUint8, writeString, writeUint32, Value.size]; omega⟩
  | .bytes v, _ => ⟨_, by rw [writeTableValue], by
      simp [writeUint8, writeBytes, writeUint32, Value.size]; omega⟩
  | .table t, h => by
    obtain ⟨data, hdata, hlen⟩ := writeTableBody_size h.2.2
    refine ⟨_, by rw [writeTableValue, hdata], ?_⟩
    simp [writeUint8, writeUint32, Value.size, hlen]
    omega

theorem writeTableBody_size : ∀ {t : List (GoString × Value)}, EntriesEncodable t →
    ∃ data, writeTableBody t = .ok data ∧ data.length = bodySize t
  | [], _ => ⟨[], by rw [writeTableBody], rfl⟩
  | (key, val) :: t, h => by
    obtain ⟨b, hb, hblen⟩ := writeTableValue_size h.1
    obtain ⟨bs, hbs, hlen⟩ := writeTableBody_size h.2
    refine ⟨_, by rw [writeTableBody, hb]; dsimp only; rw [hbs], ?_⟩
    simp [writeString, writeUint32, bodySize, hblen, hlen]
    omega

end

/-! ## Reading back -/

@[simp] theorem readBool_write (v : Bool) (rest : Bytes) :
    readBool (writeBool v ++ rest) = ⟨v, none, rest⟩ := by
  cases v <;> simp [readBool, writeBool, Read.map]

theorem readShortString_write {v : GoString} (h : v.length ≤ 255) (rest : Bytes) :
    readShortString (writeShortString v ++ rest) = ⟨v, none, rest⟩ := by
  unfold readShortString writeShortString
  rw [append_assoc, readUint8_write]
  dsimp only
  rw [UInt8.toNat_ofNat_of_lt' (Nat.lt_succ_of_le h), readFull_append]

theorem readString_write {v : GoString} (h : v.length < 2 ^ 32) (rest : Bytes) :
    readString (writeString v ++ rest) = ⟨v, none, rest⟩ := by
  unfold readString writeString
  rw [append_assoc, readUint32_write]
  dsimp only
  rw [UInt32.toNat_ofNat_of_lt' h, readFull_append]

theorem readTableWith_write {body : Bytes → Except ReadError Table} {t : Table} {data : Bytes}
    (hlen : data.length < 2 ^ 32) (hbody : body data = .ok t) (hnil : data = [] → t = [])
    (rest : Bytes) :
    readTableWith body (writeUint32 (UInt32.ofNat data.length) ++ data ++ rest) =
      ⟨t, none, rest⟩ := by
  have hsize : (UInt32.ofNat data.length).toNat = data.length := UInt32.toNat_ofNat_of_lt' hlen
  unfold readTableWith
  rw [append_assoc, readUint32_write]
  dsimp only
  by_cases hempty : data = []
  · rw [hnil hempty, hempty]
    rfl
  · have hne : UInt32.ofNat data.length ≠ 0 := by
      intro h0
      rw [h0] at hsize
      exact hempty (length_eq_zero_iff.mp hsize.symm)
    rw [if_neg hne, hsize, readFull_append]
    dsimp only
    rw [hbody]

theorem eq_nil_of_writeTableBody {t : Table} {data : Bytes} (ht : EntriesEncodable t)
    (hw : writeTableBody t = .ok data) (h : data = []) : t = [] := by
  obtain ⟨data', hdata, hlen⟩ := writeTableBody_size ht
  rw [hdata] at hw
  cases hw
  cases t with
  | nil => rfl
  | cons e t =>
    rw [h, bodySize, length_nil] at hlen
    omega

/-- A table value is read back by a parser that reads back the bodies of smaller tables. -/
theorem readTableValueWith_write {body : Bytes → Except ReadError Table} {v : Value} {b : Bytes}
    (hv : v.Encodable) (hb : writeTableValue v = .ok b)
    (hbody : ∀ {t : Table} {data : Bytes}, (Value.table t).Encodable →
      writeTableBody t = .ok data → data.length < b.length → body data = .ok t) (rest : Bytes) :
    readTableValueWith body (b ++ rest) = ⟨v, none, rest⟩ := by
  cases v with
  | table t =>
    obtain ⟨data, hdata, hlen⟩ := writeTableBody_size hv.2.2
    rw [writeTableValue, hdata] at hb
    cases hb
    have hsmall : data.length < 2 ^ 32 := hlen ▸ hv.2.1
    have hinner : body data = .ok t := by
      refine hbody hv hdata ?_
      rw [length_append, length_append]
      exact Nat.lt_add_left _ (Nat.lt_add_of_pos_left (by rw [writeUint32, length_beBytes]; decide))
    have htable := readTableWith_write hsmall hinner (eq_nil_of_writeTableBody hv.2.2 hdata) rest
    rw [append_assoc] at htable
    simp [readTableValueWith, htable, Read.map]
  | string v =>
    rw [writeTableValue] at hb
    cases hb
    simp [readTableValueWith, readString_write hv, Read.map]
  | bytes v =>
    rw [writeTableValue] at hb
    cases hb
    have hstring : readString (writeBytes v ++ rest) = ⟨v, none, rest⟩ := readString_write hv rest
    simp [readTableValueWith, readBytes, hstring, Read.map]
  | int v | uint v | float32 v | float64 v | other => exact hv.elim
  | _ v =>
    rw [writeTableValue] at hb
    cases hb
    simp [readTableValueWith, Read.map]

theorem set_of_not_mem {t : Table} {key : GoString} (h : key ∉ t.map Prod.fst) (val : Value) :
    t.set key val = t ++ [(key, val)] := by
  induction t with
  | nil => rfl
  | cons e t ih =>
    rw [map_cons, mem_cons, not_or] at h
    rw [Table.set, if_neg (Ne.symm h.1), ih h.2, cons_append]

/-- The loop reads the entries in the order they were written. The induction is on the fuel, which
serves both the next entry and the bodies of the tables inside this one. -/
theorem readTableBody_write {fuel : ℕ} {t : Table} {data : Bytes} {r : Table}
    (ht : (Value.table t).Encodable) (hw : writeTableBody t = .ok data)
    (hfuel : data.length < fuel) (hfresh : ∀ key ∈ t.map Prod.fst, key ∉ r.map Prod.fst) :
    readTableBody fuel data r = .ok (r ++ t) := by
  induction fuel generalizing t data r with
  | zero => omega
  | succ fuel ih =>
    cases t with
    | nil =>
      rw [writeTableBody] at hw
      cases hw
      simp [readTableBody]
    | cons e t =>
      obtain ⟨key, val⟩ := e
      obtain ⟨hnodup, hsize, hval, hent⟩ := id ht
      obtain ⟨b, hb, hblen⟩ := writeTableValue_size hval
      obtain ⟨bs, hbs, hlen⟩ := writeTableBody_size hent
      rw [writeTableBody, hb] at hw
      dsimp only at hw
      rw [hbs] at hw
      cases hw
      rw [bodySize] at hsize
      have hklen : key.length < 2 ^ 32 := by omega
      have hlens : (writeString key ++ b ++ bs).length = 4 + key.length + b.length + bs.length := by
        simp [writeString, writeUint32]
        omega
      have hread : readTableValueWith (fun d => readTableBody fuel d []) (b ++ bs) =
          ⟨val, none, bs⟩ := by
        refine readTableValueWith_write hval hb (fun {u d} hu hd hlt => ?_) bs
        exact ih hu hd (by omega) (by simp)
      have hkey : key ∉ r.map Prod.fst := hfresh key (by simp)
      have hrest : readTableBody fuel bs (r ++ [(key, val)]) = .ok (r ++ [(key, val)] ++ t) := by
        refine ih (encodable_tail ht) hbs (by omega) fun k hk => ?_
        have hne : k ≠ key := fun heq => (nodup_cons.mp hnodup).1 (heq ▸ hk)
        simp [hne, hfresh k (by simp [hk])]
      unfold readTableBody
      rw [append_assoc, readString_write hklen]
      simp only [hread, set_of_not_mem hkey, hrest]
      simp [writeString, writeUint32, beBytes]

theorem readTable_write {t : Table} (ht : (Value.table t).Encodable) :
    ∃ b, writeTable t = .ok b ∧ ∀ rest, readTable (b ++ rest) = ⟨t, none, rest⟩ := by
  obtain ⟨data, hdata, hlen⟩ := writeTableBody_size ht.2.2
  have hbody : readTableBody (data.length + 1) data [] = .ok t :=
    readTableBody_write ht hdata (Nat.lt_succ_self _) (by simp)
  refine ⟨writeUint32 (UInt32.ofNat data.length) ++ data, by rw [writeTable, hdata], fun rest => ?_⟩
  exact readTableWith_write (hlen ▸ ht.2.1) hbody (eq_nil_of_writeTableBody ht.2.2 hdata) rest

/-- Whatever order `t'` the entries of `t` are visited in, the table that is read back has under
every key what `t` has there. -/
theorem readTable_lookup {t t' : Table} (ht : (Value.table t).Encodable)
    (h : SameMap (.table t) (.table t')) :
    ∃ b, writeTable t' = .ok b ∧ ∀ rest, ∃ r, readTable (b ++ rest) = ⟨r, none, rest⟩ ∧
      ∀ key, Option.Rel SameMap (t.get key) (r.get key) := by
  obtain ⟨b, hb, hread⟩ := readTable_write (encodable_of_sameMap h ht)
  exact ⟨b, hb, fun rest => ⟨t', hread rest, fun key => lookup_sameMap h ht.1 key⟩⟩

/-- Two entries, written in the other order. -/
theorem readTable_lookup_swapped :
    let t : Table := [(str "a", .bool true), (str "b", .int8 1)]
    ∃ b, writeTable t.reverse = .ok b ∧ ∀ rest, ∃ r, readTable (b ++ rest) = ⟨r, none, rest⟩ ∧
      ∀ key, Option.Rel SameMap (t.get key) (r.get key) :=
  readTable_lookup ⟨by decide, by decide, by simp [EntriesEncodable, Value.Encodable]⟩ (.swap _ _ _)

/-! ## Sequences -/

/-- Every method of the decoder reads back what its counterpart wrote, and not a byte more. -/
theorem Item.read_write {i : Item} (h : i.Encodable) :
    ∃ b, i.write = .ok b ∧ ∀ rest, i.kind.read (b ++ rest) = ⟨i, none, rest⟩ := by
  cases i with
  | table t =>
    obtain ⟨b, hb, hread⟩ := readTable_write h
    exact ⟨b, hb, fun rest => by simp [Item.kind, Kind.read, hread, Read.map]⟩
  | shortString v =>
    exact ⟨_, rfl, fun rest => by simp [Item.kind, Kind.read, readShortString_write h, Read.map]⟩
  | string v =>
    exact ⟨_, rfl, fun rest => by simp [Item.kind, Kind.read, readString_write h, Read.map]⟩
  | bytes v =>
    refine ⟨_, rfl, fun rest => ?_⟩
    have hstring : readBytes (writeBytes v ++ rest) = ⟨v, none, rest⟩ := readString_write h rest
    simp [Item.kind, Kind.read, hstring, Read.map]
  | int8 v | int16 v | int32 v | int64 v =>
    refine ⟨_, rfl, fun rest => ?_⟩
    simp [Item.kind, Kind.read, readInt8, readInt16, readInt32, readInt64, writeInt8, writeInt16,
      writeInt32, writeInt64, Read.map]
  | timestamp v =>
    exact ⟨_, rfl, fun rest => by
      simp [Item.kind, Kind.read, readTimestamp, writeTimestamp, Read.map]⟩
  | _ v => exact ⟨_, rfl, fun rest => by simp [Item.kind, Kind.read, Read.map]⟩

theorem Item.Same.kind {i i' : Item} (h : i.Same i') : i.kind = i'.kind := by
  cases i <;> cases i' <;> first | rfl | cases h

theorem Item.Same.encodable {i i' : Item} (h : i.Same i') (hi : i.Encodable) : i'.Encodable := by
  cases i with
  | table t =>
    cases i' with
    | table t' => exact encodable_of_sameMap h hi
    | _ => cases h
  | _ =>
    cases i' <;> cases h
    exact hi

/-- Any sequence of encodable values, with the entries of its tables visited in any order `is'`, is
written; and reading what was written returns the sequence and uses up the bytes. -/
theorem readItems_writeItems {is is' : List Item} (h : ∀ i ∈ is, i.Encodable)
    (horder : List.Forall₂ Item.Same is is') :
    ∃ bs, writeItems is' = .ok bs ∧
      ∃ is'', readItems (is.map Item.kind) bs = .ok (is'', []) ∧
        List.Forall₂ Item.Same is is'' := by
  suffices hread : ∃ bs, writeItems is' = .ok bs ∧
      readItems (is.map Item.kind) bs = .ok (is', []) by
    obtain ⟨bs, hbs, hread⟩ := hread
    exact ⟨bs, hbs, is', hread, horder⟩
  induction horder with
  | nil => exact ⟨[], rfl, rfl⟩
  | @cons i i' is is' hi _ ih =>
    obtain ⟨hone, hall⟩ := forall_mem_cons.mp h
    obtain ⟨b, hb, hread⟩ := Item.read_write (hi.encodable hone)
    obtain ⟨bs, hbs, hrest⟩ := ih hall
    refine ⟨b ++ bs, by rw [writeItems, hb]; dsimp only; rw [hbs], ?_⟩
    rw [map_cons, readItems, hi.kind, hread]
    simp only [Read.orFail, hrest]

theorem readItems_writeItems_nested_table :
    ∃ bs, writeItems [.table [(str "y", .table [(str "z", .bool true)]), (str "x", .int32 5)],
        .uint64 7] = .ok bs ∧
      ∃ is'', readItems [.table, .uint64] bs = .ok (is'', []) ∧
        List.Forall₂ Item.Same
          [.table [(str "x", .int32 5), (str "y", .table [(str "z", .bool true)])], .uint64 7]
          is'' := by
  have horder : ∀ e e' : GoString × Value,
      List.Forall₂ Item.Same [.table [e, e'], .uint64 7] [.table [e', e], .uint64 7] :=
    fun e e' => .cons (SameMap.swap e e' []) (.cons rfl .nil)
  refine readItems_writeItems ?_ (horder _ _)
  have hxy : (str "x") ≠ str "y" := by decide
  have hlen : List.length (str "x") = 1 ∧ List.length (str "y") = 1 ∧
      List.length (str "z") = 1 := by decide
  simp [Item.Encodable, Value.Encodable, EntriesEncodable, bodySize, Value.size, hlen, hxy]

end Gomq.Wire
