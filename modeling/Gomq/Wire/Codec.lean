import Mathlib.Data.Rat.Floor
import Gomq.Lib.Bytes

/-!
# Basic types on the wire

The encoder appends bytes, the decoder reads from the bytes that are left. A read returns a value
also when it fails: the buffer is filled with what was there and zeros, and callers that drop the
error (`_, _ = dec.ReadUint16()`) go on with that value. `Read` therefore keeps value, error and
rest; `Read.orFail` is the pattern `if err != nil { return err }`.
-/

namespace Gomq.Wire

/-! ## Dynamic values -/

/-- A value of type `interface{}`. A float is kept as the number it denotes: nothing in the code
makes a NaN or an infinity. `other` stands for a value of any other type. -/
inductive Value where
  | bool (v : Bool)
  | int (v : Int64)
  | int8 (v : Int8)
  | int16 (v : Int16)
  | int32 (v : Int32)
  | int64 (v : Int64)
  | uint (v : UInt64)
  | uint8 (v : UInt8)
  | uint16 (v : UInt16)
  | uint32 (v : UInt32)
  | uint64 (v : UInt64)
  | float32 (v : ℚ)
  | float64 (v : ℚ)
  | string (v : GoString)
  | bytes (v : Bytes)
  | time (unix : Int64)
  | table (entries : List (GoString × Value))
  | other

/-- A value of type `map[string]interface{}`, in the order its entries were first set. -/
abbrev Table := List (GoString × Value)

namespace Table

def get (t : Table) (k : GoString) : Option Value := List.lookup k t

def set : Table → GoString → Value → Table
  | [], k, v => [(k, v)]
  | (k', v') :: t, k, v => if k' = k then (k, v) :: t else (k', v') :: set t k v

end Table

/-- The `p`-bit float nearest to `n`, ties to even: `float32(n)` for `p = 24`, `float64(n)` for
`p = 53`. -/
def roundFloat (p n : ℕ) : ℕ :=
  if n < 2 ^ p then n
  else
    let e := n.log2 + 1 - p
    let q := n / 2 ^ e
    let r := n % 2 ^ e
    if 2 ^ e < 2 * r ∨ (2 ^ e = 2 * r ∧ q % 2 = 1) then (q + 1) * 2 ^ e else q * 2 ^ e

/-- Conversion of a float to an integer discards the fraction. -/
def truncFloat (q : ℚ) : ℤ := if 0 ≤ q then ⌊q⌋ else ⌈q⌉

/-! ## Encoder -/

def writeUint8 (v : UInt8) : Bytes := [v]

def writeBool (v : Bool) : Bytes := if v then writeUint8 1 else writeUint8 0

def writeUint16 (v : UInt16) : Bytes := beBytes 2 v.toNat

def writeUint32 (v : UInt32) : Bytes := beBytes 4 v.toNat

def writeUint64 (v : UInt64) : Bytes := beBytes 8 v.toNat

/-- The length octet is `uint8(len(b))`: a longer string loses its high bits there. -/
def writeShortString (v : GoString) : Bytes := writeUint8 (UInt8.ofNat v.length) ++ v

def writeString (v : GoString) : Bytes := writeUint32 (UInt32.ofNat v.length) ++ v

def writeBytes (v : Bytes) : Bytes := writeUint32 (UInt32.ofNat v.length) ++ v

/-- `writeFloat32` encodes `uint32(v)`, not the IEEE-754 bits. For a negative float, or one out of
range, Go leaves the result to the implementation; here it wraps around, also in `writeFloat64`. -/
def writeFloat32 (v : ℚ) : Bytes := writeUint32 (UInt32.ofInt (truncFloat v))

def writeFloat64 (v : ℚ) : Bytes := writeUint64 (UInt64.ofInt (truncFloat v))

inductive WriteError where
  /-- `unsupported table value type %T` -/
  | unsupportedType
  /-- `table key %q: %w` -/
  | tableKey (key : GoString) (e : WriteError)
  deriving DecidableEq

mutual

def writeTableValue : Value → Except WriteError Bytes
  | .bool v => .ok (writeUint8 0x74 ++ writeBool v)
  | .int8 v => .ok (writeUint8 0x62 ++ writeUint8 v.toUInt8)
  | .uint8 v => .ok (writeUint8 0x42 ++ writeUint8 v)
  | .int16 v => .ok (writeUint8 0x73 ++ writeUint16 v.toUInt16)
  | .uint16 v => .ok (writeUint8 0x75 ++ writeUint16 v)
  | .int32 v => .ok (writeUint8 0x49 ++ writeUint32 v.toUInt32)
  | .uint32 v => .ok (writeUint8 0x69 ++ writeUint32 v)
  | .int64 v => .ok (writeUint8 0x6c ++ writeUint64 v.toUInt64)
  | .uint64 v => .ok (writeUint8 0x4c ++ writeUint64 v)
  | .float32 v => .ok (writeUint8 0x66 ++ writeFloat32 v)
  | .float64 v => .ok (writeUint8 0x64 ++ writeFloat64 v)
  | .string v => .ok (writeUint8 0x53 ++ writeString v)
  | .bytes v => .ok (writeUint8 0x78 ++ writeBytes v)
  | .time v => .ok (writeUint8 0x54 ++ writeUint64 v.toUInt64)
  | .table t =>
    match writeTableBody t with
    | .ok data => .ok (writeUint8 0x46 ++ (writeUint32 (UInt32.ofNat data.length) ++ data))
    | .error e => .error e
  -- plain `int` and `uint` are not in the encoder's list of types
  | .int _ | .uint _ | .other => .error .unsupportedType

/-- The entries of a table, in the order the range statement visits them. -/
def writeTableBody : List (GoString × Value) → Except WriteError Bytes
  | [] => .ok []
  | (key, val) :: t =>
    match writeTableValue val with
    | .error e => .error (.tableKey key e)
    | .ok b =>
      match writeTableBody t with
      | .error e => .error e
      | .ok bs => .ok (writeString key ++ b ++ bs)

end

def writeTable (t : Table) : Except WriteError Bytes :=
  match writeTableBody t with
  | .ok data => .ok (writeUint32 (UInt32.ofNat data.length) ++ data)
  | .error e => .error e

/-! ## Decoder -/

inductive ReadError where
  | eof
  | unexpectedEOF
  /-- `table key: %w` -/
  | tableKey (e : ReadError)
  /-- `table key %q: %w` -/
  | tableValue (key : GoString) (e : ReadError)
  /-- `unknown table type %c` -/
  | unknownTableType (typ : UInt8)
  deriving DecidableEq

/-- What a read returns: a value, an error, and the bytes still unread. -/
structure Read (α : Type) where
  val : α
  err : Option ReadError
  rest : Bytes

namespace Read

variable {α β : Type}

def map (f : α → β) (r : Read α) : Read β := ⟨f r.val, r.err, r.rest⟩

def orFail (r : Read α) : Except ReadError (α × Bytes) :=
  match r.err with
  | none => .ok (r.val, r.rest)
  | some e => .error e

theorem orFail_eq_ok {r : Read α} {a : α} {bs : Bytes} :
    r.orFail = .ok (a, bs) ↔ r = ⟨a, none, bs⟩ := by
  rcases r with ⟨v, _ | e, bs'⟩ <;> simp [orFail]

end Read

/-- `io.ReadFull`: nothing read is `EOF`, too little is `ErrUnexpectedEOF`. -/
def readFull (n : ℕ) (bs : Bytes) : Read Bytes :=
  let p := takePad n bs
  ⟨p.1, if n ≤ bs.length then none else if bs.isEmpty then some .eof else some .unexpectedEOF, p.2⟩

def readUint8 (bs : Bytes) : Read UInt8 := (readFull 1 bs).map fun b => UInt8.ofNat (ofBe b)

def readUint16 (bs : Bytes) : Read UInt16 := (readFull 2 bs).map fun b => UInt16.ofNat (ofBe b)

def readUint32 (bs : Bytes) : Read UInt32 := (readFull 4 bs).map fun b => UInt32.ofNat (ofBe b)

def readUint64 (bs : Bytes) : Read UInt64 := (readFull 8 bs).map fun b => UInt64.ofNat (ofBe b)

def readBool (bs : Bytes) : Read Bool := (readUint8 bs).map fun v => v != 0

def readShortString (bs : Bytes) : Read GoString :=
  let length := readUint8 bs
  match length.err with
  | some e => ⟨[], some e, length.rest⟩
  | none => readFull length.val.toNat length.rest

def readString (bs : Bytes) : Read GoString :=
  let length := readUint32 bs
  match length.err with
  | some e => ⟨[], some e, length.rest⟩
  | none => readFull length.val.toNat length.rest

def readBytes (bs : Bytes) : Read Bytes := readString bs

/-- `readFloat32` converts the 32-bit integer, it does not read IEEE-754 bits. -/
def readFloat32 (bs : Bytes) : Read ℚ := (readUint32 bs).map fun v => (roundFloat 24 v.toNat : ℚ)

def readFloat64 (bs : Bytes) : Read ℚ := (readUint64 bs).map fun v => (roundFloat 53 v.toNat : ℚ)

/-- `ReadTable`, given the parser for the table's body. -/
def readTableWith (body : Bytes → Except ReadError Table) (bs : Bytes) : Read Table :=
  let size := readUint32 bs
  match size.err with
  | some e => ⟨[], some e, size.rest⟩
  | none =>
    if size.val = 0 then ⟨[], none, size.rest⟩
    else
      let data := readFull size.val.toNat size.rest
      match data.err with
      | some e => ⟨[], some e, data.rest⟩
      | none =>
        match body data.val with
        | .ok t => ⟨t, none, data.rest⟩
        | .error e => ⟨[], some e, data.rest⟩

/-- `readTableValue`, given the parser for the body of a nested table. -/
def readTableValueWith (body : Bytes → Except ReadError Table) (bs : Bytes) : Read Value :=
  let typ := readUint8 bs
  match typ.err with
  | some e => ⟨.other, some e, typ.rest⟩
  | none =>
    match typ.val with
    | 0x74 => (readBool typ.rest).map .bool
    | 0x62 => (readUint8 typ.rest).map fun v => .int8 v.toInt8
    | 0x42 => (readUint8 typ.rest).map .uint8
    | 0x73 => (readUint16 typ.rest).map fun v => .int16 v.toInt16
    | 0x75 => (readUint16 typ.rest).map .uint16
    | 0x49 => (readUint32 typ.rest).map fun v => .int32 v.toInt32
    | 0x69 => (readUint32 typ.rest).map .uint32
    | 0x6c => (readUint64 typ.rest).map fun v => .int64 v.toInt64
    | 0x4c => (readUint64 typ.rest).map .uint64
    | 0x66 => (readFloat32 typ.rest).map .float32
    | 0x64 => (readFloat64 typ.rest).map .float64
    | 0x53 => (readString typ.rest).map .string
    | 0x78 => (readBytes typ.rest).map .bytes
    | 0x54 => (readUint64 typ.rest).map fun v => .time v.toInt64
    | 0x46 => (readTableWith body typ.rest).map .table
    | t => ⟨.other, some (.unknownTableType t), typ.rest⟩

/-- The loop of `readTableBody`; every round uses up at least five bytes, and a nested body is
shorter than the one around it, so more fuel than bytes is enough (`readTableBody_fuel`). -/
def readTableBody : ℕ → Bytes → Table → Except ReadError Table
  | 0, _, _ => .error .eof
  | fuel + 1, data, result =>
    if data.isEmpty then .ok result
    else
      let key := readString data
      match key.err with
      | some e => .error (.tableKey e)
      | none =>
        let val := readTableValueWith (fun d => readTableBody fuel d []) key.rest
        match val.err with
        | some e => .error (.tableValue key.val e)
        | none => readTableBody fuel val.rest (result.set key.val val.val)

def readTable (bs : Bytes) : Read Table :=
  readTableWith (fun data => readTableBody (data.length + 1) data []) bs

end Gomq.Wire
