import Gomq.Wire.Reads

/-!
# Tables are decoded from their own bytes

`ReadTable` reads a size and as many bytes, and parses these with a decoder of their own. Whatever a
nested size or length announces, that decoder ends where the table ends.

1. A read is `Local` if, where it succeeds, it has taken some bytes off the front and would have
   returned the same with anything behind them. Sequences of local reads are local, so the reads of
   strings, values and tables are.
2. `runTable` is `ReadTable` with a bound on its rounds and its depth; it has no result if the bound
   is met. It also lists the entries it decodes, those of tables that fail later on too.
3. A bound above the number of bytes is never met, every entry of the result is in the list, and
   each entry in the list was made of bytes inside its table (`readTable_contained`).
-/

namespace Gomq.Wire

open List

/-! ## Local reads -/

section Local

variable {α β : Type}

/-- The read takes these bytes and returns `a`, whatever follows. -/
def Takes (read : Bytes → Read α) (own : Bytes) (a : α) : Prop :=
  ∀ rest, read (own ++ rest) = ⟨a, none, rest⟩

/-- A read that succeeds takes bytes off the front, and only these matter. -/
def Local (read : Bytes → Read α) : Prop :=
  ∀ ⦃bs a rest⦄, read bs = ⟨a, none, rest⟩ → ∃ own, bs = own ++ rest ∧ Takes read own a

/-- A read that is followed by another one unless it fails. -/
def Read.andThen (r : Read α) (d : β) (next : α → Bytes → Read β) : Read β :=
  match r.err with
  | some e => ⟨d, some e, r.rest⟩
  | none => next r.val r.rest

theorem Local.map {read : Bytes → Read α} (h : Local read) (f : α → β) :
    Local fun bs => (read bs).map f := by
  intro bs b rest hread
  rcases hr : read bs with ⟨a, err, rest'⟩
  dsimp only at hread
  rw [hr] at hread
  cases hread
  obtain ⟨own, hbs, htakes⟩ := h hr
  exact ⟨own, hbs, fun rest => by dsimp only; rw [htakes]; rfl⟩

theorem Local.andThen {read : Bytes → Read α} {next : α → Bytes → Read β} (h : Local read)
    (hnext : ∀ a, Local (next a)) (d : β) : Local fun bs => (read bs).andThen d next := by
  intro bs b rest hread
  rcases hr : read bs with ⟨a, err, rest'⟩
  dsimp only at hread
  rw [hr] at hread
  cases err with
  | some e => cases hread
  | none =>
    obtain ⟨own, hbs, htakes⟩ := h hr
    obtain ⟨own', hrest', htakes'⟩ := @hnext a rest' b rest hread
    refine ⟨own ++ own', by rw [hbs, hrest', append_assoc], fun rest => ?_⟩
    dsimp only
    rw [append_assoc, htakes]
    exact htakes' rest

theorem local_readFull (n : ℕ) : Local (readFull n) := by
  intro bs v rest h
  obtain ⟨hlen, hbs⟩ := readFull_eq_ok_iff.mp (Read.orFail_eq_ok.mpr h)
  exact ⟨v, hbs, fun rest => hlen ▸ readFull_append v rest⟩

theorem local_readString : Local readString :=
  ((local_readFull 4).map _).andThen (fun n : UInt32 => local_readFull n.toNat) []

/-- What the parser of a body returns, with nothing more read. -/
def Read.ofExcept (d : α) : Except ReadError α → Bytes → Read α
  | .ok a, bs => ⟨a, none, bs⟩
  | .error e, bs => ⟨d, some e, bs⟩

theorem local_ofExcept (d : α) (x : Except ReadError α) : Local (Read.ofExcept d x) := by
  intro bs a rest h
  cases x with
  | ok b =>
    cases h
    exact ⟨[], rfl, fun rest => rfl⟩
  | error e => cases h

theorem readTableWith_eq (body : Bytes → Except ReadError Table) (bs : Bytes) :
    readTableWith body bs = (readUint32 bs).andThen [] fun size bs =>
      if size = 0 then Read.ofExcept [] (.ok []) bs
      else (readFull size.toNat bs).andThen [] fun data bs => Read.ofExcept [] (body data) bs := by
  unfold readTableWith Read.andThen
  dsimp only
  cases (readUint32 bs).err with
  | some e => rfl
  | none =>
    dsimp only
    split
    · rfl
    · cases (readFull (readUint32 bs).val.toNat (readUint32 bs).rest).err with
      | some e => rfl
      | none =>
        dsimp only
        cases body (readFull (readUint32 bs).val.toNat (readUint32 bs).rest).val <;> rfl

theorem local_readTableWith (body : Bytes → Except ReadError Table) :
    Local (readTableWith body) := by
  rw [funext (readTableWith_eq body)]
  refine ((local_readFull 4).map _).andThen (fun size => ?_) []
  by_cases h0 : size = 0
  · simp only [if_pos h0]
    exact local_ofExcept [] _
  · simp only [if_neg h0]
    exact (local_readFull size.toNat).andThen (fun data => local_ofExcept [] _) []

def readTagged (body : Bytes → Except ReadError Table) (typ : UInt8) : Bytes → Read Value :=
  match typ with
  | 0x74 => fun bs => (readBool bs).map .bool
  | 0x62 => fun bs => (readUint8 bs).map fun v => .int8 v.toInt8
  | 0x42 => fun bs => (readUint8 bs).map .uint8
  | 0x73 => fun bs => (readUint16 bs).map fun v => .int16 v.toInt16
  | 0x75 => fun bs => (readUint16 bs).map .uint16
  | 0x49 => fun bs => (readUint32 bs).map fun v => .int32 v.toInt32
  | 0x69 => fun bs => (readUint32 bs).map .uint32
  | 0x6c => fun bs => (readUint64 bs).map fun v => .int64 v.toInt64
  | 0x4c => fun bs => (readUint64 bs).map .uint64
  | 0x66 => fun bs => (readFloat32 bs).map .float32
  | 0x64 => fun bs => (readFloat64 bs).map .float64
  | 0x53 => fun bs => (readString bs).map .string
  | 0x78 => fun bs => (readBytes bs).map .bytes
  | 0x54 => fun bs => (readUint64 bs).map fun v => .time v.toInt64
  | 0x46 => fun bs => (readTableWith body bs).map .table
  | t => fun bs => ⟨.other, some (.unknownTableType t), bs⟩

theorem readTableValueWith_eq (body : Bytes → Except ReadError Table) (bs : Bytes) :
    readTableValueWith body bs = (readUint8 bs).andThen .other (readTagged body) := by
  unfold readTableValueWith Read.andThen
  dsimp only
  cases (readUint8 bs).err with
  | some e => rfl
  | none =>
    dsimp only
    unfold readTagged
    generalize (readUint8 bs).val = typ
    split
    case h_16 => simp_all
    all_goals rfl

/-- Only the tag of a table leads to the parser of a body. -/
theorem readTagged_of_ne {typ : UInt8} (h : typ ≠ 0x46)
    (body body' : Bytes → Except ReadError Table) : readTagged body typ = readTagged body' typ := by
  unfold readTagged
  split
  case h_15 => exact absurd rfl h
  all_goals rfl

theorem readTagged_ne_table {typ : UInt8} (h : typ ≠ 0x46)
    (body : Bytes → Except ReadError Table) (bs : Bytes) (t : Table) :
    (readTagged body typ bs).val ≠ .table t := by
  unfold readTagged
  split
  case h_15 => exact absurd rfl h
  all_goals exact nofun

theorem local_readTagged (body : Bytes → Except ReadError Table) (typ : UInt8) :
    Local (readTagged body typ) := by
  have h8 := local_readFull 1
  have h16 := local_readFull 2
  have h32 := local_readFull 4
  have h64 := local_readFull 8
  unfold readTagged
  split
  · exact ((h8.map _).map _).map _
  · exact (h8.map _).map _
  · exact (h8.map _).map _
  · exact (h16.map _).map _
  · exact (h16.map _).map _
  · exact (h32.map _).map _
  · exact (h32.map _).map _
  · exact (h64.map _).map _
  · exact (h64.map _).map _
  · exact ((h32.map _).map _).map _
  · exact ((h64.map _).map _).map _
  · exact local_readString.map _
  · exact local_readString.map _
  · exact (h64.map _).map _
  · exact (local_readTableWith body).map _
  · exact fun _ _ _ h => nomatch h

theorem local_readTableValueWith (body : Bytes → Except ReadError Table) :
    Local (readTableValueWith body) := by
  rw [funext (readTableValueWith_eq body)]
  exact ((local_readFull 1).map _).andThen (local_readTagged body) _

end Local

/-! ## The run of the decoder -/

/-- An entry that was decoded: the body of the table it is in, the bytes of its key and of its
value, and what was made of them. -/
structure Decoded where
  table : Bytes
  keyBytes : Bytes
  valueBytes : Bytes
  key : GoString
  value : Value

/-- `ReadTable`, given the run of the parser for the body. -/
def runTableWith (body : Bytes → Option (Except ReadError Table × List Decoded)) (bs : Bytes) :
    Option (Read Table × List Decoded) :=
  let size := readUint32 bs
  match size.err with
  | some e => some (⟨[], some e, size.rest⟩, [])
  | none =>
    if size.val = 0 then some (⟨[], none, size.rest⟩, [])
    else
      let data := readFull size.val.toNat size.rest
      match data.err with
      | some e => some (⟨[], some e, data.rest⟩, [])
      | none =>
        match body data.val with
        | none => none
        | some (.ok t, ds) => some (⟨t, none, data.rest⟩, ds)
        | some (.error e, ds) => some (⟨[], some e, data.rest⟩, ds)

/-- `readTableValue`, given the run of the parser for the body of a nested table. -/
def runTableValueWith (body : Bytes → Option (Except ReadError Table × List Decoded))
    (bs : Bytes) : Option (Read Value × List Decoded) :=
  let typ := readUint8 bs
  if typ.err = none ∧ typ.val = 0x46 then
    (runTableWith body typ.rest).map fun r => (r.1.map .table, r.2)
  -- no other tag leads to the parser of a body
  else some (readTableValueWith (fun _ => .ok []) bs, [])

/-- `readTableBody` on what is left of `table`, within a bound on rounds and depth together. -/
def runTableBody : ℕ → Bytes → Bytes → Table → Option (Except ReadError Table × List Decoded)
  | 0, _, _, _ => none
  | fuel + 1, table, data, result =>
    if data.isEmpty then some (.ok result, [])
    else
      let key := readString data
      match key.err with
      | some e => some (.error (.tableKey e), [])
      | none =>
        match runTableValueWith (fun d => runTableBody fuel d d []) key.rest with
        | none => none
        | some (val, inner) =>
          match val.err with
          | some e => some (.error (.tableValue key.val e), inner)
          | none =>
            let entry := ⟨table, data.take (data.length - key.rest.length),
              key.rest.take (key.rest.length - val.rest.length), key.val, val.val⟩
            (runTableBody fuel table val.rest (result.set key.val val.val)).map fun r =>
              (r.1, inner ++ entry :: r.2)

def runTable (fuel : ℕ) (bs : Bytes) : Option (Read Table × List Decoded) :=
  runTableWith (fun data => runTableBody fuel data data []) bs

def readTableValue (bs : Bytes) : Read Value :=
  readTableValueWith (fun data => readTableBody (data.length + 1) data []) bs

/-! ## What an entry is made of -/

/-- `inner` is the body of a table inside the body `outer`, at any depth. -/
inductive Inside (outer : Bytes) : Bytes → Prop
  | self : Inside outer outer
  | nested {table before inner after : Bytes} {size : UInt32} : Inside outer table →
      table = before ++ (writeUint8 0x46 ++ (writeUint32 size ++ inner)) ++ after →
      inner.length = size.toNat → Inside outer inner

theorem Inside.trans {a b c : Bytes} (hab : Inside a b) (hbc : Inside b c) : Inside a c := by
  induction hbc with
  | self => exact hab
  | nested _ heq hlen ih => exact .nested ih heq hlen

/-- The entry is in the table with this body or in one inside it, its key and its value lie in the
body of its own table, and each was read from its own bytes. -/
structure Contained (body : Bytes) (d : Decoded) : Prop where
  inside : Inside body d.table
  part : ∃ before after, d.table = before ++ (d.keyBytes ++ d.valueBytes) ++ after
  key : Takes readString d.keyBytes d.key
  value : Takes readTableValue d.valueBytes d.value

theorem Contained.of_inside {outer body : Bytes} {d : Decoded} (h : Contained body d)
    (hin : Inside outer body) : Contained outer d :=
  { h with inside := hin.trans h.inside }

/-- The pair is an entry of the table or of one inside it, at any depth. -/
inductive HasEntry : Table → GoString → Value → Prop
  | here {t : Table} {key : GoString} {val : Value} : (key, val) ∈ t → HasEntry t key val
  | inside {t t' : Table} {name key : GoString} {val : Value} : (name, .table t') ∈ t →
      HasEntry t' key val → HasEntry t key val

def Listed (t : Table) (ds : List Decoded) : Prop :=
  ∀ key val, HasEntry t key val → ∃ d ∈ ds, d.key = key ∧ d.value = val

theorem listed_nil (ds : List Decoded) : Listed [] ds := by
  rintro key val (⟨⟨⟩⟩ | ⟨⟨⟩⟩)

theorem mem_set {t : Table} {key : GoString} {val : Value} {e : GoString × Value}
    (h : e ∈ t.set key val) : e ∈ t ∨ e = (key, val) := by
  induction t with
  | nil => exact .inr (mem_singleton.mp h)
  | cons e' t ih =>
    unfold Table.set at h
    split at h
    · exact (mem_cons.mp h).symm.imp_left (mem_cons_of_mem e')
    · rcases mem_cons.mp h with rfl | h
      · exact .inl mem_cons_self
      · exact (ih h).imp_left (mem_cons_of_mem e')

theorem hasEntry_set {t : Table} {name key : GoString} {new val : Value}
    (h : HasEntry (t.set name new) key val) :
    HasEntry t key val ∨ (name = key ∧ new = val) ∨
      ∃ t', new = .table t' ∧ HasEntry t' key val := by
  cases h with
  | here hmem =>
    rcases mem_set hmem with hmem | heq
    · exact .inl (.here hmem)
    · cases heq
      exact .inr (.inl ⟨rfl, rfl⟩)
  | inside hmem h =>
    rcases mem_set hmem with hmem | heq
    · exact .inl (.inside hmem h)
    · cases heq
      exact .inr (.inr ⟨_, rfl, h⟩)

/-! ## Runs -/

/-- The run returns what the parser of the body does. Every entry of its table that is not in `r` is
in its list, and every entry in the list is contained in the body. -/
def Traces (run : Option (Except ReadError Table × List Decoded)) (parsed : Except ReadError Table)
    (r : Table) (body : Bytes) : Prop :=
  ∃ ds, run = some (parsed, ds) ∧
    (∀ t, parsed = .ok t → ∀ key val, HasEntry t key val →
      HasEntry r key val ∨ ∃ d ∈ ds, d.key = key ∧ d.value = val) ∧
    ∀ x ∈ ds, Contained body x

theorem runTableWith_spec {body : Bytes → Option (Except ReadError Table × List Decoded)}
    {body' : Bytes → Except ReadError Table} {bs : Bytes}
    (hbody : ∀ d, d.length ≤ bs.length → Traces (body d) (body' d) [] d) :
    ∃ ds, runTableWith body bs = some (readTableWith body' bs, ds) ∧
      Listed (readTableWith body' bs).val ds ∧
      ∀ x ∈ ds, ∃ size data rest, bs = writeUint32 size ++ data ++ rest ∧
        data.length = size.toNat ∧ Contained data x := by
  unfold runTableWith readTableWith
  dsimp only
  cases hsize : (readUint32 bs).err with
  | some e => exact ⟨[], rfl, listed_nil _, nofun⟩
  | none =>
    dsimp only
    by_cases h0 : (readUint32 bs).val = 0
    · rw [if_pos h0, if_pos h0]
      exact ⟨[], rfl, listed_nil _, nofun⟩
    · rw [if_neg h0, if_neg h0]
      cases hdata : (readFull (readUint32 bs).val.toNat (readUint32 bs).rest).err with
      | some e => exact ⟨[], rfl, listed_nil _, nofun⟩
      | none =>
        -- the size field and as many bytes are there
        obtain ⟨size, rest, hbs⟩ : ∃ size rest, readUint32 bs = ⟨size, none, rest⟩ :=
          ⟨_, _, by rw [← hsize]⟩
        have hsplit := readUint32_eq_ok_iff.mp (Read.orFail_eq_ok.mpr hbs)
        rw [hbs] at hdata ⊢
        have hle := readFull_err_none hdata
        rw [readFull_of_le hle]
        dsimp only at hle ⊢
        have hlen : (rest.take size.toNat).length = size.toNat := length_take_of_le hle
        obtain ⟨ds, hds, hlisted, hcont⟩ := hbody (rest.take size.toNat) (by
          rw [hsplit, length_append, hlen]
          omega)
        refine ⟨ds, ?_, ?_, fun x hx => ⟨size, rest.take size.toNat, rest.drop size.toNat, ?_, hlen,
          hcont x hx⟩⟩
        · rw [hds]
          cases body' (rest.take size.toNat) <;> rfl
        · cases hb : body' (rest.take size.toNat) with
          | ok t => exact fun key val h => (hlisted t hb key val h).elim (listed_nil ds key val) id
          | error e => exact listed_nil ds
        · rw [append_assoc, take_append_drop, hsplit]

theorem runTableValueWith_spec {body : Bytes → Option (Except ReadError Table × List Decoded)}
    {body' : Bytes → Except ReadError Table} {bs : Bytes}
    (hbody : ∀ d, d.length ≤ bs.length → Traces (body d) (body' d) [] d) :
    ∃ ds, runTableValueWith body bs = some (readTableValueWith body' bs, ds) ∧
      (∀ t, (readTableValueWith body' bs).val = .table t → Listed t ds) ∧
      ∀ x ∈ ds, ∃ size data rest, bs = writeUint8 0x46 ++ (writeUint32 size ++ data) ++ rest ∧
        data.length = size.toNat ∧ Contained data x := by
  unfold runTableValueWith
  dsimp only
  rw [readTableValueWith_eq, readTableValueWith_eq]
  cases bs with
  | nil => exact ⟨[], rfl, nofun, nofun⟩
  | cons typ bs =>
    rw [readUint8_cons]
    dsimp only
    by_cases htyp : typ = 0x46
    · obtain ⟨ds, hrun, hlisted, hcont⟩ := @runTableWith_spec body body' bs fun d hd => hbody d (by
        rw [length_cons]
        omega)
      rw [if_pos ⟨rfl, htyp⟩, hrun, htyp]
      refine ⟨ds, rfl, fun t ht => Value.table.inj ht ▸ hlisted, fun x hx => ?_⟩
      obtain ⟨size, data, rest, hbs, hlen, hx⟩ := hcont x hx
      refine ⟨size, data, rest, ?_, hlen, hx⟩
      rw [hbs]
      rfl
    · rw [if_neg fun h => htyp h.2]
      refine ⟨[], ?_, fun t ht => absurd ht (readTagged_ne_table htyp body' bs t), nofun⟩
      unfold Read.andThen
      dsimp only
      rw [readTagged_of_ne htyp _ body']

theorem Contained.of_value {table before rest : Bytes} {x : Decoded}
    (htable : table = before ++ rest)
    (hx : ∃ size data after, rest = writeUint8 0x46 ++ (writeUint32 size ++ data) ++ after ∧
      data.length = size.toNat ∧ Contained data x) : Contained table x := by
  obtain ⟨size, data, after, hrest, hlen, hx⟩ := hx
  have hsplit : table = before ++ (writeUint8 0x46 ++ (writeUint32 size ++ data)) ++ after := by
    rw [htable, hrest, ← append_assoc before]
  exact hx.of_inside (.nested .self hsplit hlen)

theorem Contained.entry {table before keyBytes valueBytes after data rest : Bytes} {key : GoString}
    {val : Value} (htable : table = before ++ data) (hdata : data = keyBytes ++ rest)
    (hrest : rest = valueBytes ++ after) (hkey : Takes readString keyBytes key)
    (hval : Takes readTableValue valueBytes val) :
    Contained table ⟨table, data.take (data.length - rest.length),
      rest.take (rest.length - after.length), key, val⟩ := by
  have hkeyBytes : data.take (data.length - rest.length) = keyBytes := by
    rw [hdata, length_append, Nat.add_sub_cancel, take_left]
  have hvalueBytes : rest.take (rest.length - after.length) = valueBytes := by
    rw [hrest, length_append, Nat.add_sub_cancel, take_left]
  rw [hkeyBytes, hvalueBytes]
  refine ⟨.self, ⟨before, after, ?_⟩, hkey, hval⟩
  rw [htable, hdata, hrest, append_assoc, append_assoc]

/-- The induction is on the bound, which serves both the next entry and the tables inside this
one. -/
theorem runTableBody_spec {fuel : ℕ} {table before data : Bytes} (hfuel : data.length < fuel)
    (htable : table = before ++ data) (r : Table) :
    Traces (runTableBody fuel table data r) (readTableBody (data.length + 1) data r) r table := by
  induction fuel generalizing table before data r with
  | zero => omega
  | succ fuel ih =>
    rw [readTableBody_fuel (Nat.lt_succ_self _) hfuel]
    unfold runTableBody readTableBody
    by_cases hempty : data.isEmpty
    · rw [if_pos hempty, if_pos hempty]
      refine ⟨[], rfl, fun t ht key val h => .inl ?_, forall_mem_nil _⟩
      cases ht
      exact h
    · rw [if_neg hempty, if_neg hempty]
      rcases hkey : readString data with ⟨key, keyErr, rest⟩
      cases keyErr with
      | some e => exact ⟨[], rfl, fun t ht => (by cases ht), forall_mem_nil _⟩
      | none =>
        have hlt : rest.length < data.length := by
          have := length_rest_readString_lt (congrArg Read.err hkey)
          rwa [hkey] at this
        obtain ⟨keyBytes, hdata, hkeyTakes⟩ := local_readString hkey
        have hrestIn : table = before ++ keyBytes ++ rest := by
          rw [htable, hdata, append_assoc]
        obtain ⟨inner, hinner, hlisted, hcont⟩ := runTableValueWith_spec
          fun d (hd : d.length ≤ rest.length) =>
            ih (show d.length < fuel by omega) (nil_append d).symm []
        have hnested : ∀ x ∈ inner, Contained table x := fun x hx => .of_value hrestIn (hcont x hx)
        have hvalue : readTableValueWith (fun d => readTableBody fuel d []) rest =
            readTableValue rest :=
          readTableValueWith_congr fun d hd => readTableBody_fuel (by omega) (by omega) []
        rw [← readTableValue] at hinner
        dsimp only
        rw [hinner, hvalue]
        rcases hval : readTableValue rest with ⟨val, valErr, after⟩
        cases valErr with
        | some e => exact ⟨inner, rfl, fun t ht => (by cases ht), hnested⟩
        | none =>
          obtain ⟨valueBytes, hrest, hvalueTakes⟩ := local_readTableValueWith _ hval
          have hafterIn : table = before ++ keyBytes ++ valueBytes ++ after := by
            rw [hrestIn, hrest, append_assoc _ valueBytes]
          have hshort : after.length < fuel := by
            have : rest.length = valueBytes.length + after.length := by
              rw [hrest, length_append]
            omega
          obtain ⟨later, hlater, hlaterListed, hlaterCont⟩ := ih hshort hafterIn (r.set key val)
          dsimp only
          rw [hlater, readTableBody_fuel (Nat.lt_succ_self _) hshort]
          refine ⟨_, rfl, fun t ht k v h => ?_, fun x hx => ?_⟩
          · -- an entry of the result was there before, is this one or inside it, or is a later one
            rw [← readTableBody_fuel (Nat.lt_succ_self _) hshort] at ht
            rcases hlaterListed t ht k v h with h | ⟨d, hd, heq⟩
            · rcases hasEntry_set h with hold | heq | ⟨t', rfl, hin⟩
              · exact .inl hold
              · exact .inr ⟨_, mem_append_right _ mem_cons_self, heq⟩
              · obtain ⟨d, hd, heq⟩ := hlisted t' (congrArg Read.val hval) k v hin
                exact .inr ⟨d, mem_append_left _ hd, heq⟩
            · exact .inr ⟨d, mem_append_right _ (mem_cons_of_mem _ hd), heq⟩
          · rcases mem_append.mp hx with hx | hx
            · exact hnested x hx
            · rcases mem_cons.mp hx with rfl | hx
              · exact .entry htable hdata hrest hkeyTakes hvalueTakes
              · exact hlaterCont x hx

theorem drop_take_sized {bs data rest : Bytes} {size : UInt32}
    (hbs : bs = writeUint32 size ++ data ++ rest) (hlen : data.length = size.toNat) :
    (readUint32 bs).val = size ∧ (bs.drop 4).take size.toNat = data ∧
      bs.drop (4 + size.toNat) = rest := by
  have hfour : (writeUint32 size).length = 4 := length_beBytes 4 _
  rw [append_assoc] at hbs
  have hdrop : bs.drop 4 = data ++ rest := by rw [hbs, ← hfour, drop_left]
  refine ⟨by rw [hbs, readUint32_write], by rw [hdrop, ← hlen, take_left], ?_⟩
  rw [← drop_drop, hdrop, ← hlen, drop_left]

theorem readTableWith_ok {body : Bytes → Except ReadError Table} {bs rest : Bytes} {t : Table}
    (h : readTableWith body bs = ⟨t, none, rest⟩) :
    ∃ size data, bs = writeUint32 size ++ data ++ rest ∧ data.length = size.toNat := by
  rw [readTableWith_eq] at h
  rcases hsize : readUint32 bs with ⟨size, sizeErr, rest'⟩
  rw [hsize] at h
  cases sizeErr with
  | some e => cases h
  | none =>
    have hsplit := readUint32_eq_ok_iff.mp (Read.orFail_eq_ok.mpr hsize)
    unfold Read.andThen at h
    dsimp only at h
    by_cases h0 : size = 0
    · rw [if_pos h0] at h
      cases h
      exact ⟨size, [], by rw [hsplit, append_nil], by rw [h0]; rfl⟩
    · rw [if_neg h0] at h
      rcases hdata : readFull size.toNat rest' with ⟨data, dataErr, rest''⟩
      rw [hdata] at h
      cases dataErr with
      | some e => cases h
      | none =>
        obtain ⟨hlen, hrest'⟩ := readFull_eq_ok_iff.mp (Read.orFail_eq_ok.mpr hdata)
        have hrest : rest'' = rest := by
          dsimp only at h
          cases hb : body data with
          | error e => rw [hb] at h; cases h
          | ok t' => rw [hb] at h; cases h; rfl
        exact ⟨size, data, by rw [hsplit, hrest', hrest, append_assoc], hlen⟩

/-- What `ReadTable` returns is made of the announced bytes, of which it takes exactly all; it ends
on every input; and each entry that it decodes on the way, which are those of the result at least,
is made of bytes of its own table. -/
theorem readTable_contained (bs : Bytes) :
    (∀ t rest, readTable bs = ⟨t, none, rest⟩ →
        4 + (readUint32 bs).val.toNat ≤ bs.length ∧
          rest = bs.drop (4 + (readUint32 bs).val.toNat) ∧
          Takes readTable (bs.take (4 + (readUint32 bs).val.toNat)) t) ∧
      ∀ fuel, bs.length < fuel → ∃ ds, runTable fuel bs = some (readTable bs, ds) ∧
        Listed (readTable bs).val ds ∧
        ∀ d ∈ ds, Contained ((bs.drop 4).take (readUint32 bs).val.toNat) d := by
  constructor
  · intro t rest h
    obtain ⟨size, data, hbs, hlen⟩ := readTableWith_ok h
    obtain ⟨own, hown, htakes⟩ := local_readTableWith _ h
    obtain ⟨hsize, -, hrest⟩ := drop_take_sized hbs hlen
    have hfour : (writeUint32 size).length = 4 := length_beBytes 4 _
    have hownEq : own = writeUint32 size ++ data := by
      rw [hbs] at hown
      exact (append_cancel_right hown).symm
    have hownLen : own.length = 4 + size.toNat := by
      rw [hownEq, length_append, hfour, hlen]
    rw [hsize]
    refine ⟨?_, hrest.symm, ?_⟩
    · rw [hown, length_append]
      omega
    · rw [hown, ← hownLen, take_left]
      exact htakes
  · intro fuel hfuel
    obtain ⟨ds, hrun, hlisted, hcont⟩ := runTableWith_spec fun d (hd : d.length ≤ bs.length) =>
      runTableBody_spec (show d.length < fuel by omega) (nil_append d).symm []
    refine ⟨ds, hrun, hlisted, fun d hd => ?_⟩
    obtain ⟨size, data, rest, hbs, hlen, hd⟩ := hcont d hd
    obtain ⟨hsize, hdata, -⟩ := drop_take_sized hbs hlen
    rw [hsize, hdata]
    exact hd

def nestedBytes : Bytes :=
  writeUint32 17 ++ (writeString (str "y") ++ (writeUint8 0x46 ++ (writeUint32 7 ++
    (writeString (str "z") ++ (writeUint8 0x74 ++ writeBool true))))) ++ [9, 9]

theorem readTable_contained_nested :
    Takes readTable (nestedBytes.take 21) [(str "y", .table [(str "z", .bool true)])] ∧
      ∃ ds, runTable 24 nestedBytes =
          some (⟨[(str "y", .table [(str "z", .bool true)])], none, [9, 9]⟩, ds) ∧
        Listed [(str "y", .table [(str "z", .bool true)])] ds ∧
        ∀ d ∈ ds, Contained ((nestedBytes.drop 4).take 17) d := by
  have hread : readTable nestedBytes =
      ⟨[(str "y", .table [(str "z", .bool true)])], none, [9, 9]⟩ := rfl
  obtain ⟨-, -, htakes⟩ := (readTable_contained nestedBytes).1 _ _ hread
  obtain ⟨ds, hrun, hlisted, hcont⟩ := (readTable_contained nestedBytes).2 24 (by decide)
  rw [hread] at hrun hlisted
  exact ⟨htakes, ds, hrun, hlisted, hcont⟩

end Gomq.Wire
