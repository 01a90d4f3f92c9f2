import Gomq.Wire.Codec

/-!
# Reads on given bytes

What each read does on a byte string of which enough is known, the fuel of the table parser, and
the one way a table can be misread that matters later: a table whose own size field is taken for
the size of its first key does not parse (`readTable_cut`).
-/

namespace Gomq.Wire

open List

/-! ## Fixed sizes -/

theorem readFull_of_le {n : ℕ} {bs : Bytes} (h : n ≤ bs.length) :
    readFull n bs = ⟨bs.take n, none, bs.drop n⟩ := by
  simp [readFull, takePad, h]

theorem readFull_err_of_lt {n : ℕ} {bs : Bytes} (h : bs.length < n) :
    ∃ e, (readFull n bs).err = some e := by
  unfold readFull
  dsimp only
  rw [if_neg (by omega)]
  split
  · exact ⟨_, rfl⟩
  · exact ⟨_, rfl⟩

theorem readFull_err_none {n : ℕ} {bs : Bytes} (h : (readFull n bs).err = none) :
    n ≤ bs.length := by
  by_contra hlt
  obtain ⟨e, he⟩ := readFull_err_of_lt (Nat.lt_of_not_le hlt)
  rw [h] at he
  cases he

theorem rest_readFull (n : ℕ) (bs : Bytes) : (readFull n bs).rest = bs.drop n := rfl

@[simp] theorem readUint8_cons (b : UInt8) (bs : Bytes) : readUint8 (b :: bs) = ⟨b, none, bs⟩ := by
  unfold readUint8
  rw [readFull_of_le (by simp)]
  simp [Read.map, ofBe]

@[simp] theorem readUint16_cons (a b : UInt8) (bs : Bytes) :
    readUint16 (a :: b :: bs) = ⟨UInt16.ofNat (ofBe [a, b]), none, bs⟩ := by
  unfold readUint16
  rw [readFull_of_le (by simp)]
  rfl

@[simp] theorem readUint32_cons (a b c d : UInt8) (bs : Bytes) :
    readUint32 (a :: b :: c :: d :: bs) = ⟨UInt32.ofNat (ofBe [a, b, c, d]), none, bs⟩ := by
  unfold readUint32
  rw [readFull_of_le (by simp)]
  rfl

@[simp] theorem readUint64_cons (a b c d e f g h : UInt8) (bs : Bytes) :
    readUint64 (a :: b :: c :: d :: e :: f :: g :: h :: bs) =
      ⟨UInt64.ofNat (ofBe [a, b, c, d, e, f, g, h]), none, bs⟩ := by
  unfold readUint64
  rw [readFull_of_le (by simp)]
  rfl

@[simp] theorem readShortString_cons (n : UInt8) (bs : Bytes) :
    readShortString (n :: bs) = readFull n.toNat bs := by
  simp [readShortString]

theorem writeUint16_of_lt {v : UInt16} (h : v.toNat < 256) : writeUint16 v = [0, v.toUInt8] := by
  unfold writeUint16
  rw [beBytes, beBytes, beBytes, pow_one, pow_zero, Nat.div_one, Nat.div_eq_of_lt h]
  rfl

/-! ## Reading back what was written -/

@[simp] theorem Read.orFail_mk {α : Type} (a : α) (rest : Bytes) :
    (⟨a, none, rest⟩ : Read α).orFail = .ok (a, rest) := rfl

theorem readFull_append (b rest : Bytes) : readFull b.length (b ++ rest) = ⟨b, none, rest⟩ := by
  rw [readFull_of_le (by simp), take_left, drop_left]

theorem readNumber_write {α : Type} {w n : ℕ} (h : n < 256 ^ w) (val : ℕ → α) (rest : Bytes) :
    ((readFull w (beBytes w n ++ rest)).map fun b => val (ofBe b)) = ⟨val n, none, rest⟩ := by
  have hfull := readFull_append (beBytes w n) rest
  rw [length_beBytes] at hfull
  rw [hfull]
  unfold Read.map
  dsimp only
  rw [ofBe_beBytes_of_lt h]

@[simp] theorem readUint8_write (v : UInt8) (rest : Bytes) :
    readUint8 (writeUint8 v ++ rest) = ⟨v, none, rest⟩ := readUint8_cons v rest

@[simp] theorem readUint16_write (v : UInt16) (rest : Bytes) :
    readUint16 (writeUint16 v ++ rest) = ⟨v, none, rest⟩ :=
  (readNumber_write v.toNat_lt UInt16.ofNat rest).trans (by rw [UInt16.ofNat_toNat])

@[simp] theorem readUint32_write (v : UInt32) (rest : Bytes) :
    readUint32 (writeUint32 v ++ rest) = ⟨v, none, rest⟩ :=
  (readNumber_write v.toNat_lt UInt32.ofNat rest).trans (by rw [UInt32.ofNat_toNat])

@[simp] theorem readUint64_write (v : UInt64) (rest : Bytes) :
    readUint64 (writeUint64 v ++ rest) = ⟨v, none, rest⟩ :=
  (readNumber_write v.toNat_lt UInt64.ofNat rest).trans (by rw [UInt64.ofNat_toNat])

/-! ## What a read can do -/

theorem readFull_cases (n : ℕ) (bs : Bytes) :
    (readFull n bs).orFail = .error .unexpectedEOF ∨
      (n ≠ 0 ∧ bs = [] ∧ (readFull n bs).orFail = .error .eof) ∨
      ∃ v rest, v.length = n ∧ bs = v ++ rest ∧ (readFull n bs).orFail = .ok (v, rest) := by
  by_cases hn : n ≤ bs.length
  · refine .inr (.inr ⟨bs.take n, bs.drop n, length_take_of_le hn,
      (take_append_drop n bs).symm, ?_⟩)
    rw [readFull_of_le hn]
    rfl
  · unfold readFull Read.orFail
    dsimp only
    rw [if_neg hn]
    cases bs with
    | nil => exact .inr (.inl ⟨by simpa using hn, rfl, rfl⟩)
    | cons b bs => exact .inl rfl

theorem readNumber_cases {α : Type} {w : ℕ} {val : ℕ → α} {write : α → Bytes}
    (hwrite : ∀ n < 256 ^ w, write (val n) = beBytes w n) (bs : Bytes) :
    ((readFull w bs).map fun b => val (ofBe b)).orFail = .error .unexpectedEOF ∨
      (bs = [] ∧ ((readFull w bs).map fun b => val (ofBe b)).orFail = .error .eof) ∨
      ∃ v rest, bs = write v ++ rest ∧
        ((readFull w bs).map fun b => val (ofBe b)).orFail = .ok (v, rest) := by
  have hmap : ((readFull w bs).map fun b => val (ofBe b)).orFail =
      (readFull w bs).orFail.map fun r => (val (ofBe r.1), r.2) := by
    unfold Read.map Read.orFail
    cases (readFull w bs).err <;> rfl
  rw [hmap]
  rcases readFull_cases w bs with h | ⟨-, hnil, h⟩ | ⟨v, rest, hlen, hbs, h⟩
  · exact .inl (by rw [h]; rfl)
  · exact .inr (.inl ⟨hnil, by rw [h]; rfl⟩)
  · refine .inr (.inr ⟨val (ofBe v), rest, ?_, by rw [h]; rfl⟩)
    rw [hbs, hwrite _ (hlen ▸ ofBe_lt v), ← hlen, beBytes_ofBe]

theorem readUint8_cases (bs : Bytes) :
    (readUint8 bs).orFail = .error .unexpectedEOF ∨
      (bs = [] ∧ (readUint8 bs).orFail = .error .eof) ∨
      ∃ v rest, bs = writeUint8 v ++ rest ∧ (readUint8 bs).orFail = .ok (v, rest) := by
  cases bs with
  | nil => exact .inr (.inl ⟨rfl, rfl⟩)
  | cons v rest => exact .inr (.inr ⟨v, rest, rfl, by rw [readUint8_cons]; rfl⟩)

theorem readUint16_cases (bs : Bytes) :
    (readUint16 bs).orFail = .error .unexpectedEOF ∨
      (bs = [] ∧ (readUint16 bs).orFail = .error .eof) ∨
      ∃ v rest, bs = writeUint16 v ++ rest ∧ (readUint16 bs).orFail = .ok (v, rest) :=
  readNumber_cases (fun n hn => by
    unfold writeUint16
    rw [UInt16.toNat_ofNat']
    exact congrArg _ (Nat.mod_eq_of_lt hn)) bs

theorem readUint32_cases (bs : Bytes) :
    (readUint32 bs).orFail = .error .unexpectedEOF ∨
      (bs = [] ∧ (readUint32 bs).orFail = .error .eof) ∨
      ∃ v rest, bs = writeUint32 v ++ rest ∧ (readUint32 bs).orFail = .ok (v, rest) :=
  readNumber_cases (fun n hn => by
    unfold writeUint32
    rw [UInt32.toNat_ofNat']
    exact congrArg _ (Nat.mod_eq_of_lt hn)) bs

theorem readUint64_cases (bs : Bytes) :
    (readUint64 bs).orFail = .error .unexpectedEOF ∨
      (bs = [] ∧ (readUint64 bs).orFail = .error .eof) ∨
      ∃ v rest, bs = writeUint64 v ++ rest ∧ (readUint64 bs).orFail = .ok (v, rest) :=
  readNumber_cases (fun n hn => by
    unfold writeUint64
    rw [UInt64.toNat_ofNat']
    exact congrArg _ (Nat.mod_eq_of_lt hn)) bs

theorem orFail_eq_ok_iff {α : Type} {read : Bytes → Read α} {write : α → Bytes}
    (hwrite : ∀ v rest, read (write v ++ rest) = ⟨v, none, rest⟩)
    (hcases : ∀ bs, (read bs).orFail = .error .unexpectedEOF ∨
      (bs = [] ∧ (read bs).orFail = .error .eof) ∨
      ∃ v rest, bs = write v ++ rest ∧ (read bs).orFail = .ok (v, rest))
    {bs rest : Bytes} {v : α} :
    (read bs).orFail = .ok (v, rest) ↔ bs = write v ++ rest := by
  constructor
  · intro h
    rcases hcases bs with h' | ⟨-, h'⟩ | ⟨v', rest', hbs, h'⟩
    · rw [h'] at h
      cases h
    · rw [h'] at h
      cases h
    · rw [h'] at h
      cases h
      exact hbs
  · rintro rfl
    rw [hwrite, Read.orFail_mk]

theorem readUint8_eq_ok_iff {bs rest : Bytes} {v : UInt8} :
    (readUint8 bs).orFail = .ok (v, rest) ↔ bs = writeUint8 v ++ rest :=
  orFail_eq_ok_iff readUint8_write readUint8_cases

theorem readUint16_eq_ok_iff {bs rest : Bytes} {v : UInt16} :
    (readUint16 bs).orFail = .ok (v, rest) ↔ bs = writeUint16 v ++ rest :=
  orFail_eq_ok_iff readUint16_write readUint16_cases

theorem readUint32_eq_ok_iff {bs rest : Bytes} {v : UInt32} :
    (readUint32 bs).orFail = .ok (v, rest) ↔ bs = writeUint32 v ++ rest :=
  orFail_eq_ok_iff readUint32_write readUint32_cases

theorem readFull_eq_ok_iff {n : ℕ} {bs rest v : Bytes} :
    (readFull n bs).orFail = .ok (v, rest) ↔ v.length = n ∧ bs = v ++ rest := by
  constructor
  · intro h
    have hn := readFull_err_none (congrArg Read.err (Read.orFail_eq_ok.mp h))
    rw [readFull_of_le hn] at h
    cases h
    exact ⟨length_take_of_le hn, (take_append_drop n bs).symm⟩
  · rintro ⟨rfl, rfl⟩
    rw [readFull_append, Read.orFail_mk]

/-! ## Tables -/

/-- A table without its last bytes, or all of it, is no table body: its size field is read as the
length of a key, which takes up the rest. -/
theorem readTableBody_cut {body : Bytes} (hlen : body.length < 2 ^ 32) {k : ℕ} (hk : 0 < k)
    (fuel : ℕ) (r : Table) :
    ∃ e, readTableBody fuel ((writeUint32 (UInt32.ofNat body.length) ++ body).take k) r =
      .error e := by
  cases fuel with
  | zero => exact ⟨_, rfl⟩
  | succ fuel =>
    set w := writeUint32 (UInt32.ofNat body.length) with hw
    have hwlen : w.length = 4 := length_beBytes 4 _
    have hne : ((w ++ body).take k).isEmpty = false := by
      rw [← Bool.not_eq_true, List.isEmpty_iff, ← List.length_eq_zero_iff, List.length_take,
        length_append]
      omega
    unfold readTableBody
    rw [hne]
    simp only [Bool.false_eq_true, if_false]
    by_cases hshort : k < 4
    · -- not even the size is there
      have hfew : ((w ++ body).take k).length < 4 := by rw [length_take]; omega
      obtain ⟨e, he⟩ := readFull_err_of_lt hfew
      have hkey : (readString ((w ++ body).take k)).err = some e := by
        unfold readString readUint32 Read.map
        dsimp only
        rw [he]
      rw [hkey]
      exact ⟨_, rfl⟩
    · have hcut : (w ++ body).take k = w ++ body.take (k - 4) := by
        rw [take_append, take_of_length_le (by omega), hwlen]
      have hkey : readString ((w ++ body).take k) = readFull body.length (body.take (k - 4)) := by
        rw [hcut]
        unfold readString
        rw [hw, readUint32_write]
        dsimp only
        rw [UInt32.toNat_ofNat_of_lt' hlen]
      rw [hkey]
      cases herr : (readFull body.length (body.take (k - 4))).err with
      | some e => exact ⟨_, rfl⟩
      | none =>
        -- the key takes the whole body, and there is no byte left for the type of a value
        have hrest : (readFull body.length (body.take (k - 4))).rest = [] := by
          rw [rest_readFull]
          exact drop_eq_nil_of_le (length_take_le' _ _)
        rw [hrest]
        exact ⟨_, rfl⟩

theorem readTable_cut {body : Bytes} (hlen : body.length < 2 ^ 32) {a b c d : UInt8}
    (h : UInt32.ofNat (ofBe [a, b, c, d]) ≠ 0) :
    (readTable (a :: b :: c :: d :: (writeUint32 (UInt32.ofNat body.length) ++ body))).err ≠
      none := by
  unfold readTable readTableWith
  rw [readUint32_cons]
  dsimp only
  rw [if_neg h]
  set size := UInt32.ofNat (ofBe [a, b, c, d]) with hsize
  set t := writeUint32 (UInt32.ofNat body.length) ++ body with ht
  cases herr : (readFull size.toNat t).err with
  | some e => exact nofun
  | none =>
    have hpos : 0 < size.toNat := by
      rw [Nat.pos_iff_ne_zero]
      intro h0
      exact h (UInt32.toNat_inj.mp h0)
    have hval : (readFull size.toNat t).val = t.take size.toNat := by
      rw [readFull_of_le (readFull_err_none herr)]
    dsimp only
    rw [hval]
    obtain ⟨e, he⟩ := readTableBody_cut hlen hpos ((t.take size.toNat).length + 1) []
    rw [he]
    exact nofun

/-! ## Fuel -/

section Fuel

variable {body body' : Bytes → Except ReadError Table} {bs : Bytes}

theorem length_rest_readFull (n : ℕ) (bs : Bytes) :
    (readFull n bs).rest.length ≤ bs.length := by
  rw [rest_readFull, length_drop]
  omega

theorem length_rest_readString (bs : Bytes) : (readString bs).rest.length ≤ bs.length := by
  unfold readString
  dsimp only
  split
  · exact length_rest_readFull 4 bs
  · exact (length_rest_readFull _ _).trans (length_rest_readFull 4 bs)

theorem length_rest_readString_lt (h : (readString bs).err = none) :
    (readString bs).rest.length < bs.length := by
  unfold readString readUint32 Read.map at h ⊢
  dsimp only at h ⊢
  cases h4 : (readFull 4 bs).err with
  | some e => rw [h4] at h; cases h
  | none =>
    have hle := readFull_err_none h4
    dsimp only
    rw [rest_readFull, rest_readFull, length_drop, length_drop]
    omega

theorem length_rest_readTableWith (bs : Bytes) :
    (readTableWith body bs).rest.length ≤ bs.length := by
  have hsize : (readUint32 bs).rest.length ≤ bs.length := length_rest_readFull 4 bs
  have hdata := (length_rest_readFull (readUint32 bs).val.toNat (readUint32 bs).rest).trans hsize
  unfold readTableWith
  dsimp only
  split
  · exact hsize
  · split
    · exact hsize
    · split
      · exact hdata
      · split <;> exact hdata

theorem length_rest_readTableValueWith (bs : Bytes) :
    (readTableValueWith body bs).rest.length ≤ bs.length := by
  have htyp : (readUint8 bs).rest.length ≤ bs.length := length_rest_readFull 1 bs
  unfold readTableValueWith
  dsimp only
  split
  · exact htyp
  · split
    case h_12 | h_13 => exact (length_rest_readString _).trans htyp
    case h_15 => exact (length_rest_readTableWith _).trans htyp
    case h_16 => exact htyp
    all_goals exact (length_rest_readFull _ _).trans htyp

/-- The parser of nested tables is used on fewer bytes only. -/
theorem readTableWith_congr (h : ∀ d, d.length ≤ bs.length → body d = body' d) :
    readTableWith body bs = readTableWith body' bs := by
  unfold readTableWith
  dsimp only
  split
  · rfl
  · split
    · rfl
    · cases herr : (readFull (readUint32 bs).val.toNat (readUint32 bs).rest).err with
      | some e => rfl
      | none =>
        rw [readFull_of_le (readFull_err_none herr)]
        dsimp only
        rw [h]
        exact (length_take_le' _ _).trans (length_rest_readFull 4 bs)

theorem readTableValueWith_congr (h : ∀ d, d.length ≤ bs.length → body d = body' d) :
    readTableValueWith body bs = readTableValueWith body' bs := by
  have htyp : (readUint8 bs).rest.length ≤ bs.length := length_rest_readFull 1 bs
  have htable : readTableWith body (readUint8 bs).rest = readTableWith body' (readUint8 bs).rest :=
    readTableWith_congr fun d hd => h d (hd.trans htyp)
  unfold readTableValueWith
  dsimp only
  rw [htable]

/-- More fuel than bytes is enough: more changes nothing. -/
theorem readTableBody_fuel {fuel fuel' : ℕ} {data : Bytes} (h : data.length < fuel)
    (h' : data.length < fuel') (r : Table) :
    readTableBody fuel data r = readTableBody fuel' data r := by
  induction fuel generalizing fuel' data r with
  | zero => omega
  | succ fuel ih =>
    cases fuel' with
    | zero => omega
    | succ fuel' =>
      unfold readTableBody
      split
      · rfl
      · dsimp only
        cases hkey : (readString data).err with
        | some e => rfl
        | none =>
          have hlt := length_rest_readString_lt hkey
          have hval : readTableValueWith (fun d => readTableBody fuel d []) (readString data).rest =
              readTableValueWith (fun d => readTableBody fuel' d []) (readString data).rest :=
            readTableValueWith_congr fun d hd => ih (by omega) (by omega) []
          have hrest : (readTableValueWith (fun d => readTableBody fuel' d [])
              (readString data).rest).rest.length ≤ (readString data).rest.length :=
            length_rest_readTableValueWith _
          dsimp only
          rw [hval]
          split
          · rfl
          · exact ih (by omega) (by omega) _

end Fuel

end Gomq.Wire
