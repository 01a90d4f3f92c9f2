import Gomq.Store.PageFile

/-!
# Page files that are cut

A record is six fields. `Load` takes an end of file between two fields of a record for the end of
the file, drops the fields it has read, and removes the file. So it returns without an error for
contents that are complete records and, possibly, the first fields of another one
(`load_detects_iff`); it notices a cut only inside a field.
-/

namespace Gomq.Store

open Wire Broker List

/-! ## Records -/

structure Record where
  payload : Bytes
  props : Bytes
  deliveryTag : UInt64
  enqueuedAtNS : UInt64
  payload_lt : payload.length < 2 ^ 32
  props_lt : props.length < 2 ^ 32

namespace Record

def fields (r : Record) : List Bytes :=
  [writeUint32 (UInt32.ofNat r.payload.length), r.payload,
    writeUint32 (UInt32.ofNat r.props.length), r.props,
    writeUint64 r.deliveryTag, writeUint64 r.enqueuedAtNS]

def bytes (r : Record) : Bytes := r.fields.flatten

def message (r : Record) : Message :=
  { payload := r.payload
    properties := { contentType := r.props }
    deliveryTag := r.deliveryTag
    enqueuedAt := unixTime r.enqueuedAtNS.toInt64 }

end Record

def Cut (bs : Bytes) : Prop :=
  ∃ (r : Record) (k : ℕ), 0 < k ∧ k < 6 ∧ bs = (r.fields.take k).flatten

def Complete (content : Bytes) : Prop := ∃ rs : List Record, content = rs.flatMap Record.bytes

def CutShort (content : Bytes) : Prop :=
  ∃ (rs : List Record) (tail : Bytes), content = rs.flatMap Record.bytes ++ tail ∧ Cut tail

/-! ## One record -/

theorem readMessage_bytes (r : Record) (rest : Bytes) :
    readMessage (r.bytes ++ rest) = .ok (r.message, rest) := by
  have hpayload : (UInt32.ofNat r.payload.length).toNat = r.payload.length :=
    UInt32.toNat_ofNat_of_lt r.payload_lt
  have hprops : (UInt32.ofNat r.props.length).toNat = r.props.length :=
    UInt32.toNat_ofNat_of_lt r.props_lt
  unfold readMessage Record.bytes Record.fields
  simp only [flatten_cons, flatten_nil, append_assoc, readUint32_write,
    readUint64_write, readFull_append, Read.orFail_mk, hpayload, hprops, bind, Except.bind, pure,
    Except.pure]
  rfl

theorem Cut.of_fields (r : Record) {k : ℕ} {bs : Bytes} (h : bs = (r.fields.take k).flatten)
    (hpos : 0 < k) (hlt : k < 6) : Cut bs := ⟨r, k, hpos, hlt, h⟩

theorem ofNat_length {n : UInt32} {bs : Bytes} (h : bs.length = n.toNat) :
    UInt32.ofNat bs.length = n := by
  rw [h, UInt32.ofNat_toNat]

theorem length_lt {n : UInt32} {bs : Bytes} (h : bs.length = n.toNat) : bs.length < 2 ^ 32 := by
  rw [h]
  exact n.toNat_lt

theorem readMessage_cases (bs : Bytes) :
    readMessage bs = .error .unexpectedEOF ∨
      ((bs = [] ∨ Cut bs) ∧ readMessage bs = .error .eof) ∨
      ∃ (r : Record) (rest : Bytes), bs = r.bytes ++ rest := by
  -- one field after the other; an end of file before a field leaves the fields before it
  rcases readUint32_cases bs with h₁ | ⟨rfl, -⟩ | ⟨n, bs₁, rfl, h₁⟩
  · exact .inl (by simp only [readMessage, h₁, bind, Except.bind])
  · exact .inr (.inl ⟨.inl rfl, rfl⟩)
  rcases readFull_cases n.toNat bs₁ with h₂ | ⟨-, rfl, h₂⟩ | ⟨payload, bs₂, hn, rfl, h₂⟩
  · exact .inl (by simp only [readMessage, h₁, h₂, bind, Except.bind])
  · have hzeros : (List.replicate n.toNat (0 : UInt8)).length = n.toNat := length_replicate
    have hcut : Cut (writeUint32 n ++ []) :=
      .of_fields ⟨_, [], 0, 0, length_lt hzeros, by decide⟩ (k := 1)
        (by simp [Record.fields]) (by decide) (by decide)
    exact .inr (.inl ⟨.inr hcut, by simp only [readMessage, h₁, h₂, bind, Except.bind]⟩)
  rcases readUint32_cases bs₂ with h₃ | ⟨rfl, h₃⟩ | ⟨m, bs₃, rfl, h₃⟩
  · exact .inl (by simp only [readMessage, h₁, h₂, h₃, bind, Except.bind])
  · have hcut : Cut (writeUint32 n ++ (payload ++ [])) :=
      .of_fields ⟨payload, [], 0, 0, length_lt hn, by decide⟩ (k := 2)
        (by simp [Record.fields, ofNat_length hn]) (by decide) (by decide)
    exact .inr (.inl ⟨.inr hcut, by simp only [readMessage, h₁, h₂, h₃, bind, Except.bind]⟩)
  rcases readFull_cases m.toNat bs₃ with h₄ | ⟨-, rfl, h₄⟩ | ⟨props, bs₄, hm, rfl, h₄⟩
  · exact .inl (by simp only [readMessage, h₁, h₂, h₃, h₄, bind, Except.bind])
  · have hzeros : (List.replicate m.toNat (0 : UInt8)).length = m.toNat := length_replicate
    have hcut : Cut (writeUint32 n ++ (payload ++ (writeUint32 m ++ []))) :=
      .of_fields ⟨payload, _, 0, 0, length_lt hn, length_lt hzeros⟩ (k := 3)
        (by simp [Record.fields, ofNat_length hn]) (by decide) (by decide)
    exact .inr (.inl ⟨.inr hcut, by simp only [readMessage, h₁, h₂, h₃, h₄, bind, Except.bind]⟩)
  rcases readUint64_cases bs₄ with h₅ | ⟨rfl, h₅⟩ | ⟨tag, bs₅, rfl, h₅⟩
  · exact .inl (by simp only [readMessage, h₁, h₂, h₃, h₄, h₅, bind, Except.bind])
  · have hcut : Cut (writeUint32 n ++ (payload ++ (writeUint32 m ++ (props ++ [])))) :=
      .of_fields ⟨payload, props, 0, 0, length_lt hn, length_lt hm⟩ (k := 4)
        (by simp [Record.fields, ofNat_length hn, ofNat_length hm]) (by decide) (by decide)
    exact .inr (.inl ⟨.inr hcut,
      by simp only [readMessage, h₁, h₂, h₃, h₄, h₅, bind, Except.bind]⟩)
  rcases readUint64_cases bs₅ with h₆ | ⟨rfl, h₆⟩ | ⟨ns, rest, rfl, -⟩
  · exact .inl (by simp only [readMessage, h₁, h₂, h₃, h₄, h₅, h₆, bind, Except.bind])
  · have hcut : Cut (writeUint32 n ++ (payload ++ (writeUint32 m ++
        (props ++ (writeUint64 tag ++ []))))) :=
      .of_fields ⟨payload, props, tag, 0, length_lt hn, length_lt hm⟩ (k := 5)
        (by simp [Record.fields, ofNat_length hn, ofNat_length hm]) (by decide) (by decide)
    exact .inr (.inl ⟨.inr hcut,
      by simp only [readMessage, h₁, h₂, h₃, h₄, h₅, h₆, bind, Except.bind]⟩)
  · refine .inr (.inr ⟨⟨payload, props, tag, ns, length_lt hn, length_lt hm⟩, rest, ?_⟩)
    simp [Record.bytes, Record.fields, ofNat_length hn, ofNat_length hm]

theorem readFull_nil (n : ℕ) :
    (readFull n []).orFail = if n = 0 then .ok ([], []) else .error .eof := by
  cases n <;> rfl

/-- Between two fields the file ends without an error. -/
theorem readMessage_cut {bs : Bytes} (h : Cut bs) : readMessage bs = .error .eof := by
  obtain ⟨r, k, hpos, hlt, rfl⟩ := h
  have hpayload : (UInt32.ofNat r.payload.length).toNat = r.payload.length :=
    UInt32.toNat_ofNat_of_lt r.payload_lt
  have hprops : (UInt32.ofNat r.props.length).toNat = r.props.length :=
    UInt32.toNat_ofNat_of_lt r.props_lt
  have h32 : (readUint32 []).orFail = .error .eof := rfl
  have h64 : (readUint64 []).orFail = .error .eof := rfl
  have hk : k = 1 ∨ k = 2 ∨ k = 3 ∨ k = 4 ∨ k = 5 := by omega
  unfold readMessage Record.fields
  rcases hk with rfl | rfl | rfl | rfl | rfl <;>
    simp only [take_succ_cons, take_zero, flatten_cons, flatten_nil,
      readUint32_write, readUint64_write, readFull_append, Read.orFail_mk, hpayload, hprops,
      readFull_nil, h32, h64, bind, Except.bind]
  · split_ifs <;> rfl
  · split_ifs <;> rfl

theorem readMessage_eof_iff (bs : Bytes) : readMessage bs = .error .eof ↔ bs = [] ∨ Cut bs := by
  constructor
  · intro h
    rcases readMessage_cases bs with h' | ⟨hbs, -⟩ | ⟨r, rest, rfl⟩
    · rw [h'] at h
      cases h
    · exact hbs
    · rw [readMessage_bytes] at h
      cases h
  · rintro (rfl | h)
    · rfl
    · exact readMessage_cut h

theorem Record.bytes_ne_nil (r : Record) : r.bytes ≠ [] := by
  intro h
  have := congrArg List.length h
  simp [Record.bytes, Record.fields, writeUint32, writeUint64] at this

/-! ## The records of a file -/

def unread : ℕ → Bytes → Bytes
  | 0, bs => bs
  | n + 1, bs =>
    match readMessage bs with
    | .error _ => bs
    | .ok (_, rest) => unread n rest

theorem unread_of_error {bs : Bytes} {e : ReadError} (h : readMessage bs = .error e) (n : ℕ) :
    unread n bs = bs := by
  cases n with
  | zero => rfl
  | succ n => simp only [unread, h]

theorem unread_records {tail : Bytes} {e : ReadError} (h : readMessage tail = .error e)
    (rs : List Record) {n : ℕ} (hn : rs.length ≤ n) :
    unread n (rs.flatMap Record.bytes ++ tail) = tail := by
  induction rs generalizing n with
  | nil => exact unread_of_error h n
  | cons r rs ih =>
    obtain ⟨n, rfl⟩ : ∃ k, n = k + 1 := ⟨n - 1, by rw [length_cons] at hn; omega⟩
    rw [flatMap_cons, append_assoc]
    simp only [unread, readMessage_bytes]
    exact ih (Nat.le_of_succ_le_succ hn)

theorem readMessages_cases (n : ℕ) (content : Bytes) (hn : content.length < n) :
    ∃ (rs : List Record) (e : ReadError),
      content = rs.flatMap Record.bytes ++ unread n content ∧
      readMessage (unread n content) = .error e ∧
      readMessages n content = if e = .eof then .ok (rs.map Record.message) else .error e := by
  induction n generalizing content with
  | zero => exact absurd hn (Nat.not_lt_zero _)
  | succ n ih =>
    have hstop : ∀ e, readMessage content = .error e →
        readMessages (n + 1) content = if e = .eof then .ok [] else .error e := by
      intro e he
      unfold readMessages
      rw [he]
      cases e <;> simp
    rcases readMessage_cases content with h | ⟨-, h⟩ | ⟨r, rest, rfl⟩
    · exact ⟨[], _, by rw [unread_of_error h]; rfl, by rw [unread_of_error h]; exact h, hstop _ h⟩
    · exact ⟨[], _, by rw [unread_of_error h]; rfl, by rw [unread_of_error h]; exact h, hstop _ h⟩
    · have hlen := length_pos_of_ne_nil r.bytes_ne_nil
      rw [length_append] at hn
      obtain ⟨rs, e, hrest, hunread, hread⟩ := ih rest (by omega)
      simp only [unread, readMessages, readMessage_bytes]
      refine ⟨r :: rs, e, ?_, hunread, ?_⟩
      · rw [flatMap_cons, append_assoc, ← hrest]
      · rw [hread]
        split <;> rfl

def rest (content : Bytes) : Bytes := unread (content.length + 1) content

theorem length_le_bytes (rs : List Record) : rs.length ≤ (rs.flatMap Record.bytes).length := by
  induction rs with
  | nil => exact Nat.le_refl 0
  | cons r rs ih =>
    have hr := length_pos_of_ne_nil r.bytes_ne_nil
    rw [flatMap_cons, length_append, length_cons]
    omega

theorem rest_records {tail : Bytes} {e : ReadError} (h : readMessage tail = .error e)
    (rs : List Record) : rest (rs.flatMap Record.bytes ++ tail) = tail := by
  have hlen := length_le_bytes rs
  exact unread_records h rs (by rw [length_append]; omega)

theorem complete_iff (content : Bytes) : Complete content ↔ rest content = [] := by
  constructor
  · rintro ⟨rs, rfl⟩
    have hnil : readMessage [] = .error .eof := rfl
    have hrest := rest_records hnil rs
    rwa [append_nil] at hrest
  · intro h
    obtain ⟨rs, -, hcontent, -⟩ := readMessages_cases _ content (Nat.lt_succ_self _)
    rw [← rest, h, append_nil] at hcontent
    exact ⟨rs, hcontent⟩

theorem cutShort_iff (content : Bytes) : CutShort content ↔ Cut (rest content) := by
  constructor
  · rintro ⟨rs, tail, rfl, hcut⟩
    rwa [rest_records (readMessage_cut hcut) rs]
  · intro h
    obtain ⟨rs, -, hcontent, -⟩ := readMessages_cases _ content (Nat.lt_succ_self _)
    exact ⟨rs, rest content, hcontent, h⟩

theorem not_cut_nil : ¬ Cut [] := by
  rintro ⟨r, k, hpos, -, h⟩
  obtain ⟨k, rfl⟩ : ∃ j, k = j + 1 := ⟨k - 1, by omega⟩
  have hlen := congrArg List.length h
  simp only [Record.fields, take_succ_cons, flatten_cons, length_append,
    writeUint32, length_beBytes, length_nil] at hlen
  omega

theorem readPage_ok_iff (content : Bytes) :
    (∃ msgs, readPage content = .ok msgs) ↔ Complete content ∨ CutShort content := by
  rw [complete_iff, cutShort_iff, ← readMessage_eof_iff]
  obtain ⟨rs, e, -, hrest, hread⟩ := readMessages_cases _ content (Nat.lt_succ_self _)
  rw [readPage, hread, rest, hrest]
  by_cases he : e = .eof
  · simp [he]
  · simp [he]

/-! ## Loading -/

/-- `Load` of a file with this content returns without an error and removes the file if the content
is complete records; otherwise it returns an error and keeps the file. -/
def Detects (disk : Disk) (path : PagePath) (content : Bytes) : Prop :=
  ((∃ msgs, load none path (disk.set path content) = (.ok msgs, (disk.set path content).del path)) ↔
      Complete content) ∧
    (¬ Complete content → ∃ e, load none path (disk.set path content) =
      (.error e, disk.set path content))

/-- For every content of the file: a cut is noticed exactly if it is not one between two fields of a
record. -/
theorem load_detects_iff (disk : Disk) (path : PagePath) (content : Bytes) :
    Detects disk path content ↔ ¬ CutShort content := by
  have hok := readPage_ok_iff content
  have hexcl : Complete content → ¬ CutShort content := by
    rw [complete_iff, cutShort_iff]
    intro hnil
    rw [hnil]
    exact not_cut_nil
  unfold Detects load
  simp only [GoMap.get_set_self, reduceCtorEq, if_false]
  cases hread : readPage content with
  | error e =>
    rw [hread] at hok
    have hnot : ¬ (Complete content ∨ CutShort content) := fun h => by
      obtain ⟨msgs, hmsgs⟩ := hok.mpr h
      cases hmsgs
    obtain ⟨hcomplete, hcut⟩ := not_or.mp hnot
    refine iff_of_true ⟨iff_of_false ?_ hcomplete, fun _ => ⟨_, rfl⟩⟩ hcut
    rintro ⟨msgs, h⟩
    cases h
  | ok msgs =>
    have hor := hok.mp ⟨msgs, hread⟩
    constructor
    · rintro ⟨h, -⟩
      exact hexcl (h.mp ⟨msgs, rfl⟩)
    · intro hcut
      have hcomplete := hor.resolve_right hcut
      exact ⟨iff_of_true ⟨msgs, rfl⟩ hcomplete, fun hnot => absurd hcomplete hnot⟩

/-- The four bytes of a payload length: no message, no error, and the file is gone. -/
theorem load_detects_lengthOnly :
    let disk : Disk := GoMap.set ∅ ⟨[], str "q", 1⟩ [0, 0, 0, 5]
    load none ⟨[], str "q", 1⟩ disk = (.ok [], disk.del ⟨[], str "q", 1⟩) ∧
      ¬ Complete [0, 0, 0, 5] := by
  refine ⟨rfl, ?_⟩
  rw [complete_iff]
  decide

end Gomq.Store
