import Gomq.Lib.Bytes

/-!
# Ranges over strings

A range over a string visits its characters, each with the index of its first byte; a byte that does
not begin a character is visited alone, as the replacement character. A range over the bytes visits
every byte. Both visit the same zeros: a zero byte is a character of its own, and no byte inside a
longer character is zero (`zeros_rangeRunes`).
-/

namespace Gomq

def runeError : ℕ := 0xFFFD

def IsTail (b : UInt8) : Prop := 0x80 ≤ b ∧ b ≤ 0xBF

instance (b : UInt8) : Decidable (IsTail b) := inferInstanceAs (Decidable (_ ∧ _))

def tailBits (b : UInt8) : ℕ := b.toNat % 64

/-- The character at the front of `b :: bs` and the number of its bytes. An encoding that is cut
off, longer than it need be, or that of a surrogate or of too large a number is none. -/
def decodeRune (b : UInt8) (bs : Bytes) : ℕ × ℕ :=
  if b < 0x80 then (b.toNat, 1)
  else if b < 0xC0 then (runeError, 1)
  else if b < 0xE0 then
    match bs with
    | b₁ :: _ =>
      let r := b.toNat % 32 * 64 + tailBits b₁
      if IsTail b₁ ∧ 0x7F < r then (r, 2) else (runeError, 1)
    | _ => (runeError, 1)
  else if b < 0xF0 then
    match bs with
    | b₁ :: b₂ :: _ =>
      let r := (b.toNat % 16 * 64 + tailBits b₁) * 64 + tailBits b₂
      if (IsTail b₁ ∧ IsTail b₂) ∧ 0x7FF < r ∧ ¬ (0xD800 ≤ r ∧ r ≤ 0xDFFF) then (r, 3)
      else (runeError, 1)
    | _ => (runeError, 1)
  else if b < 0xF8 then
    match bs with
    | b₁ :: b₂ :: b₃ :: _ =>
      let r := ((b.toNat % 8 * 64 + tailBits b₁) * 64 + tailBits b₂) * 64 + tailBits b₃
      if (IsTail b₁ ∧ IsTail b₂ ∧ IsTail b₃) ∧ 0xFFFF < r ∧ r ≤ 0x10FFFF then (r, 4)
      else (runeError, 1)
    | _ => (runeError, 1)
  else (runeError, 1)

/-- The visits of a range over a string, from index `i` on; the first `skip` bytes belong to the
character that was visited last. -/
def rangeFrom : ℕ → ℕ → Bytes → List (ℕ × ℕ)
  | _, _, [] => []
  | skip + 1, i, _ :: bs => rangeFrom skip (i + 1) bs
  | 0, i, b :: bs =>
    (i, (decodeRune b bs).1) :: rangeFrom ((decodeRune b bs).2 - 1) (i + 1) bs

/-- `for i, c := range s`, for a string. -/
def rangeRunes (s : GoString) : List (ℕ × ℕ) := rangeFrom 0 0 s

/-- The visits of a range over bytes, from index `i` on. -/
def rangeBytesFrom : ℕ → Bytes → List (ℕ × ℕ)
  | _, [] => []
  | i, b :: bs => (i, b.toNat) :: rangeBytesFrom (i + 1) bs

/-- `for i, c := range b`, for a byte slice. -/
def rangeBytes (b : Bytes) : List (ℕ × ℕ) := rangeBytesFrom 0 b

/-! ## Zeros -/

/-- One step of a range: the visit is one of a zero exactly if the byte is, and the bytes that are
passed over are not. -/
def Steps (b : UInt8) (bs : Bytes) (out : ℕ × ℕ) : Prop :=
  (out.1 = 0 ↔ b = 0) ∧ ∃ skipped rest, bs = skipped ++ rest ∧ out.2 = skipped.length + 1 ∧
    ∀ c ∈ skipped, c ≠ 0

theorem IsTail.ne_zero {b : UInt8} (h : IsTail b) : b ≠ 0 := by
  rintro rfl
  exact absurd h.1 (by decide)

theorem steps_one {b : UInt8} {bs : Bytes} (h : 0x80 ≤ b) : Steps b bs (runeError, 1) := by
  refine ⟨iff_of_false (by decide) ?_, [], bs, rfl, rfl, nofun⟩
  rintro rfl
  exact absurd h (by decide)

theorem steps_long {b : UInt8} {tail rest : Bytes} {r : ℕ} (h : 0x80 ≤ b) (hr : 0 < r)
    (htail : ∀ c ∈ tail, IsTail c) : Steps b (tail ++ rest) (r, tail.length + 1) := by
  refine ⟨iff_of_false hr.ne' ?_, tail, rest, rfl, rfl, fun c hc => (htail c hc).ne_zero⟩
  rintro rfl
  exact absurd h (by decide)

theorem steps_decodeRune (b : UInt8) (bs : Bytes) : Steps b bs (decodeRune b bs) := by
  unfold decodeRune
  by_cases hb : b < 0x80
  · rw [if_pos hb]
    refine ⟨?_, [], bs, rfl, rfl, nofun⟩
    exact ⟨fun h => UInt8.toNat_inj.mp h, fun h => by rw [h]; rfl⟩
  · have hb' : 0x80 ≤ b := UInt8.not_lt.mp hb
    rw [if_neg hb]
    split
    · exact steps_one hb'
    · split
      · -- two bytes
        rcases bs with _ | ⟨b₁, bs⟩
        · exact steps_one hb'
        · dsimp only
          split
          · next h => exact @steps_long b [b₁] bs _ hb' (by omega) (by simpa using h.1)
          · exact steps_one hb'
      · split
        · -- three bytes
          rcases bs with _ | ⟨b₁, _ | ⟨b₂, bs⟩⟩
          · exact steps_one hb'
          · exact steps_one hb'
          · dsimp only
            split
            · next h => exact @steps_long b [b₁, b₂] bs _ hb' (by omega) (by simpa using h.1)
            · exact steps_one hb'
        · split
          · -- four bytes
            rcases bs with _ | ⟨b₁, _ | ⟨b₂, _ | ⟨b₃, bs⟩⟩⟩
            · exact steps_one hb'
            · exact steps_one hb'
            · exact steps_one hb'
            · dsimp only
              split
              · next h => exact @steps_long b [b₁, b₂, b₃] bs _ hb' (by omega) (by simpa using h.1)
              · exact steps_one hb'
          · exact steps_one hb'

/-- The lead byte of a two-byte character before a zero is visited alone. -/
example : rangeRunes [0xC3, 0, 0x41] = [(0, runeError), (1, 0), (2, 0x41)] := by decide

theorem rangeFrom_append (skipped rest : Bytes) (i : ℕ) :
    rangeFrom skipped.length i (skipped ++ rest) = rangeFrom 0 (i + skipped.length) rest := by
  induction skipped generalizing i with
  | nil => rfl
  | cons c skipped ih =>
    rw [List.length_cons, List.cons_append, rangeFrom, ih, Nat.add_assoc, Nat.add_comm 1]

def zeros (visits : List (ℕ × ℕ)) : List (ℕ × ℕ) := visits.filter fun v => v.2 = 0

theorem zeros_rangeBytesFrom_append {skipped : Bytes} (h : ∀ c ∈ skipped, c ≠ 0) (rest : Bytes)
    (i : ℕ) :
    zeros (rangeBytesFrom i (skipped ++ rest)) =
      zeros (rangeBytesFrom (i + skipped.length) rest) := by
  induction skipped generalizing i with
  | nil => rfl
  | cons c skipped ih =>
    obtain ⟨hc, hrest⟩ := List.forall_mem_cons.mp h
    have hne : c.toNat ≠ 0 := fun h0 => hc (UInt8.toNat_inj.mp h0)
    rw [List.cons_append, rangeBytesFrom, zeros, List.filter_cons_of_neg (by simpa using hne),
      ← zeros, ih hrest, List.length_cons, Nat.add_assoc, Nat.add_comm 1]

theorem zeros_rangeFrom (i : ℕ) (bs : Bytes) :
    zeros (rangeFrom 0 i bs) = zeros (rangeBytesFrom i bs) := by
  -- the induction is on the length, since a step may pass over several bytes
  induction hn : bs.length using Nat.strong_induction_on generalizing i bs with
  | _ n ih =>
    cases bs with
    | nil => rfl
    | cons b bs =>
      obtain ⟨hzero, skipped, rest, hbs, hwidth, hskipped⟩ := steps_decodeRune b bs
      have hlen : rest.length < n := by
        rw [← hn, hbs, List.length_cons, List.length_append]
        omega
      have hrest : zeros (rangeFrom ((decodeRune b bs).2 - 1) (i + 1) bs) =
          zeros (rangeBytesFrom (i + 1) bs) := by
        rw [hwidth, Nat.add_sub_cancel]
        conv_lhs => rw [hbs]
        conv_rhs => rw [hbs]
        rw [rangeFrom_append, zeros_rangeBytesFrom_append hskipped]
        exact ih rest.length hlen _ rest rfl
      have hhead : ((decodeRune b bs).1 = 0) = (b.toNat = 0) := by
        rw [hzero, ← UInt8.toNat_inj]
        rfl
      unfold zeros at hrest ⊢
      rw [rangeFrom, rangeBytesFrom, List.filter_cons, List.filter_cons, hrest]
      by_cases hb : b.toNat = 0
      · have h0 : (decodeRune b bs).1 = 0 := hhead ▸ hb
        rw [h0, hb]
      · have h0 : (decodeRune b bs).1 ≠ 0 := fun h => hb (hhead ▸ h)
        rw [if_neg (by simpa using h0), if_neg (by simpa using hb)]

theorem zeros_rangeRunes (s : GoString) : zeros (rangeRunes s) = zeros (rangeBytes s) :=
  zeros_rangeFrom 0 s

end Gomq
