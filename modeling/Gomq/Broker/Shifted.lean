import Gomq.Broker.Wiring

/-!
# Reads that start at the ids

A payload that is decoded from its first byte on is read four bytes too early. A name of length `n`
is then read as sent only if it repeats the bytes `0, 0, 0, n` (`shortString_early`), a delivery tag
only if it repeats the ids (`tag_of_shifted`), and a table behind a wrong size not at all
(`table_cut`).
-/

namespace Gomq.Broker

open Wire Decoder List

/-! ## Reading known bytes -/

theorem skipUint16_cons (a b : UInt8) (bs : Bytes) : skipUint16 (a :: b :: bs) = .ok ((), bs) := rfl

theorem uint8_cons (b : UInt8) (bs : Bytes) : uint8 (b :: bs) = .ok (b, bs) := by
  unfold uint8 Decoder.read
  rw [readUint8_cons]
  rfl

theorem uint8_eq_ok {bs rest : Bytes} {b : UInt8} (h : uint8 bs = .ok (b, rest)) :
    bs = b :: rest := by
  cases bs with
  | nil => cases h
  | cons a bs => rw [uint8_cons] at h; cases h; rfl

theorem shortString_of_le {n : UInt8} {bs : Bytes} (h : n.toNat ≤ bs.length) :
    shortString (n :: bs) = .ok (bs.take n.toNat, bs.drop n.toNat) := by
  unfold shortString Decoder.read
  rw [readShortString_cons, readFull_of_le h]
  rfl

theorem shortString_zero (bs : Bytes) : shortString (0 :: bs) = .ok ([], bs) :=
  shortString_of_le (Nat.zero_le _)

theorem shortString_eq_ok {n : UInt8} {bs v rest : Bytes}
    (h : shortString (n :: bs) = .ok (v, rest)) :
    n.toNat ≤ bs.length ∧ v = bs.take n.toNat ∧ rest = bs.drop n.toNat := by
  by_cases hn : n.toNat ≤ bs.length
  · rw [shortString_of_le hn] at h
    cases h
    exact ⟨hn, rfl, rfl⟩
  · obtain ⟨e, he⟩ := readFull_err_of_lt (Nat.lt_of_not_le hn)
    unfold shortString Decoder.read Read.orFail at h
    rw [readShortString_cons, he] at h
    cases h

theorem table_eq_ok {bs rest : Bytes} {t : Table} (h : table bs = .ok (t, rest)) :
    readTable bs = ⟨t, none, rest⟩ := by
  unfold table Decoder.read at h
  split at h
  · rename_i p hp
    cases h
    exact Read.orFail_eq_ok.mp hp
  · cases h

theorem table_of_read {bs rest : Bytes} {t : Table} (h : readTable bs = ⟨t, none, rest⟩) :
    table bs = .ok (t, rest) := by
  unfold table Decoder.read
  rw [h]
  rfl

/-! ## Names that repeat their own length -/

/-- The first `n` bytes of `0, 0, 0, n, 0, 0, 0, n, …`. -/
def repeating (n : ℕ) : Bytes := (List.range n).map fun i => if i % 4 = 3 then UInt8.ofNat n else 0

@[simp] theorem length_repeating (n : ℕ) : (repeating n).length = n := by simp [repeating]

theorem getElem?_repeating {n i : ℕ} (h : i < n) :
    (repeating n)[i]? = some (if i % 4 = 3 then UInt8.ofNat n else 0) := by
  unfold repeating
  rw [List.getElem?_map, List.getElem?_range h]
  rfl

/-- What is read as the name `k` if the read starts four bytes too early, at three zeros and the
length of the name. -/
abbrev early (k tail : Bytes) : Bytes := 0 :: 0 :: 0 :: UInt8.ofNat k.length :: (k ++ tail)

/-- Byte `i` of what is read is byte `i - 4` of the name. -/
theorem getElem?_early {k tail : Bytes} {i : ℕ} (h : i < k.length) :
    (early k tail)[i + 4]? = k[i]? := List.getElem?_append_left h

theorem eq_repeating {n : ℕ} {k tail : Bytes} (hlen : k.length = n)
    (h : (early k tail).take n = k) : k = repeating n := by
  have hbyte : ∀ i, i < n → k[i]? = (repeating n)[i]? := by
    intro i
    induction i using Nat.strong_induction_on with
    | _ i ih =>
      intro hi
      rw [← h, List.getElem?_take_of_lt hi, getElem?_repeating hi]
      match i with
      | 0 => rfl
      | 1 => rfl
      | 2 => rfl
      | 3 => rw [← hlen]; rfl
      | j + 4 =>
        rw [getElem?_early (by omega), ih j (by omega) (by omega), getElem?_repeating (by omega),
          show (j + 4) % 4 = j % 4 by omega]
  apply ext_getElem?
  intro i
  by_cases hi : i < n
  · exact hbyte i hi
  · rw [List.getElem?_eq_none (by omega), List.getElem?_eq_none (by rw [length_repeating]; omega)]

theorem take_early {n : ℕ} (tail : Bytes) :
    (early (repeating n) tail).take n = repeating n := by
  apply ext_getElem?
  intro i
  by_cases hi : i < n
  · rw [List.getElem?_take_of_lt hi, getElem?_repeating hi]
    match i with
    | 0 => rfl
    | 1 => rfl
    | 2 => rfl
    | 3 => show some (UInt8.ofNat (repeating n).length) = _; rw [length_repeating]; rfl
    | j + 4 =>
      rw [getElem?_early (by rw [length_repeating]; omega), getElem?_repeating (by omega),
        show (j + 4) % 4 = j % 4 by omega]
  · rw [List.getElem?_eq_none (by rw [length_take]; omega),
      List.getElem?_eq_none (by rw [length_repeating]; omega)]

theorem shortString_early {n : UInt8} (hn : 4 ≤ n.toNat) {k tail rest : Bytes} :
    shortString (n :: early k tail) = .ok (k, rest) ↔
      k = repeating n.toNat ∧ rest = (repeating n.toNat).drop (n.toNat - 4) ++ tail := by
  have hdrop : ∀ k : Bytes, k.length = n.toNat →
      (early k tail).drop n.toNat = k.drop (n.toNat - 4) ++ tail := by
    intro k hk
    obtain ⟨j, hj⟩ : ∃ j, n.toNat = j + 4 := ⟨n.toNat - 4, by omega⟩
    rw [hj]
    show (k ++ tail).drop j = _
    rw [drop_append_of_le_length (by omega)]
    rfl
  constructor
  · intro h
    obtain ⟨hle, htake, rfl⟩ := shortString_eq_ok h
    have hlen : k.length = n.toNat := by
      conv_lhs => rw [htake, length_take]
      exact Nat.min_eq_left hle
    have hk := eq_repeating hlen htake.symm
    exact ⟨hk, by rw [hdrop k hlen, ← hk]⟩
  · rintro ⟨rfl, rfl⟩
    have hlen := length_repeating n.toNat
    rw [shortString_of_le, take_early, hdrop _ hlen]
    simp only [length_cons, length_append, hlen]
    omega

theorem shortString_early_next {n : UInt8} (hn : 4 ≤ n.toNat) {k key tail last mid rest : Bytes}
    (hlast : (repeating n.toNat).drop (n.toNat - 4) = 0 :: last)
    (hread : shortString (n :: early k tail) = .ok (k, mid))
    (hkey : shortString mid = .ok (key, rest)) :
    k = repeating n.toNat ∧ key = [] ∧ rest = last ++ tail := by
  obtain ⟨hk, rfl⟩ := (shortString_early hn).mp hread
  rw [hlast] at hkey
  have hzero := hkey.symm.trans (shortString_zero (last ++ tail))
  cases hzero
  exact ⟨hk, rfl, rfl⟩

/-! ## Numbers -/

theorem uint64_shifted (m : UInt8) (tag : UInt64) (tail : Bytes) :
    uint64 (0 :: 60 :: 0 :: m :: (writeUint64 tag ++ tail)) =
      .ok (UInt64.ofNat ((60 * 65536 + m.toNat) * 2 ^ 32 + tag.toNat / 2 ^ 32),
        beBytes 4 tag.toNat ++ tail) := by
  have hlt := tag.toNat_lt
  unfold uint64 Decoder.read writeUint64
  rw [beBytes, beBytes, beBytes, beBytes, cons_append, cons_append, cons_append,
    cons_append, readUint64_cons]
  have hbe : ofBe [0, 60, 0, m, UInt8.ofNat (tag.toNat / 256 ^ 7),
      UInt8.ofNat (tag.toNat / 256 ^ 6), UInt8.ofNat (tag.toNat / 256 ^ 5),
      UInt8.ofNat (tag.toNat / 256 ^ 4)] =
      (60 * 65536 + m.toNat) * 2 ^ 32 + tag.toNat / 2 ^ 32 := by
    have h60 : (60 : UInt8).toNat = 60 := rfl
    simp only [ofBe, foldl_cons, foldl_nil, UInt8.toNat_ofNat', h60, UInt8.toNat_zero]
    norm_num only
    omega
  rw [hbe]
  rfl

/-- The tag that is read is the one sent only if it repeats the ids. -/
theorem tag_of_shifted {m : UInt8} {tag : UInt64}
    (h : UInt64.ofNat ((60 * 65536 + m.toNat) * 2 ^ 32 + tag.toNat / 2 ^ 32) = tag) :
    tag.toNat = (60 * 65536 + m.toNat) * (2 ^ 32 + 1) := by
  have hlt := tag.toNat_lt
  have hm := m.toNat_lt
  have hn := congrArg UInt64.toNat h
  rw [UInt64.toNat_ofNat', Nat.mod_eq_of_lt (by omega)] at hn
  omega

/-- The fifth byte of a tag that repeats the ids is 0. -/
theorem flag_of_shifted {m : UInt8} {tag : UInt64}
    (h : tag.toNat = (60 * 65536 + m.toNat) * (2 ^ 32 + 1)) :
    bit (UInt8.ofNat (tag.toNat / 256 ^ 3)) 0x01 = false := by
  have hm := m.toNat_lt
  have hbyte : UInt8.ofNat (tag.toNat / 256 ^ 3) = 0 := by
    apply UInt8.toNat_inj.mp
    have hdiv : tag.toNat / 256 ^ 3 = 256 * (60 * 65536 + m.toNat) := by omega
    rw [UInt8.toNat_ofNat', hdiv]
    exact Nat.mul_mod_right _ _
  rw [hbyte]
  rfl

/-! ## Tables -/

theorem ofNat_ofBe_ne_zero {a b c d : UInt8} (h : ofBe [a, b, c, d] ≠ 0) :
    UInt32.ofNat (ofBe [a, b, c, d]) ≠ 0 := by
  intro h0
  have hn := congrArg UInt32.toNat h0
  have hlt : ofBe [a, b, c, d] < 2 ^ 32 := (ofBe_lt [a, b, c, d]).trans_eq (by norm_num)
  rw [UInt32.toNat_ofNat', Nat.mod_eq_of_lt hlt] at hn
  exact h hn

theorem writeTable_eq_ok {args : Table} {T : Bytes} (h : writeTable args = .ok T) :
    ∃ body : Bytes, T = writeUint32 (UInt32.ofNat body.length) ++ body := by
  unfold writeTable at h
  split at h
  · exact ⟨_, (Except.ok.inj h).symm⟩
  · cases h

theorem withTable_eq_ok {front A : Bytes} {args : Table}
    (h : Request.withTable front args = .ok A) :
    ∃ T, writeTable args = .ok T ∧ A = front ++ T := by
  unfold Request.withTable at h
  split at h
  · exact ⟨_, by assumption, (Except.ok.inj h).symm⟩
  · cases h

/-- A written table behind four bytes that are not all 0 is not read as a table. -/
theorem table_cut {args t : Table} {front T rest : Bytes} {a b c d : UInt8}
    (hT : writeTable args = .ok T) (hlen : (front ++ T).length < 2 ^ 32)
    (h : ofBe [a, b, c, d] ≠ 0) : table (a :: b :: c :: d :: T) ≠ .ok (t, rest) := by
  obtain ⟨body, rfl⟩ := writeTable_eq_ok hT
  intro hok
  rw [length_append, length_append] at hlen
  exact readTable_cut (by omega) (ofNat_ofBe_ne_zero h)
    (congrArg Read.err (table_eq_ok hok))

theorem table_zero (T : Bytes) : table (0 :: 0 :: 0 :: 0 :: T) = .ok ([], T) := by
  apply table_of_read
  unfold readTable readTableWith
  rw [readUint32_cons]
  rfl

theorem writeUint16_zero : writeUint16 0 = [0, 0] := by decide

end Gomq.Broker
