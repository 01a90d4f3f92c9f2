import Gomq.Broker.EtcdRestart

/-!
# Comparing header values

The kind of the first value decides how `valuesEqual` converts the second, and a conversion that
knows nothing of a kind gives zero. Values of one family (strings, booleans, signed integers,
unsigned integers) are compared as they should be; across families the comparison asks whether the
first value is the integer zero. `valuesEqual_exact` says which pairs come out wrong, and what a
header exchange accepts for it.
-/

namespace Gomq.Wire.Value

/-- The kinds that a comparison treats alike. -/
inductive Family where
  | string
  | bool
  | signed
  | unsigned
  | other
deriving DecidableEq

def family : Value → Family
  | .string _ => .string
  | .bool _ => .bool
  | .int _ | .int8 _ | .int16 _ | .int32 _ | .int64 _ => .signed
  | .uint _ | .uint8 _ | .uint16 _ | .uint32 _ | .uint64 _ => .unsigned
  | _ => .other

def Same (a b : Value) : Prop :=
  (∃ s, a = .string s ∧ b = .string s) ∨ (∃ x, a = .bool x ∧ b = .bool x) ∨
    ∃ n, a.asInteger = some n ∧ b.asInteger = some n

/-- The pairs that are compared wrongly: of two families, with the first value zero and the second
another one, or with one and the same number other than zero. -/
def Misjudged (a b : Value) : Prop :=
  a.family ≠ b.family ∧
    (a.asInteger = some 0 ∧ b.asInteger ≠ some 0 ∨
      ∃ n, n ≠ 0 ∧ a.asInteger = some n ∧ b.asInteger = some n)

end Gomq.Wire.Value

namespace Gomq.Broker

open Wire Wire.Value

/-! ## The conversions -/

section Conversions

variable {a : Value}

theorem asInteger_signed (h : a.family = .signed) : a.asInteger = some (toInt64 a).toInt := by
  cases a with
  | int v => rfl
  | int64 v => rfl
  | int8 v => exact congrArg some (Int8.toInt_toInt64 v).symm
  | int16 v => exact congrArg some (Int16.toInt_toInt64 v).symm
  | int32 v => exact congrArg some (Int32.toInt_toInt64 v).symm
  | _ => cases h

theorem asInteger_unsigned (h : a.family = .unsigned) :
    a.asInteger = some ((toUint64 a).toNat : ℤ) := by
  cases a with
  | uint v => rfl
  | uint64 v => rfl
  | uint8 v => rfl
  | uint16 v => rfl
  | uint32 v => rfl
  | _ => cases h

theorem toInt64_of_ne (h : a.family ≠ .signed) : toInt64 a = 0 := by
  cases a <;> first | rfl | exact absurd rfl h

theorem toUint64_of_ne (h : a.family ≠ .unsigned) : toUint64 a = 0 := by
  cases a <;> first | rfl | exact absurd rfl h

theorem valuesEqual_signed (h : a.family = .signed) (b : Value) :
    valuesEqual a b = (toInt64 a == toInt64 b) := by
  cases a <;> first | rfl | cases h

theorem valuesEqual_unsigned (h : a.family = .unsigned) (b : Value) :
    valuesEqual a b = (toUint64 a == toUint64 b) := by
  cases a <;> first | rfl | cases h

end Conversions

/-! ## One comparison -/

section Compare

variable {a b : Value}

theorem basic_cases (ha : a.basic) :
    (∃ s, a = .string s) ∨ (∃ x, a = .bool x) ∨ a.family = .signed ∨ a.family = .unsigned := by
  cases a <;> simp_all [basic, family, asInteger]

theorem same_comm : Same a b ↔ Same b a := by
  unfold Same
  simp only [and_comm]

theorem same_of_asInteger {n k : ℤ} (ha : a.asInteger = some n) (hb : b.asInteger = some k) :
    Same a b ↔ n = k := by
  constructor
  · rintro (⟨s, rfl, -⟩ | ⟨x, rfl, -⟩ | ⟨i, hai, hbi⟩)
    · cases ha
    · cases ha
    · rw [ha] at hai
      rw [hb] at hbi
      exact Option.some.inj (hai.trans hbi.symm)
  · rintro rfl
    exact .inr (.inr ⟨n, ha, hb⟩)

theorem valuesEqual_of_family_eq (ha : a.basic) (h : a.family = b.family) :
    valuesEqual a b = true ↔ Same a b := by
  rcases basic_cases ha with ⟨s, rfl⟩ | ⟨x, rfl⟩ | hf | hf
  · cases b with
    | string t => simpa [valuesEqual, Same, asInteger] using eq_comm
    | _ => cases h
  · cases b with
    | bool y => simpa [valuesEqual, Same, asInteger] using eq_comm
    | _ => cases h
  · have hb : b.family = .signed := h.symm.trans hf
    rw [valuesEqual_signed hf, beq_iff_eq, ← Int64.toInt_inj]
    exact (same_of_asInteger (asInteger_signed hf) (asInteger_signed hb)).symm
  · have hb : b.family = .unsigned := h.symm.trans hf
    rw [valuesEqual_unsigned hf, beq_iff_eq, ← UInt64.toNat_inj, ← Nat.cast_inj (R := ℤ)]
    exact (same_of_asInteger (asInteger_unsigned hf) (asInteger_unsigned hb)).symm

theorem valuesEqual_of_family_ne (ha : a.basic) (h : a.family ≠ b.family) :
    valuesEqual a b = true ↔ a.asInteger = some 0 := by
  rcases basic_cases ha with ⟨s, rfl⟩ | ⟨x, rfl⟩ | hf | hf
  · cases b with
    | string t => exact absurd rfl h
    | _ => simp [valuesEqual, asInteger]
  · cases b with
    | bool y => exact absurd rfl h
    | _ => simp [valuesEqual, asInteger]
  -- the conversion knows nothing of the second value and makes it zero
  · have hb : b.family ≠ .signed := fun hb => h (hf.trans hb.symm)
    rw [valuesEqual_signed hf, toInt64_of_ne hb, asInteger_signed hf, beq_iff_eq,
      ← Int64.toInt_inj, Option.some_inj, Int64.toInt_zero]
  · have hb : b.family ≠ .unsigned := fun hb => h (hf.trans hb.symm)
    rw [valuesEqual_unsigned hf, toUint64_of_ne hb, asInteger_unsigned hf, beq_iff_eq,
      ← UInt64.toNat_inj, Option.some_inj, UInt64.toNat_zero, Nat.cast_eq_zero]

theorem same_of_family_ne (h : a.family ≠ b.family) :
    Same a b ↔ ∃ n, a.asInteger = some n ∧ b.asInteger = some n := by
  constructor
  · rintro (⟨s, rfl, rfl⟩ | ⟨x, rfl, rfl⟩ | hn)
    · exact absurd rfl h
    · exact absurd rfl h
    · exact hn
  · exact fun hn => .inr (.inr hn)

theorem valuesEqual_iff_same_iff (ha : a.basic) :
    (valuesEqual a b = true ↔ Same a b) ↔ ¬ Misjudged a b := by
  by_cases h : a.family = b.family
  · exact iff_of_true (valuesEqual_of_family_eq ha h) fun hmis => hmis.1 h
  · rw [valuesEqual_of_family_ne ha h, same_of_family_ne h]
    unfold Misjudged
    constructor
    · rintro hiff ⟨-, ⟨hzero, hother⟩ | ⟨n, hn, han, hbn⟩⟩
      · obtain ⟨n, han, hbn⟩ := hiff.mp hzero
        rw [hzero] at han
        cases han
        exact hother hbn
      · have hzero := hiff.mpr ⟨n, han, hbn⟩
        rw [han] at hzero
        exact hn (Option.some.inj hzero)
    · intro hmis
      constructor
      · intro hzero
        by_contra hnot
        exact hmis ⟨h, .inl ⟨hzero, fun hbz => hnot ⟨0, hzero, hbz⟩⟩⟩
      · rintro ⟨n, han, hbn⟩
        by_contra hne
        refine hmis ⟨h, .inr ⟨n, ?_, han, hbn⟩⟩
        rintro rfl
        exact hne han

theorem valuesEqual_comm_iff (ha : a.basic) (hb : b.basic) :
    valuesEqual a b = valuesEqual b a ↔
      (a.family ≠ b.family → (a.asInteger = some 0 ↔ b.asInteger = some 0)) := by
  rw [Bool.eq_iff_iff]
  by_cases h : a.family = b.family
  · rw [valuesEqual_of_family_eq ha h, valuesEqual_of_family_eq hb h.symm]
    exact iff_of_true same_comm fun hne => absurd h hne
  · rw [valuesEqual_of_family_ne ha h, valuesEqual_of_family_ne hb (Ne.symm h)]
    exact ⟨fun hiff _ => hiff, fun hiff => hiff h⟩

end Compare

/-! ## Header tables -/

theorem matchHeaders_all {headers args : Table}
    (hmode : matchMode (args.get (str "x-match")) ≠ str "any")
    (h : matchHeaders headers args = true) {kv : GoString × Value} (hkv : kv ∈ args)
    (hk : kv.1 ≠ str "x-match") :
    ∃ v, headers.get kv.1 = some v ∧ valuesEqual v kv.2 = true := by
  rw [matchHeaders_eq, if_neg hmode] at h
  split at h
  · cases h
  · have hmatch := List.all_eq_true.mp h kv hkv
    rw [beq_false_of_ne hk, Bool.false_or] at hmatch
    unfold headerMatches at hmatch
    cases hget : headers.get kv.1 with
    | none => simp [hget] at hmatch
    | some v => exact ⟨v, rfl, by simpa [hget] using hmatch⟩

/-- Restricted to strings, booleans and integers, a comparison says whether the values are the same
exactly if the pair is not one of `Misjudged`, and it is symmetric exactly if no integer zero meets
a value of another family that is not zero. An exchange that asks for all headers accepts a message
rightly exactly if it has misjudged none of the pairs. -/
theorem valuesEqual_exact (a b : Value) (headers args : Table) :
    (a.basic → b.basic →
      ((valuesEqual a b = true ↔ Same a b) ↔ ¬ Misjudged a b) ∧
      (valuesEqual a b = valuesEqual b a ↔
        (a.family ≠ b.family → (a.asInteger = some 0 ↔ b.asInteger = some 0)))) ∧
    ((∀ kv ∈ headers, kv.2.basic) → (∀ kv ∈ args, kv.2.basic) →
      matchMode (args.get (str "x-match")) ≠ str "any" → matchHeaders headers args = true →
      ((∀ kv ∈ args, kv.1 ≠ str "x-match" → ∃ v, headers.get kv.1 = some v ∧ Same v kv.2) ↔
        ∀ kv ∈ args, kv.1 ≠ str "x-match" →
          ∀ v, headers.get kv.1 = some v → ¬ Misjudged v kv.2)) := by
  refine ⟨fun ha hb => ⟨valuesEqual_iff_same_iff ha, valuesEqual_comm_iff ha hb⟩, ?_⟩
  intro hheaders _ hmode hmatch
  refine forall₃_congr fun kv hkv hk => ?_
  obtain ⟨v, hget, heq⟩ := matchHeaders_all hmode hmatch hkv hk
  have hexact := valuesEqual_iff_same_iff (b := kv.2) (hheaders (kv.1, v) (mem_of_get hget))
  constructor
  · rintro ⟨w, hw, hsame⟩ v' hv'
    obtain rfl : v = w := Option.some.inj (hget.symm.trans hw)
    obtain rfl : v = v' := Option.some.inj (hget.symm.trans hv')
    exact hexact.mp ⟨fun _ => hsame, fun _ => heq⟩
  · intro hmis
    exact ⟨v, hget, (hexact.mpr (hmis v hget)).mp heq⟩

/-- The numbers 5 of two kinds differ, the number 0 equals a text in one order, and so a binding
that asks for the text accepts the number. -/
theorem valuesEqual_wrong :
    (Same (.int 5) (.uint 5) ∧ valuesEqual (.int 5) (.uint 5) = false) ∧
      (¬ Same (.int 0) (.string (str "text")) ∧
        valuesEqual (.int 0) (.string (str "text")) = true ∧
        valuesEqual (.string (str "text")) (.int 0) = false) ∧
      matchHeaders [(str "key", .int 0)] [(str "key", .string (str "text"))] = true := by
  refine ⟨⟨.inr (.inr ⟨5, by decide, by decide⟩), by decide⟩, ⟨?_, by decide, by decide⟩, by decide⟩
  rintro (⟨s, h, -⟩ | ⟨x, h, -⟩ | ⟨n, -, h⟩)
  · cases h
  · cases h
  · cases h

end Gomq.Broker
