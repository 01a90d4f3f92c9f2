import Mathlib.Data.Nat.Digits.Defs
import Gomq.Broker.Etcd
import Gomq.Broker.Message

/-!
# The arithmetic of a time to live

A time to live in milliseconds is multiplied by a million in 64 bits. As long as the product fits,
a message expires when it is due. A product that does not fit is never due within the range of a
duration; it wraps, and the message expires all the same unless the product wraps to zero and no
other limit takes its place (`isExpired_exact_iff`).
-/

namespace Gomq.Broker

open Wire

/-! ## How a time to live is given -/

/-- A decimal numeral for `n`, with or without a plus sign. -/
def Decimal (s : GoString) (n : ℕ) : Prop :=
  ∃ ds : GoString, (s = ds ∨ s = 0x2b :: ds) ∧ ds ≠ [] ∧ (∀ c ∈ ds, 0x30 ≤ c ∧ c ≤ 0x39) ∧
    Nat.ofDigits 10 (ds.map fun c => c.toNat - 0x30).reverse = n

/-- The message, or the queue if the message is silent, asks for `ms` milliseconds. -/
def TTLGiven (msg : Message) (args : Table) (ms : ℕ) : Prop :=
  Decimal msg.properties.expiration ms ∧ ms < 2 ^ 63 ∨
    msg.properties.expiration = [] ∧
      ∃ v, args.get (str "x-message-ttl") = some v ∧ v.asInteger = some (ms : ℤ)

/-- Whenever the elapsed time is a duration, the message is expired exactly if at least `ms`
milliseconds have elapsed. -/
def ExpiresExactly (msg : Message) (args : Table) (ms : ℕ) : Prop :=
  ∀ t, msg.enqueuedAt = some t → ∀ now, t ≤ now → now - t < 2 ^ 63 →
    (isExpired now msg args = true ↔ ms * 10 ^ 6 ≤ now - t)

/-! ## Reading it -/

theorem foldl_digits (ds : GoString) :
    ds.foldl (fun a c => a * 10 + (c.toNat - 0x30)) 0 =
      Nat.ofDigits 10 (ds.map fun c => c.toNat - 0x30).reverse := by
  rw [Nat.ofDigits_eq_foldr, List.foldr_reverse, List.foldl_map]
  congr 1
  funext a c
  simp only [Nat.cast_id]
  omega

theorem parseInt_digits {ds : GoString} (hne : ds ≠ []) (hds : ∀ c ∈ ds, 0x30 ≤ c ∧ c ≤ 0x39)
    {n : ℕ} (hn : Nat.ofDigits 10 (ds.map fun c => c.toNat - 0x30).reverse = n)
    (hfit : n < 2 ^ 63) {s : GoString} (hs : s = ds ∨ s = 0x2b :: ds) :
    parseInt s = some (n : ℤ) := by
  have hany : (ds.any fun c => c < 0x30 || 0x39 < c) = false := by
    refine List.any_eq_false.mpr fun c hc => ?_
    obtain ⟨hlo, hhi⟩ := hds c hc
    simp only [Bool.or_eq_true, decide_eq_true_eq, not_or, UInt8.not_lt]
    exact ⟨hlo, hhi⟩
  have hsign : s.head? ≠ some 0x2d ∧ (if s.head? = some 0x2b then s.tail else s) = ds := by
    rcases hs with rfl | rfl
    · cases s with
      | nil => exact absurd rfl hne
      | cons c s =>
        obtain ⟨hlo, hhi⟩ := hds c List.mem_cons_self
        have hminus : c ≠ 0x2d := by rintro rfl; revert hlo; decide
        have hplus : c ≠ 0x2b := by rintro rfl; revert hlo; decide
        simp [hminus, hplus]
    · simp
  unfold parseInt
  rw [← foldl_digits] at hn
  simp only [beq_eq_false_iff_ne.mpr hsign.1, Bool.false_or, beq_iff_eq, hsign.2, hn, hany,
    List.isEmpty_eq_false_iff.mpr hne, Bool.or_false, Bool.false_eq_true, if_false, hfit, if_true]

theorem asInt64_of_asInteger {v : Value} {n : ℤ} (h : v.asInteger = some n) :
    asInt64 v = some (Int64.ofInt n) := by
  have hsigned : ∀ w : Int64, w.toInt = n → w = Int64.ofInt n := by
    rintro w rfl
    exact (Int64.ofInt_toInt w).symm
  cases v with
  | int w | int64 w => exact congrArg some (hsigned w (Option.some.inj h))
  | int8 w => exact congrArg some (hsigned _ ((Int8.toInt_toInt64 w).trans (Option.some.inj h)))
  | int16 w => exact congrArg some (hsigned _ ((Int16.toInt_toInt64 w).trans (Option.some.inj h)))
  | int32 w => exact congrArg some (hsigned _ ((Int32.toInt_toInt64 w).trans (Option.some.inj h)))
  | uint w | uint64 w => cases h; exact congrArg some (toInt64_eq_ofInt w)
  | uint8 w | uint16 w | uint32 w =>
    cases h; exact congrArg some (toInt64_eq_ofInt w.toUInt64)
  | _ => cases h

/-! ## The product -/

def wrapped (ms : ℕ) : Int64 := milliseconds (Int64.ofInt ms)

theorem toInt_wrapped (ms : ℕ) : (wrapped ms).toInt = (ms * 10 ^ 6 : ℤ).bmod (2 ^ 64) := by
  unfold wrapped milliseconds
  rw [Int64.toInt_mul, Int64.toInt_ofInt, show Int64.size = 2 ^ 64 from rfl, Int.bmod_mul_bmod]
  rfl

theorem toInt_wrapped_of_fits {ms : ℕ} (h : ms * 10 ^ 6 < 2 ^ 63) :
    (wrapped ms).toInt = ms * 10 ^ 6 := by
  rw [toInt_wrapped]
  apply Int.bmod_eq_of_le <;> omega

/-- A million has six factors two. -/
theorem wrapped_eq_zero_iff (ms : ℕ) : wrapped ms = 0 ↔ 2 ^ 58 ∣ ms := by
  rw [← Int64.toInt_inj, toInt_wrapped, Int64.toInt_zero, ← Int.dvd_iff_bmod_eq_zero]
  have hcop : Nat.Coprime (2 ^ 58) (5 ^ 6) := by decide
  rw [show ((ms : ℤ) * 10 ^ 6) = ((2 ^ 6 * (ms * 5 ^ 6) : ℕ) : ℤ) by push_cast; ring,
    Int.natCast_dvd_natCast, show 2 ^ 64 = 2 ^ 6 * 2 ^ 58 by rfl,
    Nat.mul_dvd_mul_iff_left (by decide)]
  exact ⟨fun h => hcop.dvd_of_dvd_mul_right h, fun h => h.mul_right _⟩

/-! ## Expiry -/

def effectiveTTL (msg : Message) (args : Table) : Int64 :=
  if messageTTL msg = 0 then queueTTL args else messageTTL msg

section Expiry

variable {msg : Message} {args : Table} {ms t now : ℕ}

theorem toInt_since (h : t ≤ now) (hlt : now - t < 2 ^ 63) :
    (since now t).toInt = (now - t : ℕ) := by
  unfold since
  rw [min_eq_left (by omega), max_eq_right (by omega),
    Int64.toInt_ofInt_of_le (by omega) (by omega)]
  omega

theorem isExpired_iff (ht : msg.enqueuedAt = some t) (h : t ≤ now) (hlt : now - t < 2 ^ 63) :
    isExpired now msg args = true ↔
      effectiveTTL msg args ≠ 0 ∧ (effectiveTTL msg args).toInt ≤ (now - t : ℕ) := by
  unfold isExpired
  rw [ht]
  dsimp only
  change (if effectiveTTL msg args = 0 then false
    else decide (effectiveTTL msg args ≤ since now t)) = true ↔ _
  split
  · rename_i hzero
    simp [hzero]
  · rename_i hne
    rw [decide_eq_true_eq, Int64.le_iff_toInt_le, toInt_since h hlt]
    exact (and_iff_right hne).symm

theorem isExpired_never_iff (ht : msg.enqueuedAt = some t) :
    (∀ now, t ≤ now → now - t < 2 ^ 63 → isExpired now msg args = false) ↔
      effectiveTTL msg args = 0 := by
  constructor
  · intro hnever
    by_contra hne
    -- at the last moment of the range every limit other than zero is over
    have hlast := hnever (t + (2 ^ 63 - 1)) (by omega) (by omega)
    rw [← Bool.not_eq_true, isExpired_iff ht (by omega) (by omega)] at hlast
    have hmax := (effectiveTTL msg args).toInt_lt
    exact hlast ⟨hne, by omega⟩
  · intro hzero now hle hlt
    rw [← Bool.not_eq_true, isExpired_iff ht hle hlt]
    exact fun hexp => hexp.1 hzero

/-- The product is the limit; if it wraps to zero, that of the queue takes its place. -/
theorem effectiveTTL_of_given (h : TTLGiven msg args ms) :
    effectiveTTL msg args =
      if wrapped ms = 0 ∧ msg.properties.expiration ≠ [] then queueTTL args else wrapped ms := by
  unfold effectiveTTL
  rcases h with ⟨⟨ds, hs, hne, hds, hn⟩, hfit⟩ | ⟨hempty, v, hget, hv⟩
  · have hexp : msg.properties.expiration ≠ [] := by
      rcases hs with hs | hs <;> rw [hs]
      · exact hne
      · exact List.cons_ne_nil _ _
    have hmsg : messageTTL msg = wrapped ms := by
      unfold messageTTL
      rw [if_neg hexp, parseInt_digits hne hds hn hfit hs]
      rfl
    rw [hmsg]
    simp only [hexp, ne_eq, not_false_eq_true, and_true]
  · have hmsg : messageTTL msg = 0 := by
      unfold messageTTL
      rw [if_pos hempty]
    have hqueue : queueTTL args = wrapped ms := by
      unfold queueTTL
      rw [hget]
      dsimp only
      rw [asInt64_of_asInteger hv]
      rfl
    rw [if_pos hmsg, hqueue, ite_self]

theorem expiresExactly_of_fits (hms : 0 < ms) (h : TTLGiven msg args ms)
    (hfit : ms * 10 ^ 6 < 2 ^ 63) : ExpiresExactly msg args ms := by
  intro t ht now hle hlt
  have hint := toInt_wrapped_of_fits hfit
  have hne : wrapped ms ≠ 0 := by
    intro hzero
    rw [hzero, Int64.toInt_zero] at hint
    omega
  rw [isExpired_iff ht hle hlt, effectiveTTL_of_given h, if_neg fun hand => hne hand.1, hint]
  refine (and_iff_right hne).trans ?_
  omega

theorem expiresExactly_of_not_fits (hfit : ¬ ms * 10 ^ 6 < 2 ^ 63)
    (ht : msg.enqueuedAt = some t) : ExpiresExactly msg args ms ↔ effectiveTTL msg args = 0 := by
  rw [← isExpired_never_iff ht]
  constructor
  · intro h now hle hlt
    rw [← Bool.not_eq_true, h t ht now hle hlt]
    omega
  · intro h t' ht' now hle hlt
    obtain rfl : t = t' := Option.some.inj (ht.symm.trans ht')
    rw [h now hle hlt]
    refine iff_of_false Bool.false_ne_true ?_
    omega

end Expiry

/-- A message with a time to live of `ms` milliseconds, from its `Expiration` or else from its
queue, expires exactly when it is due if and only if the time to live fits in a duration, or wraps
to zero with no limit of the queue to take its place. -/
theorem isExpired_exact_iff {msg : Message} {args : Table} {ms : ℕ} (hms : 0 < ms)
    (henq : msg.enqueuedAt ≠ none) (h : TTLGiven msg args ms) :
    ExpiresExactly msg args ms ↔
      ms * 10 ^ 6 < 2 ^ 63 ∨
        2 ^ 58 ∣ ms ∧ (msg.properties.expiration ≠ [] → queueTTL args = 0) := by
  obtain ⟨t, ht⟩ := Option.ne_none_iff_exists'.mp henq
  by_cases hfit : ms * 10 ^ 6 < 2 ^ 63
  · exact iff_of_true (expiresExactly_of_fits hms h hfit) (.inl hfit)
  · rw [expiresExactly_of_not_fits hfit ht, or_iff_right hfit, effectiveTTL_of_given h,
      ← wrapped_eq_zero_iff]
    split
    · rename_i hand
      exact ⟨fun hzero => ⟨hand.1, fun _ => hzero⟩, fun hzero => hzero.2 hand.2⟩
    · rename_i hnot
      exact ⟨fun hzero => ⟨hzero, fun hexp => absurd ⟨hzero, hexp⟩ hnot⟩, fun hzero => hzero.1⟩

def expiring (expiration : GoString) : Message :=
  { newMessage [] { expiration := expiration } with enqueuedAt := some 0 }

theorem isExpired_exact_iff_five :
    TTLGiven (expiring (str "5")) [] 5 ∧ ExpiresExactly (expiring (str "5")) [] 5 := by
  have hgiven : TTLGiven (expiring (str "5")) [] 5 :=
    .inl ⟨⟨str "5", .inl rfl, by decide, by decide +kernel, by decide⟩, by decide⟩
  refine ⟨hgiven, (isExpired_exact_iff (by decide) ?_ hgiven).mpr (.inl (by decide))⟩
  exact Option.some_ne_none 0

/-- The milliseconds of 292 years are one too many: given by the message or by the queue, they
expire the message at once. -/
theorem expiring_at_once :
    TTLGiven (expiring (str "9223372036855")) [] 9223372036855 ∧
      isExpired 0 (expiring (str "9223372036855")) [] = true ∧
      ¬ ExpiresExactly (expiring (str "9223372036855")) [] 9223372036855 ∧
      TTLGiven (expiring []) [(str "x-message-ttl", .uint64 9223372036855)] 9223372036855 ∧
      isExpired 0 (expiring []) [(str "x-message-ttl", .uint64 9223372036855)] = true := by
  have hnow : isExpired 0 (expiring (str "9223372036855")) [] = true := by decide
  have hdigits : ∀ c ∈ str "9223372036855", 0x30 ≤ c ∧ c ≤ 0x39 := by decide +kernel
  refine ⟨.inl ⟨⟨str "9223372036855", .inl rfl, by decide, hdigits, by decide⟩, by decide⟩,
    hnow, fun hexact => ?_, .inr ⟨rfl, _, rfl, rfl⟩, by decide⟩
  have hdue := (hexact 0 rfl 0 (Nat.le_refl 0) (by decide)).mp hnow
  exact absurd hdue (by decide)

end Gomq.Broker
