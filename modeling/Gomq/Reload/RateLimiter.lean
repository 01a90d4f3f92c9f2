import Gomq.Lib.Run
import Gomq.Lib.TokenBucket
import Gomq.Reload.Apply

/-!
# The rate limiter

`Allow` is a token bucket over floating-point numbers. The operations on them are parameters; the
results are about exact numbers. There `Allow` lets a connection in exactly if with it every stretch
of time up to now, of those since the rate was set last, has at most as many connections as the
burst and what the rate gives for the stretch (`allow_iff_run`). A rate of zero or less gives
nothing: such a limiter lets in one burst and then nobody, until its rate is set again.
-/

namespace Gomq.Reload

open TokenBucket (Bucket Accounts spent)

class GoArith (F : Type) extends GoFloat F where
  le : F → F → Bool
  lt : F → F → Bool
  add : F → F → F
  sub : F → F → F
  mul : F → F → F
  /-- `Duration.Seconds` -/
  seconds : ℤ → F

instance : GoArith ℚ where
  le x y := decide (x ≤ y)
  lt x y := decide (x < y)
  add x y := x + y
  sub x y := x - y
  mul x y := x * y
  seconds d := d / 10 ^ 9

namespace RateLimiter

section

variable {F : Type} [GoArith F]

/-- `now.Sub(t)`, which is as long as a duration can be for the zero time. -/
def elapsed (now : ℕ) : Broker.Time → ℤ
  | some t => now - t
  | none => 2 ^ 63 - 1

def refillTokens (rl : RateLimiter F) (now : ℕ) : RateLimiter F :=
  if GoArith.le rl.refill (GoFloat.ofInt 0) then rl
  else
    let gained := GoArith.mul (GoArith.seconds (elapsed now rl.last)) rl.refill
    let tokens := GoArith.add rl.tokens gained
    { rl with
      tokens := if GoArith.lt rl.max tokens then rl.max else tokens
      last := some now }

def allow (rl : RateLimiter F) (now : ℕ) : Bool × RateLimiter F :=
  if GoArith.le rl.max (GoFloat.ofInt 0) then (true, rl)
  else
    let rl := rl.refillTokens now
    if GoArith.le (GoFloat.ofInt 1) rl.tokens then
      (true, { rl with tokens := GoArith.sub rl.tokens (GoFloat.ofInt 1) })
    else (false, rl)

/-- `SetRate` leaves `last` as it is. -/
def setRate (rl : RateLimiter F) (maxBurst : ℤ) (refillRate : F) : RateLimiter F :=
  let max := GoFloat.ofInt maxBurst
  let tokens := if GoArith.lt max rl.tokens then max else rl.tokens
  { rl with
    max := max
    refill := refillRate
    tokens := if GoArith.lt tokens max then max else tokens }

end

/-! ## Exact numbers -/

def rate (rl : RateLimiter ℚ) : ℚ := rl.refill ⊔ 0

/-- The tokens of all time up to a moment. -/
def supply (rl : RateLimiter ℚ) (t : ℕ) : ℚ := rl.rate * (t / 10 ^ 9)

theorem supply_mono (rl : RateLimiter ℚ) : Monotone rl.supply := by
  intro s t h
  have hcast : (s : ℚ) ≤ t := Nat.cast_le.mpr h
  exact mul_le_mul_of_nonneg_left (by linarith) le_sup_right

theorem setRate_tokens (rl : RateLimiter ℚ) (maxBurst : ℤ) (refillRate : ℚ) :
    (rl.setRate maxBurst refillRate).tokens = maxBurst := by
  simp only [setRate, GoArith.lt, GoFloat.ofInt, decide_eq_true_eq]
  split_ifs <;> linarith

/-- The limiter has the tokens of the bucket. It does not look at its clock if nothing flows in. -/
structure Represents (rl : RateLimiter ℚ) (b : Bucket ℕ ℚ) : Prop where
  tokens : rl.tokens = b.level
  le_max : rl.tokens ≤ rl.max
  last : 0 < rl.refill → rl.last = some b.last

variable {rl : RateLimiter ℚ} {b : Bucket ℕ ℚ} {taken : List ℕ}

theorem refillTokens_max (rl : RateLimiter ℚ) (t : ℕ) : (rl.refillTokens t).max = rl.max := by
  unfold refillTokens
  split <;> rfl

theorem refillTokens_refill (rl : RateLimiter ℚ) (t : ℕ) :
    (rl.refillTokens t).refill = rl.refill := by
  unfold refillTokens
  split <;> rfl

theorem Represents.refill (h : rl.Represents b) (t : ℕ) :
    (rl.refillTokens t).Represents (b.wait rl.max rl.supply t) := by
  by_cases hpos : 0 < rl.refill
  · have heq : rl.refillTokens t =
        { rl with
          tokens := min rl.max (rl.tokens + (rl.supply t - rl.supply b.last))
          last := some t } := by
      have hgain : ((t - b.last : ℤ) : ℚ) / 10 ^ 9 * rl.refill =
          rl.supply t - rl.supply b.last := by
        unfold supply rate
        rw [sup_of_le_left hpos.le]
        push_cast
        ring
      simp only [refillTokens, GoArith.le, GoFloat.ofInt, GoArith.add, GoArith.mul,
        GoArith.seconds, GoArith.lt, h.last hpos, elapsed, hgain, decide_eq_true_eq]
      rw [if_neg (by push_cast; linarith), min_def]
      congr 1
      split_ifs <;> linarith
    rw [heq]
    exact ⟨by rw [h.tokens]; rfl, min_le_left _ _, fun _ => rfl⟩
  · have heq : rl.refillTokens t = rl :=
      if_pos (decide_eq_true (by simpa [GoFloat.ofInt] using hpos))
    have hsame : rl.supply t - rl.supply b.last = 0 := by
      simp [supply, rate, sup_of_le_right (not_lt.mp hpos)]
    rw [heq]
    refine ⟨?_, h.le_max, fun hp => absurd hp hpos⟩
    change rl.tokens = min rl.max (b.level + _)
    rw [hsame, add_zero, ← h.tokens, min_eq_right h.le_max]

theorem Represents.take (h : rl.Represents b) :
    Represents { rl with tokens := rl.tokens - 1 } b.take where
  tokens := congrArg (· - 1) h.tokens
  le_max := (sub_le_self _ zero_le_one).trans h.le_max
  last := h.last

/-- `Allow`, when there is a limit. -/
theorem allow_eq (hmax : 0 < rl.max) (t : ℕ) :
    rl.allow t =
      if 1 ≤ (rl.refillTokens t).tokens then
        (true, { rl.refillTokens t with tokens := (rl.refillTokens t).tokens - 1 })
      else (false, rl.refillTokens t) := by
  simp only [allow, GoArith.le, GoFloat.ofInt, GoArith.sub, decide_eq_true_eq]
  rw [if_neg (by push_cast; linarith)]
  norm_num

theorem allow_of_unlimited (hmax : rl.max ≤ 0) (t : ℕ) : rl.allow t = (true, rl) :=
  if_pos (decide_eq_true (by simpa [GoFloat.ofInt] using hmax))

end RateLimiter

/-! ## Runs -/

inductive LimiterCall where
  | allow
  | setRate (maxBurst : ℤ) (refillRate : ℚ)

/-- A limiter, the clock, and when it let a connection in since its rate was set. -/
structure Limited where
  limiter : RateLimiter ℚ
  now : ℕ
  admitted : List ℕ

namespace Limited

def new (now : ℕ) (maxBurst : ℤ) (refillRate : ℚ) : Limited :=
  ⟨newRateLimiter now maxBurst refillRate, now, []⟩

/-- A call, so many nanoseconds after the one before. -/
def step (s : Limited) (c : ℕ × LimiterCall) : Limited :=
  let t := s.now + c.1
  match c.2 with
  | .allow =>
    let r := s.limiter.allow t
    ⟨r.2, t, if r.1 then t :: s.admitted else s.admitted⟩
  | .setRate maxBurst refillRate => ⟨s.limiter.setRate maxBurst refillRate, t, []⟩

/-- The limiter is a bucket that accounts for the connections. -/
structure Sound (s : Limited) : Prop where
  clock : ∃ l ≤ s.now, s.limiter.last = some l
  bucket : 0 < s.limiter.max → ∃ b : Bucket ℕ ℚ, b.last ≤ s.now ∧ s.limiter.Represents b ∧
    Accounts s.limiter.max s.limiter.supply s.admitted b

/-- A limiter whose bucket is full. -/
theorem sound_of_full {s : Limited} (hclock : ∃ l ≤ s.now, s.limiter.last = some l)
    (hfull : s.limiter.tokens = s.limiter.max) (hnone : s.admitted = []) : s.Sound := by
  refine ⟨hclock, fun _ => ?_⟩
  obtain ⟨l, hl, hlast⟩ := hclock
  refine ⟨⟨s.limiter.max, l⟩, hl, ⟨hfull, hfull.le, fun _ => hlast⟩, ?_⟩
  rw [hnone]
  exact Accounts.full s.limiter.supply_mono l

theorem sound_new (now : ℕ) (maxBurst : ℤ) (refillRate : ℚ) :
    (new now maxBurst refillRate).Sound :=
  sound_of_full ⟨now, le_rfl, rfl⟩ rfl rfl

/-- The limiter before it decides. -/
theorem Sound.refilled {s : Limited} (h : s.Sound) (hmax : 0 < s.limiter.max) (d : ℕ) :
    ∃ b : Bucket ℕ ℚ, b.last = s.now + d ∧ (s.limiter.refillTokens (s.now + d)).Represents b ∧
      Accounts s.limiter.max s.limiter.supply s.admitted b := by
  obtain ⟨b, hb, hrep, hacc⟩ := h.bucket hmax
  exact ⟨_, rfl, hrep.refill _, hacc.wait s.limiter.supply_mono (hb.trans (Nat.le_add_right _ _))⟩

theorem Sound.allow {s : Limited} (h : s.Sound) (d : ℕ) : (s.step (d, .allow)).Sound := by
  rcases le_or_gt s.limiter.max 0 with hmax | hmax
  · obtain ⟨l, hl, hlast⟩ := h.clock
    simp only [step, RateLimiter.allow_of_unlimited hmax]
    exact ⟨⟨l, hl.trans (Nat.le_add_right _ _), hlast⟩, fun hpos => absurd hpos hmax.not_gt⟩
  · obtain ⟨b, hb, hrep, hacc⟩ := h.refilled hmax d
    have hsup : (s.limiter.refillTokens (s.now + d)).supply = s.limiter.supply := by
      unfold RateLimiter.supply RateLimiter.rate
      rw [RateLimiter.refillTokens_refill]
    rw [← hsup, ← RateLimiter.refillTokens_max s.limiter (s.now + d)] at hacc
    have hclock : ∃ l ≤ s.now + d, (s.limiter.refillTokens (s.now + d)).last = some l := by
      obtain ⟨l, hl, hlast⟩ := h.clock
      unfold RateLimiter.refillTokens
      split
      · exact ⟨l, hl.trans (Nat.le_add_right _ _), hlast⟩
      · exact ⟨_, le_rfl, rfl⟩
    simp only [step, RateLimiter.allow_eq hmax]
    split
    · exact ⟨hclock, fun _ => ⟨b.take, hb.le, hrep.take, hb ▸ hacc.take⟩⟩
    · exact ⟨hclock, fun _ => ⟨b, hb.le, hrep, hacc⟩⟩

theorem Sound.step {s : Limited} (h : s.Sound) (c : ℕ × LimiterCall) : (s.step c).Sound := by
  obtain ⟨d, c⟩ := c
  cases c with
  | allow => exact h.allow d
  | setRate maxBurst refillRate =>
    obtain ⟨l, hl, hlast⟩ := h.clock
    exact sound_of_full ⟨l, hl.trans (Nat.le_add_right _ _), hlast⟩
      (RateLimiter.setRate_tokens _ _ _) rfl

theorem sound_run (now : ℕ) (maxBurst : ℤ) (refillRate : ℚ) (calls : List (ℕ × LimiterCall)) :
    (calls.foldl step (new now maxBurst refillRate)).Sound :=
  calls.foldlRecOn step (sound_new now maxBurst refillRate) fun _ h c _ => h.step c

/-- After any calls, `Allow` lets a connection in exactly if the limiter has no limit, or if every
stretch of time that ends now has, with it, at most as many connections as the burst and the rate
give. -/
theorem allow_iff_run (now : ℕ) (maxBurst : ℤ) (refillRate : ℚ) (calls : List (ℕ × LimiterCall))
    (d : ℕ) :
    let s := calls.foldl step (new now maxBurst refillRate)
    (s.limiter.allow (s.now + d)).1 = true ↔
      s.limiter.max ≤ 0 ∨
        ∀ u ≤ s.now + d, spent s.admitted u + 1 ≤
          s.limiter.max + s.limiter.rate * (((s.now + d - u : ℕ) : ℚ) / 10 ^ 9) := by
  intro s
  have hsound : s.Sound := sound_run now maxBurst refillRate calls
  rcases le_or_gt s.limiter.max 0 with hmax | hmax
  · simp [RateLimiter.allow_of_unlimited hmax, hmax]
  · obtain ⟨b, hb, hrep, hacc⟩ := hsound.refilled hmax d
    have hgrant : (s.limiter.allow (s.now + d)).1 = true ↔ 1 ≤ b.level := by
      rw [RateLimiter.allow_eq hmax, ← hrep.tokens]
      split <;> simp_all
    rw [hgrant, hacc.le_iff, hb, or_iff_right hmax.not_ge]
    refine forall₂_congr fun u hu => ?_
    have hdiff : s.limiter.supply (s.now + d) - s.limiter.supply u =
        s.limiter.rate * (((s.now + d - u : ℕ) : ℚ) / 10 ^ 9) := by
      unfold RateLimiter.supply
      rw [Nat.cast_sub hu]
      ring
    rw [hdiff]

end Limited

end Gomq.Reload
