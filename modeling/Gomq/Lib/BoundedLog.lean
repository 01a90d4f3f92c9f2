import Mathlib.Data.List.DropRight
import Gomq.Lib.Run

/-!
# Bounded logs

A log of stamped records with a limit that may change. A record under a limit makes room by dropping
one old record, whatever the number of those stored. It therefore leaves the newest ones only if the
log was not over its limit before (`keepsNewest_iff`), and a log that is over its limit stays as
long as it is (`length_record_of_full`).
-/

namespace Gomq

/-- A log; a `maxSize` of zero is no limit. -/
structure BoundedLog (α : Type) where
  enabled : Bool
  records : List α
  maxSize : ℤ
  deriving DecidableEq

namespace BoundedLog

variable {α τ : Type}

/-- A negative limit counts as none. -/
def new (enabled : Bool) (size : ℤ) : BoundedLog α where
  enabled := enabled
  records := []
  maxSize := if size < 0 then 0 else size

def setEnabled (log : BoundedLog α) (v : Bool) : BoundedLog α := { log with enabled := v }

def setMaxSize (log : BoundedLog α) (n : ℤ) : BoundedLog α :=
  { log with maxSize := if n < 0 then 0 else n }

def count (log : BoundedLog α) : ℕ := log.records.length

/-- The records that stay when another one comes. -/
def dropOldest (log : BoundedLog α) : List α :=
  if 0 < log.maxSize ∧ log.maxSize ≤ log.records.length then log.records.tail else log.records

def record (stamp : τ → α → α) (log : BoundedLog α) (t : τ) (r : α) : BoundedLog α :=
  if log.enabled then { log with records := log.dropOldest ++ [stamp t r] } else log

inductive Call (τ α : Type) where
  | record (t : τ) (r : α)
  | setMaxSize (n : ℤ)
  | setEnabled (v : Bool)

def step (stamp : τ → α → α) (log : BoundedLog α) : Call τ α → BoundedLog α
  | .record t r => log.record stamp t r
  | .setMaxSize n => log.setMaxSize n
  | .setEnabled v => log.setEnabled v

/-! ## The newest records -/

variable (stamp : τ → α → α)

/-- A record that is made under a limit `n` on `k` stored ones leaves the last `min n (k + 1)` of
those and the new one, and so at most `n`. -/
def KeepsNewest (log : BoundedLog α) : Call τ α → Prop
  | .record t r => log.enabled = true → 0 < log.maxSize →
    (log.record stamp t r).records =
        (log.records ++ [stamp t r]).rtake (min log.maxSize.toNat (log.count + 1)) ∧
      (log.record stamp t r).count ≤ log.maxSize
  | _ => True

/-- A record that is made under a limit finds a log that is not over it. -/
def Within (log : BoundedLog α) : Call τ α → Prop
  | .record _ _ => log.enabled = true → 0 < log.maxSize → log.count ≤ log.maxSize
  | _ => True

instance [DecidableEq α] (log : BoundedLog α) : (c : Call τ α) → Decidable (KeepsNewest stamp log c)
  | .record _ _ => inferInstanceAs (Decidable (_ → _ → _))
  | .setMaxSize _ => inferInstanceAs (Decidable True)
  | .setEnabled _ => inferInstanceAs (Decidable True)

variable {log : BoundedLog α}

theorem record_records (h : log.enabled = true) (t : τ) (r : α) :
    (log.record stamp t r).records = log.dropOldest ++ [stamp t r] := by
  unfold record
  rw [if_pos h]

/-- A full log stays as long as it is. -/
theorem length_record_of_full (h : log.enabled = true) (hlimit : 0 < log.maxSize)
    (hfull : log.maxSize ≤ log.count) (t : τ) (r : α) :
    (log.record stamp t r).count = log.count := by
  unfold count at hfull ⊢
  rw [record_records stamp h, dropOldest, if_pos ⟨hlimit, hfull⟩, List.length_append,
    List.length_tail, List.length_singleton]
  omega

theorem record_of_count_lt (h : log.enabled = true) (hroom : log.count < log.maxSize) (t : τ)
    (r : α) : (log.record stamp t r).records = log.records ++ [stamp t r] := by
  unfold count at hroom
  rw [record_records stamp h, dropOldest, if_neg (by omega)]

theorem record_of_count_eq (h : log.enabled = true) (hlimit : 0 < log.maxSize)
    (hfull : log.count = log.maxSize) (t : τ) (r : α) :
    (log.record stamp t r).records = (log.records ++ [stamp t r]).tail := by
  unfold count at hfull
  have hne : log.records ≠ [] := by
    intro hnil
    rw [hnil, List.length_nil] at hfull
    omega
  rw [record_records stamp h, dropOldest, if_pos ⟨hlimit, hfull.ge⟩, List.tail_append_of_ne_nil hne]

/-- A record leaves the newest ones exactly if the log is not over its limit before. -/
theorem keepsNewest_iff (log : BoundedLog α) (c : Call τ α) :
    KeepsNewest stamp log c ↔ Within log c := by
  cases c with
  | setMaxSize n => exact Iff.rfl
  | setEnabled v => exact Iff.rfl
  | record t r =>
    unfold KeepsNewest Within
    refine forall_congr' fun h => forall_congr' fun hlimit => ?_
    constructor
    · rintro ⟨_, hcount⟩
      by_contra hover
      rw [length_record_of_full stamp h hlimit (by omega)] at hcount
      exact hover hcount
    · intro hle
      rcases hle.lt_or_eq with hlt | heq
      · -- there is room, and all records are among the newest
        have hrec := record_of_count_lt stamp h hlt t r
        have hlen : (log.records ++ [stamp t r]).length = log.count + 1 := by
          simp [count]
        have hmin : min log.maxSize.toNat (log.count + 1) = log.count + 1 := by omega
        refine ⟨?_, ?_⟩
        · rw [hrec, hmin, List.rtake, hlen, Nat.sub_self, List.drop_zero]
        · unfold count at hlen ⊢
          rw [hrec, hlen]
          unfold count at hlt
          omega
      · -- the log is full, and one record is too old
        have hrec := record_of_count_eq stamp h hlimit heq t r
        have hlen : (log.records ++ [stamp t r]).length = log.count + 1 := by
          simp [count]
        have hmin : log.count + 1 - min log.maxSize.toNat (log.count + 1) = 1 := by omega
        refine ⟨?_, ?_⟩
        · rw [hrec, List.rtake, hlen, hmin, List.drop_one]
        · rw [length_record_of_full stamp h hlimit heq.ge, heq]

/-! ## Runs -/

def Fits (log : BoundedLog α) : Prop := 0 < log.maxSize → log.count ≤ log.maxSize

/-- Limits that are set when at most that many records are stored are never passed. -/
theorem within_of_setMaxSize {calls : List (Call τ α)}
    (hstart : log.Fits)
    (h : Along (step stamp) (fun log c => ∀ n, c = .setMaxSize n → 0 < n → log.count ≤ n) log
      calls) :
    Along (step stamp) Within log calls := by
  refine Along.of_inv (I := Fits) ?_ ?_ hstart h
  · intro log c hlog hc hlimit
    cases c with
    | setEnabled v => exact hlog hlimit
    | setMaxSize n =>
      have hn : 0 < n := by
        by_contra hn
        change 0 < (if n < 0 then 0 else n) at hlimit
        split at hlimit <;> omega
      have hsize : (step stamp log (.setMaxSize n)).maxSize = n := if_neg (by omega)
      rw [hsize]
      exact hc n rfl hn
    | record t r =>
      by_cases hen : log.enabled = true
      · have hsize : (step stamp log (.record t r)).maxSize = log.maxSize := by
          simp [step, record, hen]
        rw [hsize] at hlimit ⊢
        have hwithin : Within log (Call.record t r) := fun _ _ => hlog hlimit
        exact ((keepsNewest_iff stamp log _).mpr hwithin hen hlimit).2
      · have hsame : step stamp log (.record t r) = log := if_neg hen
        rw [hsame] at hlimit ⊢
        exact hlog hlimit
  · intro log c hlog _
    cases c with
    | record t r => exact fun _ => hlog
    | setMaxSize n => exact True.intro
    | setEnabled v => exact True.intro

theorem new_keepsNewest (enabled : Bool) (size : ℤ) {calls : List (Call τ α)}
    (h : ∀ c ∈ calls, ∀ n, c ≠ .setMaxSize n) :
    Along (step stamp) (KeepsNewest stamp) (new enabled size) calls := by
  have hcalls : Along (step stamp) (fun _ c => ∀ n, c ≠ .setMaxSize n) (new enabled size) calls :=
    Along.of_forall h _
  rw [Along.congr (keepsNewest_iff stamp)]
  refine within_of_setMaxSize stamp (fun hlimit => hlimit.le) ?_
  exact Along.of_inv (I := fun _ => True) (fun _ _ _ _ => True.intro)
    (fun _ c _ hc n hn => absurd hn (hc n)) True.intro hcalls

end BoundedLog

end Gomq
