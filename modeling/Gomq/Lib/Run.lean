import Mathlib.Data.List.Basic
import Mathlib.Order.Monotone.Basic

/-!
# Runs under a condition

A system is a total function `step : σ → α → σ`, a run is the fold of it over a list of actions.
`Along step P s as` says that every action of the run meets `P` in the state in which it is taken.
-/

namespace Gomq

section Along

variable {σ α : Type} (step : σ → α → σ) (P : σ → α → Prop)

/-- Every action of the run from `s` meets `P` in the state before it. -/
def Along : σ → List α → Prop
  | _, [] => True
  | s, a :: as => P s a ∧ Along (step s a) as

instance decidableAlong [∀ s a, Decidable (P s a)] :
    (s : σ) → (as : List α) → Decidable (Along step P s as)
  | _, [] => inferInstanceAs (Decidable True)
  | s, a :: as =>
    have := decidableAlong (step s a) as
    inferInstanceAs (Decidable (P s a ∧ Along step P (step s a) as))

variable {step P}

/-- What holds at the start and is kept by every step that meets the condition holds at the end of
every run along which the condition is met. -/
theorem Along.inv {I : σ → Prop} (hstep : ∀ s a, I s → P s a → I (step s a)) {s : σ}
    {as : List α} (hs : I s) (h : Along step P s as) : I (as.foldl step s) := by
  induction as generalizing s with
  | nil => exact hs
  | cons a as ih => exact ih (hstep s a hs h.1) h.2

theorem Along.and {Q : σ → α → Prop} {s : σ} {as : List α} (hP : Along step P s as)
    (hQ : Along step Q s as) : Along step (fun s a => P s a ∧ Q s a) s as := by
  induction as generalizing s with
  | nil => exact True.intro
  | cons a as ih => exact ⟨⟨hP.1, hQ.1⟩, ih hP.2 hQ.2⟩

/-- What follows at each step from an invariant and the condition is met along the run. -/
theorem Along.of_inv {Q : σ → α → Prop} {I : σ → Prop} (hstep : ∀ s a, I s → P s a → I (step s a))
    (hQ : ∀ s a, I s → P s a → Q s a) {s : σ} {as : List α} (hs : I s) (h : Along step P s as) :
    Along step Q s as := by
  induction as generalizing s with
  | nil => exact True.intro
  | cons a as ih => exact ⟨hQ s a hs h.1, ih (hstep s a hs h.1) h.2⟩

/-- Let an assumption `A` be met along a run, and let an invariant be kept by the steps that meet
`A` and `Q`. Two conditions `P` and `Q` that say the same wherever the invariant and `A` hold are
then met along the run together. -/
theorem Along.iff_of_inv {A Q : σ → α → Prop} {I : σ → Prop}
    (hstep : ∀ s a, I s → A s a → Q s a → I (step s a))
    (hiff : ∀ s a, I s → A s a → (P s a ↔ Q s a)) {s : σ} {as : List α} (hs : I s)
    (hA : Along step A s as) : Along step P s as ↔ Along step Q s as := by
  induction as generalizing s with
  | nil => exact Iff.rfl
  | cons a as ih =>
    have hnow := hiff s a hs hA.1
    constructor
    · rintro ⟨hp, hrest⟩
      exact ⟨hnow.mp hp, (ih (hstep s a hs hA.1 (hnow.mp hp)) hA.2).mp hrest⟩
    · rintro ⟨hq, hrest⟩
      exact ⟨hnow.mpr hq, (ih (hstep s a hs hA.1 hq) hA.2).mpr hrest⟩

theorem Along.congr {Q : σ → α → Prop} (h : ∀ s a, P s a ↔ Q s a) (s : σ) (as : List α) :
    Along step P s as ↔ Along step Q s as := by
  have heq : P = Q := funext fun s => funext fun a => propext (h s a)
  rw [heq]

theorem Along.trivial (s : σ) (as : List α) : Along step (fun _ _ => True) s as := by
  induction as generalizing s with
  | nil => exact True.intro
  | cons a as ih => exact ⟨True.intro, ih (step s a)⟩

theorem Along.of_forall {Q : α → Prop} {as : List α} (h : ∀ a ∈ as, Q a) (s : σ) :
    Along step (fun _ a => Q a) s as := by
  induction as generalizing s with
  | nil => exact True.intro
  | cons a as ih =>
    exact ⟨h a List.mem_cons_self, ih (fun b hb => h b (List.mem_cons_of_mem a hb)) (step s a)⟩

/-- `Along.iff_of_inv` for runs of which nothing is assumed. -/
theorem Along.iff_of_kept {Q : σ → α → Prop} {I : σ → Prop}
    (hstep : ∀ s a, I s → Q s a → I (step s a)) (hiff : ∀ s a, I s → (P s a ↔ Q s a)) {s : σ}
    {as : List α} (hs : I s) : Along step P s as ↔ Along step Q s as :=
  Along.iff_of_inv (A := fun _ _ => True) (fun s a h _ => hstep s a h) (fun s a h _ => hiff s a h)
    hs (Along.trivial s as)

theorem Along.monotone {β : Type} [Preorder β] {f : σ → β}
    (hstep : ∀ s a, P s a → f s ≤ f (step s a)) {s : σ} {as : List α} (h : Along step P s as) :
    Monotone fun i => f ((as.take i).foldl step s) := by
  induction as generalizing s with
  | nil =>
    intro i j _
    simp
  | cons a as ih =>
    have htail := ih h.2
    intro i j hij
    cases i with
    | zero =>
      cases j with
      | zero => exact le_refl _
      | succ j => exact (hstep s a h.1).trans (htail (Nat.zero_le j))
    | succ i =>
      cases j with
      | zero => exact absurd hij (Nat.not_succ_le_zero i)
      | succ j => exact htail (Nat.le_of_succ_le_succ hij)

end Along

end Gomq
