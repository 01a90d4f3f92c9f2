import Gomq.Lib.Bytes
import Gomq.Lib.Run

/-!
# The configuration reloader

`Reload` compares the modification time of the file with the one it saw last, and keeps the new one
before it loads, validates and applies the configuration. If one of these fails, the next call finds
an unchanged file and reports success. So a reported reload really happened exactly if no call finds
the file as an attempt left it that did not succeed (`reloadHonest_iff`).
-/

namespace Gomq.Reload

inductive ReloadError (E : Type) where
  | stat
  | load (e : E)
  | validate (e : E)
  | apply (e : E)

/-- What happens around one call: the loader and the applier may fail, and so may the validation. A
loader that succeeds returns the configuration that the contents stand for. -/
structure Surroundings (C E : Type) (parse : GoString → C) where
  loader : GoString → Except E C
  loader_ok : ∀ bs cfg, loader bs = .ok cfg → cfg = parse bs
  validate : C → Option E
  applier : C → Option E

/-- The reloader and the file. The zero `time.Time` is `0`. -/
structure Reloader (C : Type) where
  lastMod : ℤ
  /-- The modification time of the file, if there is one. -/
  file : Option ℤ
  /-- The configuration that was applied last. -/
  applied : Option C
  /-- Whether the last attempt to load the file came to a good end. -/
  attempt : Option Bool
  /-- How often the loader was called. -/
  loads : ℕ

def newReloader {C : Type} (file : Option ℤ) : Reloader C := ⟨0, file, none, none, 0⟩

section

variable {C E : Type} {parse : GoString → C} (content : ℤ → GoString)

def Reloader.fail (r : Reloader C) : Reloader C :=
  { r with attempt := some false, loads := r.loads + 1 }

/-- `doReload`. The contents of the file are those that belong to its modification time. -/
def doReload (call : Surroundings C E parse) (r : Reloader C) :
    Option (ReloadError E) × Reloader C :=
  match r.file with
  | none => (some .stat, r)
  | some modTime =>
    if modTime = r.lastMod then (none, r)
    else
      let r := { r with lastMod := modTime }
      match call.loader (content modTime) with
      | .error e => (some (.load e), r.fail)
      | .ok cfg =>
        match call.validate cfg with
        | some e => (some (.validate e), r.fail)
        | none =>
          match call.applier cfg with
          | some e => (some (.apply e), r.fail)
          | none =>
            (none, { r with applied := some cfg, attempt := some true, loads := r.loads + 1 })

/-- The file changes or goes away, or a reload is asked for. -/
inductive Event (C E : Type) (parse : GoString → C) where
  | change (file : Option ℤ)
  | reload (call : Surroundings C E parse)

def step (r : Reloader C) : Event C E parse → Reloader C
  | .change file => { r with file := file }
  | .reload call => (doReload content call r).2

/-- A reload that is reported has applied the present contents of the file, and a failed attempt is
made again. -/
def Honest (r : Reloader C) : Event C E parse → Prop
  | .change _ => True
  | .reload call =>
    ((doReload content call r).1 = none →
      ∃ modTime, r.file = some modTime ∧
        (doReload content call r).2.applied = some (parse (content modTime))) ∧
    (r.attempt = some false → r.file.isSome = true →
      (doReload content call r).2.loads = r.loads + 1)

/-- A reload that finds the modification time it knows finds that the last attempt succeeded. -/
def Settled (r : Reloader C) : Event C E parse → Prop
  | .change _ => True
  | .reload _ => r.file = some r.lastMod → r.attempt = some true

/-! ## One call -/

variable {content} {r : Reloader C} {call : Surroundings C E parse}

theorem doReload_none (h : r.file = none) : doReload content call r = (some .stat, r) := by
  unfold doReload
  rw [h]

theorem doReload_same (h : r.file = some r.lastMod) : doReload content call r = (none, r) := by
  unfold doReload
  rw [h]
  exact if_pos rfl

variable (content call) in
theorem doReload_changed {modTime : ℤ} (hfile : r.file = some modTime) (hne : modTime ≠ r.lastMod) :
    (doReload content call r).2.loads = r.loads + 1 ∧
      (doReload content call r).2.lastMod = modTime ∧
      (((doReload content call r).1 ≠ none ∧ (doReload content call r).2.attempt = some false) ∨
        ((doReload content call r).2.attempt = some true ∧
          (doReload content call r).2.applied = some (parse (content modTime)))) := by
  unfold doReload
  rw [hfile]
  dsimp only
  rw [if_neg hne]
  cases hload : call.loader (content modTime) with
  | error e => exact ⟨rfl, rfl, .inl ⟨nofun, rfl⟩⟩
  | ok cfg =>
    dsimp only
    cases call.validate cfg with
    | some e => exact ⟨rfl, rfl, .inl ⟨nofun, rfl⟩⟩
    | none =>
      dsimp only
      cases call.applier cfg with
      | some e => exact ⟨rfl, rfl, .inl ⟨nofun, rfl⟩⟩
      | none => exact ⟨rfl, rfl, .inr ⟨rfl, by rw [call.loader_ok _ _ hload]⟩⟩

/-! ## Runs -/

variable (content parse) in
/-- The configuration of a successful attempt is the one that is applied, and before the first
attempt there is none. -/
structure Reloader.Inv (r : Reloader C) : Prop where
  applied : r.attempt = some true → r.applied = some (parse (content r.lastMod))
  fresh : r.attempt = none → r.applied = none

theorem Reloader.Inv.step (h : r.Inv parse content) (e : Event C E parse) :
    (step content r e).Inv parse content := by
  cases e with
  | change file => exact ⟨h.applied, h.fresh⟩
  | reload call =>
    change ((doReload content call r).2).Inv parse content
    cases hfile : r.file with
    | none =>
      rw [doReload_none hfile]
      exact h
    | some modTime =>
      by_cases heq : modTime = r.lastMod
      · rw [doReload_same (heq ▸ hfile)]
        exact h
      · obtain ⟨_, hmod, hend⟩ := doReload_changed content call hfile heq
        rcases hend with ⟨_, hbad⟩ | ⟨hgood, happlied⟩
        · constructor <;> intro hattempt
          · rw [hbad] at hattempt
            cases hattempt
          · rw [hbad] at hattempt
            cases hattempt
        · constructor <;> intro hattempt
          · rw [happlied, hmod]
          · rw [hgood] at hattempt
            cases hattempt

theorem honest_iff_settled (h : r.Inv parse content) (e : Event C E parse) :
    Honest content r e ↔ Settled r e := by
  cases e with
  | change file => exact Iff.rfl
  | reload call =>
    dsimp only [Honest, Settled]
    constructor
    · rintro ⟨hreported, hagain⟩ hfile
      rw [doReload_same hfile] at hreported hagain
      cases hattempt : r.attempt with
      | none =>
        -- nothing was ever applied
        obtain ⟨_, _, happlied⟩ := hreported rfl
        rw [h.fresh hattempt] at happlied
        cases happlied
      | some ok =>
        cases ok with
        | true => rfl
        | false =>
          have hloads : r.loads = r.loads + 1 := hagain hattempt (by rw [hfile]; rfl)
          omega
    · intro hsettled
      cases hfile : r.file with
      | none =>
        rw [doReload_none hfile]
        exact ⟨nofun, fun _ => nofun⟩
      | some modTime =>
        by_cases heq : modTime = r.lastMod
        · have hsame : r.file = some r.lastMod := heq ▸ hfile
          have hok := hsettled hsame
          rw [doReload_same hsame]
          refine ⟨fun _ => ⟨modTime, rfl, heq ▸ h.applied hok⟩, fun hbad => ?_⟩
          rw [hok] at hbad
          cases hbad
        · obtain ⟨hloads, _, hend⟩ := doReload_changed content call hfile heq
          refine ⟨fun hnone => ⟨modTime, rfl, ?_⟩, fun _ _ => hloads⟩
          exact (hend.resolve_left fun hbad => hbad.1 hnone).2

end

/-- In every run of file changes and reloads, a reload that is reported has happened and a failed
one is attempted again exactly if no reload finds the file with the modification time of an attempt
that did not succeed. -/
theorem reloadHonest_iff {C E : Type} {parse : GoString → C} (content : ℤ → GoString)
    (file : Option ℤ) (events : List (Event C E parse)) :
    Along (step content) (Honest content) (newReloader file) events ↔
      Along (step content) Settled (newReloader file) events :=
  Along.iff_of_kept (fun _ e h _ => h.step e) (fun _ e h => honest_iff_settled h e)
    ⟨nofun, fun _ => rfl⟩

def unreadable : Surroundings Unit Unit fun _ => () where
  loader _ := .error ()
  loader_ok := nofun
  validate _ := none
  applier _ := none

def undisturbed : Surroundings Unit Unit fun _ => () where
  loader _ := .ok ()
  loader_ok _ _ _ := rfl
  validate _ := none
  applier _ := none

/-- After a load that failed, the next reload reports success and has applied nothing. -/
theorem reload_reports_success :
    let failed := (doReload (fun _ => []) unreadable (newReloader (some 1))).2
    (doReload (fun _ => []) undisturbed failed).1 = none ∧
      (doReload (fun _ => []) undisturbed failed).2.applied = none ∧
      ¬ Along (step fun _ => []) (Honest fun _ => []) (newReloader (some 1))
        [.reload unreadable, .reload undisturbed] := by
  refine ⟨rfl, rfl, ?_⟩
  rintro ⟨_, ⟨hreported, _⟩, _⟩
  obtain ⟨_, _, happlied⟩ := hreported rfl
  cases happlied

end Gomq.Reload
