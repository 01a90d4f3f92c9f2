import Gomq.Lib.Run
import Gomq.Reload.RateLimiter
import Mathlib.Data.Finset.Card

/-!
# Serving and shutting down

`Serve` runs a loop for each listener, which accepts connections, asks the rate limiter and the
memory check, counts the connection in the wait group and starts a goroutine for it. `Shutdown` sets
a flag, closes the listeners, stops the pipeline, the workers and the flusher, and waits until the
count is zero. It does not close connections. A wait group that is in use again before its `Wait`
has gone on panics, and no goroutine takes a step after that.

A step is one operation of one goroutine on what they share, in any order; a goroutine that cannot
take the step it is asked to take stays where it is. What a client does on its connection is one
step here, and the stops of the pipeline, the workers and the flusher are steps that always end. The
count, the map of connections and the gauge are always what the goroutines make them
(`accounting_run`).
-/

namespace Gomq.Serve

open Reload

inductive Side where
  | plain
  | tls
  deriving DecidableEq

/-- Where `serveListener` is. -/
inductive Acceptor where
  /-- there is no such listener -/
  | absent
  | accepting
  /-- with a connection, before the rate limiter -/
  | limiting
  /-- before the memory check -/
  | pressing
  /-- before `s.wg.Add(1)` -/
  | adding
  /-- `Accept` has returned an error -/
  | failed
  | returned
  deriving DecidableEq

namespace Acceptor

/-- The loop has a connection that it has neither refused nor counted yet. -/
def holds : Acceptor → Bool
  | .limiting | .pressing | .adding => true
  | _ => false

def gone : Acceptor → Bool
  | .absent | .returned => true
  | _ => false

/-- How many steps there are until the loop has returned and its connection is done. -/
def work : Acceptor → ℕ
  | .absent | .returned => 0
  | .failed => 1
  | .accepting => 2
  | .adding => 7
  | .pressing => 8
  | .limiting => 9

end Acceptor

/-- Where `handleConn` is. -/
inductive Conn where
  /-- before `registerConn` -/
  | starting
  | serving
  /-- before `unregisterConn` -/
  | served
  /-- before `s.wg.Done()` -/
  | leaving
  | done
  deriving DecidableEq

namespace Conn

def work : Conn → ℕ
  | .starting => 4
  | .serving => 3
  | .served => 2
  | .leaving => 1
  | .done => 0

def live (p : Conn) : Bool := 0 < p.work

def registered : Conn → Bool
  | .serving | .served => true
  | _ => false

end Conn

/-- Where `Shutdown` is. -/
inductive Stopper where
  | notCalled
  /-- `s.closed` is set -/
  | flagged
  | plainClosed
  /-- both listeners are closed -/
  | closed
  | pipelineStopped
  | workersStopped
  /-- before `s.wg.Wait()` -/
  | waiting
  /-- in `Wait`, for a count that is not zero -/
  | blocked
  /-- the count has come to zero, and `Wait` is to go on -/
  | woken
  | returned
  | panicked
  deriving DecidableEq

namespace Stopper

def work : Stopper → ℕ
  | .notCalled => 9
  | .flagged => 8
  | .plainClosed => 7
  | .closed => 6
  | .pipelineStopped => 5
  | .workersStopped => 4
  | .waiting => 3
  | .blocked => 2
  | .woken => 1
  | .returned | .panicked => 0

/-- The next step, where `wg` is the count of the wait group. -/
def next (wg : ℤ) : Stopper → Option Stopper
  | .notCalled => some .flagged
  | .flagged => some .plainClosed
  | .plainClosed => some .closed
  | .closed => some .pipelineStopped
  | .pipelineStopped => some .workersStopped
  | .workersStopped => some .waiting
  | .waiting => some (if wg = 0 then .returned else .blocked)
  | .woken => some (if wg = 0 then .returned else .panicked)
  | .blocked | .returned | .panicked => none

/-- `Done` has left the count at `wg`. -/
def wake (st : Stopper) (wg : ℤ) : Stopper := if st = .blocked ∧ wg = 0 then .woken else st

def closes (st : Stopper) : Side → Bool
  | .plain => st.work ≤ 7
  | .tls => st.work ≤ 6

end Stopper

inductive ServeError where
  /-- `no listener` -/
  | noListener
  /-- what `Accept` of the listener returned -/
  | accept (side : Side)
  deriving DecidableEq

/-- The part of the server that its goroutines share. A connection is known by its number in the
order in which `handleConn` was started. -/
structure Lifecycle (F : Type) where
  acceptor : Side → Acceptor
  conns : List Conn
  wg : ℤ
  connMap : Finset ℕ
  /-- the gauge of the metrics -/
  connections : ℤ
  rateLimiter : Option (RateLimiter F)
  backPressure : Option (BackPressure F)
  stop : Stopper
  errCh : List Side
  /-- what `Serve` has returned -/
  serve : Option (Option ServeError)

inductive Action (F : Type) where
  | accept (side : Side)
  | acceptFails (side : Side)
  | limit (side : Side) (now : ℕ)
  | press (side : Side)
  | add (side : Side)
  | readClosed (side : Side)
  | handleConn (c : ℕ)
  | shutdown
  | serveReturns
  | reloadConfig (now : ℕ) (cfg : Config F)

variable {F : Type}

def canAccept (bp : BackPressure F) : Bool := !bp.enabled || !bp.paused

namespace Lifecycle

/-- `Serve` has started the loops of the listeners there are. -/
def start (plain tls : Bool) (rl : Option (RateLimiter F)) (bp : Option (BackPressure F)) :
    Lifecycle F where
  acceptor
    | .plain => if plain then .accepting else .absent
    | .tls => if tls then .accepting else .absent
  conns := []
  wg := 0
  connMap := ∅
  connections := 0
  rateLimiter := rl
  backPressure := bp
  stop := .notCalled
  errCh := []
  serve := if plain || tls then none else some (some .noListener)

def move (s : Lifecycle F) (side : Side) (p : Acceptor) : Lifecycle F :=
  { s with acceptor := Function.update s.acceptor side p }

def setConn (s : Lifecycle F) (c : ℕ) (p : Conn) : Lifecycle F :=
  { s with conns := s.conns.set c p }

def registerConn (s : Lifecycle F) (c : ℕ) : Lifecycle F :=
  { s.setConn c .serving with connMap := insert c s.connMap, connections := s.connections + 1 }

def unregisterConn (s : Lifecycle F) (c : ℕ) : Lifecycle F :=
  { s.setConn c .leaving with connMap := s.connMap.erase c, connections := s.connections - 1 }

def leave (s : Lifecycle F) (c : ℕ) : Lifecycle F :=
  { s.setConn c .done with wg := s.wg - 1, stop := s.stop.wake (s.wg - 1) }

/-- The state after a step, if the goroutine can take it. -/
def next [GoArith F] (s : Lifecycle F) : Action F → Option (Lifecycle F)
  | .accept side =>
    if s.acceptor side = .accepting ∧ s.stop.closes side = false then
      some (s.move side .limiting)
    else none
  | .acceptFails side =>
    if s.acceptor side = .accepting then some (s.move side .failed) else none
  | .limit side now =>
    if s.acceptor side = .limiting then
      match s.rateLimiter with
      | none => some (s.move side .pressing)
      | some rl =>
        let (ok, rl) := rl.allow now
        some { s.move side (if ok then .pressing else .accepting) with rateLimiter := some rl }
    else none
  | .press side =>
    if s.acceptor side = .pressing then
      some (s.move side (if s.backPressure.all canAccept then .adding else .accepting))
    else none
  | .add side =>
    if s.acceptor side = .adding then
      some { s.move side .accepting with wg := s.wg + 1, conns := s.conns ++ [.starting] }
    else none
  | .readClosed side =>
    if s.acceptor side = .failed then
      some { s.move side .returned with
        errCh := if s.stop = .notCalled then s.errCh ++ [side] else s.errCh }
    else none
  | .handleConn c =>
    match s.conns[c]? with
    | some .starting => some (s.registerConn c)
    | some .serving => some (s.setConn c .served)
    | some .served => some (s.unregisterConn c)
    | some .leaving => some (s.leave c)
    | _ => none
  | .shutdown => (s.stop.next s.wg).map fun st => { s with stop := st }
  | .serveReturns =>
    if s.serve = none ∧ (s.acceptor .plain).gone ∧ (s.acceptor .tls).gone then
      some { s with serve := some (s.errCh.head?.map .accept) }
    else none
  | .reloadConfig now cfg =>
    some { s with rateLimiter := rateLimiterOf now cfg, backPressure := backPressureOf cfg }

def step [GoArith F] (s : Lifecycle F) (a : Action F) : Lifecycle F :=
  if s.stop = .panicked then s else (s.next a).getD s

/-- The configuration and the answers of the rate limiter apart, what a step does. -/
inductive Moves (s : Lifecycle F) : Lifecycle F → Prop
  | accept {side} (h : s.acceptor side = .accepting) (hopen : s.stop.closes side = false) :
    Moves s (s.move side .limiting)
  | turn {side p} (rl errs) (hholds : p.holds → (s.acceptor side).holds)
      (hwork : p.work < (s.acceptor side).work) :
    Moves s { s.move side p with rateLimiter := rl, errCh := errs }
  | add {side} (h : s.acceptor side = .adding) :
    Moves s { s.move side .accepting with wg := s.wg + 1, conns := s.conns ++ [.starting] }
  | register {c} (h : s.conns[c]? = some .starting) : Moves s (s.registerConn c)
  | serve {c} (h : s.conns[c]? = some .serving) : Moves s (s.setConn c .served)
  | unregister {c} (h : s.conns[c]? = some .served) : Moves s (s.unregisterConn c)
  | leave {c} (h : s.conns[c]? = some .leaving) : Moves s (s.leave c)
  | stop {st} (h : s.stop.next s.wg = some st) : Moves s { s with stop := st }
  | serveReturns (h : s.serve = none) (r) : Moves s { s with serve := some r }

/-- A goroutine does something. Reloading the configuration is not counted. -/
def Able [GoArith F] (s : Lifecycle F) : Action F → Prop
  | .reloadConfig _ _ => False
  | a => s.stop ≠ .panicked ∧ (s.next a).isSome

theorem moves_of_next [GoArith F] {s s' : Lifecycle F} {a : Action F} (h : s.next a = some s') :
    s.Moves s' ∨ ∃ now cfg, a = .reloadConfig now cfg ∧
      s' = { s with rateLimiter := rateLimiterOf now cfg, backPressure := backPressureOf cfg } := by
  -- a loop that is at `p` and goes on to `q` without a new connection
  have turn : ∀ {side p} (q rl errs), s.acceptor side = p → (q.holds → p.holds) → q.work < p.work →
      s.Moves { s.move side q with rateLimiter := rl, errCh := errs } := by
    rintro side p q rl errs rfl hholds hwork
    exact .turn rl errs hholds hwork
  cases a with
  | accept side =>
    obtain ⟨⟨hp, hopen⟩, h⟩ := Option.ite_none_right_eq_some.mp h
    cases h
    exact .inl (.accept hp hopen)
  | acceptFails side =>
    obtain ⟨hp, h⟩ := Option.ite_none_right_eq_some.mp h
    cases h
    exact .inl (turn .failed s.rateLimiter s.errCh hp (by decide) (by decide))
  | limit side now =>
    obtain ⟨hp, h⟩ := Option.ite_none_right_eq_some.mp h
    left
    split at h
    · cases h
      exact turn .pressing s.rateLimiter s.errCh hp (by decide) (by decide)
    · cases h
      refine turn _ _ s.errCh hp (fun _ => rfl) ?_
      split <;> decide
  | press side =>
    obtain ⟨hp, h⟩ := Option.ite_none_right_eq_some.mp h
    cases h
    refine .inl (turn _ s.rateLimiter s.errCh hp (fun _ => rfl) ?_)
    split <;> decide
  | add side =>
    obtain ⟨hp, h⟩ := Option.ite_none_right_eq_some.mp h
    cases h
    exact .inl (.add hp)
  | readClosed side =>
    obtain ⟨hp, h⟩ := Option.ite_none_right_eq_some.mp h
    cases h
    exact .inl (turn .returned s.rateLimiter _ hp (by decide) (by decide))
  | handleConn c =>
    left
    simp only [next] at h
    split at h
    · next hp => cases h; exact .register hp
    · next hp => cases h; exact .serve hp
    · next hp => cases h; exact .unregister hp
    · next hp => cases h; exact .leave hp
    · cases h
  | shutdown =>
    obtain ⟨st, hst, rfl⟩ := Option.map_eq_some_iff.mp h
    exact .inl (.stop hst)
  | serveReturns =>
    obtain ⟨hp, h⟩ := Option.ite_none_right_eq_some.mp h
    cases h
    exact .inl (.serveReturns hp.1 _)
  | reloadConfig now cfg =>
    cases h
    exact .inr ⟨now, cfg, rfl, rfl⟩

/-- An invariant that is kept by what goroutines do and that does not look at the configuration
holds in every run. -/
theorem run_inv [GoArith F] {I : Lifecycle F → Prop} (hmoves : ∀ s s', s.Moves s' → I s → I s')
    (hconfig : ∀ s rl bp, I s → I { s with rateLimiter := rl, backPressure := bp })
    {s : Lifecycle F} (hs : I s) (acts : List (Action F)) : I (acts.foldl step s) := by
  refine acts.foldlRecOn step hs fun s h a _ => ?_
  unfold step
  split
  · exact h
  · cases hnext : s.next a with
    | none => exact h
    | some s' =>
      rcases moves_of_next hnext with hm | ⟨now, cfg, -, rfl⟩
      · exact hmoves s s' hm h
      · exact hconfig s _ _ h

/-! ## The count, the map and the gauge -/

theorem countP_set_add {conns : List Conn} {c : ℕ} {p : Conn} (hc : conns[c]? = some p) (q : Conn) :
    (conns.set c q).countP Conn.live + p.live.toNat = conns.countP Conn.live + q.live.toNat := by
  obtain ⟨hlt, rfl⟩ := List.getElem?_eq_some_iff.mp hc
  have hpos : conns[c].live = true → 0 < conns.countP Conn.live :=
    fun h => List.countP_pos_iff.mpr ⟨_, List.getElem_mem hlt, h⟩
  rw [List.countP_set hlt]
  cases hp : conns[c].live with
  | false => cases q.live <;> simp
  | true =>
    have := hpos hp
    cases q.live <;> simp <;> omega

/-- The wait group counts the connections in `handleConn`, the map has those between
`registerConn` and `unregisterConn`, the gauge shows how many these are, and only a count that is
not zero blocks `Shutdown`. -/
structure Accounted (s : Lifecycle F) : Prop where
  wg : s.wg = s.conns.countP Conn.live
  connMap : ∀ c, c ∈ s.connMap ↔ ∃ p, s.conns[c]? = some p ∧ p.registered
  connections : s.connections = s.connMap.card
  blocked : s.stop = .blocked → s.wg ≠ 0

section Accounted

variable {s : Lifecycle F} {c : ℕ} {p q : Conn}

theorem registered_set_iff (hc : s.conns[c]? = some p) (c' : ℕ) :
    (∃ r, (s.conns.set c q)[c']? = some r ∧ r.registered) ↔
      if c' = c then q.registered = true else ∃ r, s.conns[c']? = some r ∧ r.registered := by
  rw [List.getElem?_set]
  have hlt := (List.getElem?_eq_some_iff.mp hc).1
  by_cases heq : c' = c
  · subst heq
    simp [hlt]
  · simp [heq, Ne.symm heq]

theorem Accounted.mem_iff (h : s.Accounted) (hc : s.conns[c]? = some p) :
    c ∈ s.connMap ↔ p.registered = true := by
  simp [h.connMap c, hc]

theorem Accounted.setConn (h : s.Accounted) (hc : s.conns[c]? = some p)
    (hreg : q.registered = p.registered) {wg : ℤ}
    (hwg : wg + p.live.toNat = s.wg + q.live.toNat) {st : Stopper}
    (hst : st = .blocked → wg ≠ 0) :
    Accounted { s.setConn c q with wg := wg, stop := st } where
  wg := by
    have hcount := countP_set_add hc q
    have hold := h.wg
    change wg = ((s.conns.set c q).countP Conn.live : ℤ)
    omega
  connMap c' := by
    refine Iff.trans ?_ (registered_set_iff hc c').symm
    change c' ∈ s.connMap ↔ _
    split
    · next heq => rw [heq, hreg, h.mem_iff hc]
    · exact h.connMap c'
  connections := h.connections
  blocked := hst

theorem Accounted.register (h : s.Accounted) (hc : s.conns[c]? = some .starting) :
    (s.registerConn c).Accounted where
  wg := (h.wg.trans (congrArg Nat.cast (Nat.add_right_cancel (countP_set_add hc .serving)).symm))
  connMap c' := by
    refine Iff.trans ?_ (registered_set_iff hc c').symm
    change c' ∈ insert c s.connMap ↔ _
    rw [Finset.mem_insert]
    split
    · next heq => simp [heq, Conn.registered]
    · next hne => simp [hne, h.connMap c']
  connections := by
    have hnew : c ∉ s.connMap := fun hmem => nomatch (h.mem_iff hc).mp hmem
    change s.connections + 1 = ((insert c s.connMap).card : ℤ)
    rw [Finset.card_insert_of_notMem hnew, h.connections, Nat.cast_succ]
  blocked := h.blocked

theorem Accounted.unregister (h : s.Accounted) (hc : s.conns[c]? = some .served) :
    (s.unregisterConn c).Accounted where
  wg := (h.wg.trans (congrArg Nat.cast (Nat.add_right_cancel (countP_set_add hc .leaving)).symm))
  connMap c' := by
    refine Iff.trans ?_ (registered_set_iff hc c').symm
    change c' ∈ s.connMap.erase c ↔ _
    rw [Finset.mem_erase]
    split
    · next heq => simp [heq, Conn.registered]
    · next hne => simp [hne, h.connMap c']
  connections := by
    have hmem : c ∈ s.connMap := (h.mem_iff hc).mpr rfl
    have hcard := Finset.card_erase_add_one hmem
    have hold := h.connections
    change s.connections - 1 = ((s.connMap.erase c).card : ℤ)
    omega
  blocked := h.blocked

theorem Accounted.add (h : s.Accounted) (side : Side) :
    Accounted
      { s.move side .accepting with wg := s.wg + 1, conns := s.conns ++ [Conn.starting] } where
  wg := by
    change s.wg + 1 = ((s.conns ++ [Conn.starting]).countP Conn.live : ℤ)
    rw [List.countP_append, h.wg]
    rfl
  connMap c := by
    refine (h.connMap c).trans ?_
    change _ ↔ ∃ p, (s.conns ++ [Conn.starting])[c]? = some p ∧ _
    rcases lt_or_ge c s.conns.length with hc | hc
    · rw [List.getElem?_append_left hc]
    · rw [List.getElem?_append_right hc, List.getElem?_eq_none hc]
      cases c - s.conns.length <;> simp [Conn.registered]
  connections := h.connections
  blocked _ := by
    have hold := h.wg
    change s.wg + 1 ≠ 0
    omega

theorem wake_blocked {st : Stopper} {wg : ℤ} (h : st.wake wg = .blocked) : wg ≠ 0 := by
  unfold Stopper.wake at h
  split at h
  · cases h
  · next hnot => exact fun hzero => hnot ⟨h, hzero⟩

theorem next_zero_ne_blocked (st : Stopper) : st.next 0 ≠ some .blocked := by
  cases st <;> decide

theorem Accounted.moves {s' : Lifecycle F} (hm : s.Moves s') (h : s.Accounted) :
    s'.Accounted := by
  cases hm with
  | accept _ _ => exact ⟨h.wg, h.connMap, h.connections, h.blocked⟩
  | turn rl errs _ _ => exact ⟨h.wg, h.connMap, h.connections, h.blocked⟩
  | add _ => exact h.add _
  | register hc => exact h.register hc
  | serve hc => exact h.setConn (q := .served) hc rfl rfl h.blocked
  | unregister hc => exact h.unregister hc
  | leave hc =>
    exact h.setConn (q := .done) hc rfl (by simp [Conn.live, Conn.work]) wake_blocked
  | @stop st hst =>
    refine ⟨h.wg, h.connMap, h.connections, ?_⟩
    rintro rfl hzero
    exact next_zero_ne_blocked s.stop (hzero ▸ hst)
  | serveReturns _ r => exact ⟨h.wg, h.connMap, h.connections, h.blocked⟩

end Accounted

theorem accounted_run [GoArith F] (plain tls : Bool) (rl : Option (RateLimiter F))
    (bp : Option (BackPressure F)) (acts : List (Action F)) :
    (acts.foldl step (start plain tls rl bp)).Accounted :=
  run_inv (fun _ _ hm h => h.moves hm) (fun _ _ _ h => ⟨h.wg, h.connMap, h.connections, h.blocked⟩)
    ⟨rfl, fun c => by simp [start], rfl, nofun⟩ acts

/-- Whatever the order of the steps, the wait group is the number of connections in `handleConn`,
the map has those that are registered and not yet unregistered, and the gauge is their number. -/
theorem accounting_run [GoArith F] (plain tls : Bool) (rl : Option (RateLimiter F))
    (bp : Option (BackPressure F)) (acts : List (Action F)) :
    let s := acts.foldl step (start plain tls rl bp)
    s.wg = s.conns.countP Conn.live ∧
      (∀ c, c ∈ s.connMap ↔ ∃ p, s.conns[c]? = some p ∧ p.registered) ∧
      s.connections = s.connMap.card :=
  have h := accounted_run plain tls rl bp acts
  ⟨h.wg, h.connMap, h.connections⟩

end Lifecycle

end Gomq.Serve
