import Gomq.Serve.Lifecycle
import Mathlib.Algebra.Group.Action.Defs
import Mathlib.Algebra.Order.BigOperators.Group.List

/-!
# After the listeners are closed

A loop may have accepted a connection that it has not counted yet when `Shutdown` comes to its
`Wait`. Only then may the wait group panic, and only as many connections as there are such loops are
served after `Shutdown` has returned (`shutdown_waits`). Once the listeners are closed, every step
of a goroutine takes something off `work`, and where no goroutine can take a step everything has
returned, if there was no panic (`shutdown_completes`).
-/

namespace Gomq.Serve

open Reload List

namespace Stopper

variable {st st' : Stopper} {wg : ℤ}

theorem work_next_lt (h : st.next wg = some st') : st'.work < st.work := by
  cases st with
  | waiting | woken => cases h; split <;> decide
  | blocked | returned | panicked => cases h
  | _ => cases h; decide

theorem work_wake_le (st : Stopper) (wg : ℤ) : (st.wake wg).work ≤ st.work := by
  unfold wake
  split
  · next h => rw [h.1]; decide
  · exact le_rfl

theorem next_returned (h : st.next wg = some .returned) : wg = 0 := by
  by_contra hne
  cases st <;> simp [next, hne] at h

/-- `Wait` only goes on at zero, if it has been woken there. -/
theorem next_settled (h : st.next wg = some st') (hst : st.work ≤ 1 → wg = 0) :
    (st'.work ≤ 1 → wg = 0) ∧ st' ≠ .panicked := by
  cases st with
  | waiting =>
    cases h
    split
    · next hzero => exact ⟨fun _ => hzero, nofun⟩
    · exact ⟨fun hle => absurd hle (by decide), nofun⟩
  | woken =>
    cases h
    rw [if_pos (hst (by decide))]
    exact ⟨fun _ => hst (by decide), nofun⟩
  | blocked | returned | panicked => cases h
  | _ => cases h; exact ⟨fun hle => absurd hle (by decide), nofun⟩

end Stopper

namespace Lifecycle

variable {F : Type} {s s' : Lifecycle F}

/-- Both listeners are closed, or are not there. -/
def Closed (s : Lifecycle F) : Prop := s.stop.work ≤ 6

instance (s : Lifecycle F) : Decidable s.Closed := Nat.decLe _ _

theorem Closed.closes (h : s.Closed) (side : Side) : s.stop.closes side = true := by
  unfold Closed at h
  cases side <;> simp [Stopper.closes] <;> omega

theorem Closed.moves (hm : s.Moves s') (h : s.Closed) : s'.Closed := by
  cases hm with
  | stop hst => exact (Stopper.work_next_lt hst).le.trans h
  | leave _ => exact (Stopper.work_wake_le _ _).trans h
  | _ => exact h

/-- What the loops have, when one of them moves. -/
theorem sum_update (f : Acceptor → ℕ) (acceptor : Side → Acceptor) (side : Side) (p : Acceptor) :
    f (Function.update acceptor side p .plain) + f (Function.update acceptor side p .tls) +
        f (acceptor side) =
      f (acceptor .plain) + f (acceptor .tls) + f p := by
  cases side <;> simp <;> omega

/-- How many loops have a connection that they have neither refused nor counted. -/
def holding (s : Lifecycle F) : ℕ :=
  (s.acceptor .plain).holds.toNat + (s.acceptor .tls).holds.toNat

theorem holding_turn {side : Side} {p : Acceptor} (h : p.holds → (s.acceptor side).holds) :
    (s.move side p).holding ≤ s.holding := by
  have hsum := sum_update (fun p => p.holds.toNat) s.acceptor side p
  have hle : p.holds.toNat ≤ (s.acceptor side).holds.toNat := Bool.toNat_le_toNat h
  simp only [holding, move] at hsum ⊢
  omega

theorem holding_add {side : Side} (h : s.acceptor side = .adding) :
    (s.move side .accepting).holding + 1 = s.holding := by
  have hsum : _ + 1 = _ + 0 := h ▸ sum_update (fun p => p.holds.toNat) s.acceptor side .accepting
  exact hsum

theorem Accounted.done_of_zero (h : s.Accounted) (hwg : s.wg = 0) {p : Conn} (hp : p ∈ s.conns) :
    p = .done := by
  rw [h.wg, Nat.cast_eq_zero] at hwg
  have hdead := countP_eq_zero.mp hwg p hp
  cases p <;> first | rfl | exact absurd rfl hdead

/-! ## Waiting for the connections -/

/-- Since `n` connections had been started and `k` loops held another one: there are no more than
these, the first `n` are done when `Shutdown` has returned, and if there were no such loops, a
`Wait` that has gone on or is about to has found the count at zero. -/
structure Awaited (n k : ℕ) (s : Lifecycle F) : Prop where
  closed : s.Closed
  start : n ≤ s.conns.length
  bound : s.conns.length + s.holding ≤ n + k
  done : s.stop = .returned → ∀ c < n, s.conns[c]? = some .done
  settled : k = 0 → (s.stop.work ≤ 1 → s.wg = 0) ∧ s.stop ≠ .panicked

section Awaited

variable {n k : ℕ}

/-- A connection that goes on from one place to another is not among those that are done. -/
theorem Awaited.setConn (h : s.Awaited n k) {c : ℕ} {p q : Conn} (hc : s.conns[c]? = some p)
    (hp : p ≠ .done) : (s.setConn c q).Awaited n k where
  closed := h.closed
  start := h.start.trans_eq length_set.symm
  bound := by
    change (s.conns.set c q).length + s.holding ≤ n + k
    rw [length_set]
    exact h.bound
  done hret c' hc' := by
    have hne : c ≠ c' := by
      rintro rfl
      exact hp (Option.some.inj (hc.symm.trans (h.done hret c hc')))
    exact (List.getElem?_set_ne hne).trans (h.done hret c' hc')
  settled := h.settled

theorem Awaited.moves (hm : s.Moves s') (hs : s.Accounted) (h : s.Awaited n k) :
    s'.Awaited n k := by
  have hclosed := h.closed.moves hm
  cases hm with
  | @accept side _ hopen => exact absurd (h.closed.closes side) (by simp [hopen])
  | turn _ _ hholds _ =>
    have hbound := (Nat.add_le_add_left (holding_turn hholds) _).trans h.bound
    exact ⟨hclosed, h.start, hbound, h.done, h.settled⟩
  | add hp =>
    have hadd := holding_add hp
    have hbound := h.bound
    have hstart := h.start
    have hlen : (s.conns ++ [Conn.starting]).length = s.conns.length + 1 := length_append
    refine ⟨hclosed, hlen ▸ hstart.step, ?_, fun hret c hc => ?_, fun hk => ?_⟩
    · change (s.conns ++ [Conn.starting]).length + (s.move _ .accepting).holding ≤ n + k
      omega
    · exact (List.getElem?_append_left (hc.trans_le hstart)).trans (h.done hret c hc)
    · exfalso
      omega
  | register hc =>
    have hset := h.setConn (q := .serving) hc (by decide)
    exact ⟨hclosed, hset.start, hset.bound, hset.done, h.settled⟩
  | serve hc => exact h.setConn hc (by decide)
  | unregister hc =>
    have hset := h.setConn (q := .leaving) hc (by decide)
    exact ⟨hclosed, hset.start, hset.bound, hset.done, h.settled⟩
  | leave hc =>
    have hset := h.setConn (q := .done) hc (by decide)
    -- the connection counts, so that only this step can bring the count to zero
    have hbusy : k = 0 → ¬ s.stop.work ≤ 1 := fun hk hle =>
      nomatch hs.done_of_zero ((h.settled hk).1 hle) (mem_of_getElem? hc)
    refine ⟨hclosed, hset.start, hset.bound, ?_, fun hk => ?_⟩
    all_goals
      simp only [leave, Stopper.wake]
      split
    · exact nofun
    · exact hset.done
    · next hzero => exact ⟨fun _ => hzero.2, nofun⟩
    · exact ⟨fun hle => absurd hle (hbusy hk), (h.settled hk).2⟩
  | stop hst =>
    refine ⟨hclosed, h.start, h.bound, ?_, fun hk => Stopper.next_settled hst (h.settled hk).1⟩
    rintro rfl c hc
    have hlt := hc.trans_le h.start
    have hdone := hs.done_of_zero (Stopper.next_returned hst) (getElem_mem hlt)
    exact (List.getElem?_eq_getElem hlt).trans (congrArg some hdone)
  | serveReturns _ r => exact ⟨hclosed, h.start, h.bound, h.done, h.settled⟩

end Awaited

/-- From when `Shutdown` comes to its `Wait`: a panic is only possible if a loop held a connection
then, and when `Shutdown` has returned, a connection that is not done was started after that, and
there are no more of these than such loops. -/
theorem shutdown_waits [GoArith F] (plain tls : Bool) (rl : Option (RateLimiter F))
    (bp : Option (BackPressure F)) (before after : List (Action F)) :
    let s := before.foldl step (start plain tls rl bp)
    let s' := after.foldl step s
    s.stop = .waiting →
      (s'.stop = .panicked → 0 < s.holding) ∧
        (s'.stop = .returned → ∀ c p, s'.conns[c]? = some p → p.live →
          s.conns.length ≤ c ∧ c < s.conns.length + s.holding) := by
  intro s s' hwait
  have hacc : s.Accounted := accounted_run plain tls rl bp before
  have hstart : s.Awaited s.conns.length s.holding := by
    refine ⟨?_, le_rfl, le_rfl, ?_, ?_⟩ <;> simp [Closed, hwait, Stopper.work]
  have hrun : s'.Accounted ∧ s'.Awaited s.conns.length s.holding :=
    run_inv (I := fun t => t.Accounted ∧ t.Awaited s.conns.length s.holding)
      (fun _ _ hm h => ⟨h.1.moves hm, h.2.moves hm h.1⟩)
      (fun _ _ _ h => ⟨⟨h.1.wg, h.1.connMap, h.1.connections, h.1.blocked⟩,
        ⟨h.2.closed, h.2.start, h.2.bound, h.2.done, h.2.settled⟩⟩) ⟨hacc, hstart⟩ after
  refine ⟨fun hpanic => ?_, fun hret c p hc hlive => ⟨?_, ?_⟩⟩
  · by_contra hidle
    exact (hrun.2.settled (Nat.eq_zero_of_not_pos hidle)).2 hpanic
  · by_contra hlt
    rw [hrun.2.done hret c (not_le.mp hlt)] at hc
    cases hc
    cases hlive
  · have hlt := (List.getElem?_eq_some_iff.mp hc).1
    have hbound := hrun.2.bound
    omega

/-- A loop that has taken a connection from `Accept` when `Shutdown` closes the listener. -/
def lateActions : List (Action ℚ) :=
  .accept .plain :: .limit .plain 0 :: List.replicate 6 .shutdown

/-- `Shutdown` has nothing to wait for and returns, and then the connection is served. -/
theorem shutdown_waits_late :
    let s := lateActions.foldl step (start true false none none)
    let s' := [.shutdown, .press .plain, .add .plain, .handleConn 0].foldl step s
    s'.stop = .returned ∧ s'.conns = [.serving] ∧ 0 < s.holding :=
  ⟨by decide, by decide, ((shutdown_waits true false none none lateActions
    [.shutdown, .press .plain, .add .plain, .handleConn 0] (by decide)).2 (by decide) 0 .serving
    (by decide) (by decide)).2.trans_eq (by decide)⟩

/-- `Shutdown` waits for one connection, and the other is counted before `Wait` goes on. -/
example :
    let acts : List (Action ℚ) := [.accept .tls, .limit .tls 0, .press .tls, .add .tls] ++
      lateActions ++ [.shutdown, .press .plain] ++ List.replicate 4 (.handleConn 0) ++
      [.add .plain, .shutdown]
    (acts.foldl step (start true true none none)).stop = .panicked := by
  decide

/-! ## The end -/

/-- A bound on the steps that the goroutines can still take. -/
def work (s : Lifecycle F) : ℕ :=
  (s.acceptor .plain).work + (s.acceptor .tls).work + (s.conns.map Conn.work).sum + s.stop.work +
    s.serve.isNone.toNat

theorem sum_work_advance {conns : List Conn} {c : ℕ} {p q : Conn} (hc : conns[c]? = some p)
    (hq : q.work + 1 = p.work) :
    ((conns.set c q).map Conn.work).sum + 1 = (conns.map Conn.work).sum := by
  induction conns generalizing c with
  | nil => cases hc
  | cons r conns ih =>
    cases c with
    | zero =>
      cases hc
      simp only [set_cons_zero, map_cons, sum_cons]
      omega
    | succ c =>
      have := ih hc
      simp only [set_cons_succ, map_cons, sum_cons]
      omega

theorem work_lt_of_moves (hm : s.Moves s') (hclosed : s.Closed) : s'.work < s.work := by
  unfold work
  cases hm with
  | @accept side _ hopen => exact absurd (hclosed.closes side) (by simp [hopen])
  | @turn side p rl errs _ hwork =>
    have hsum := sum_update Acceptor.work s.acceptor side p
    simp only [move]
    omega
  | @add side hp =>
    have hsum : _ + 7 = _ + 2 := hp ▸ sum_update Acceptor.work s.acceptor side .accepting
    have hnew : ((s.conns ++ [Conn.starting]).map Conn.work).sum =
        (s.conns.map Conn.work).sum + 4 := by
      simp [Conn.work]
    simp only [move, hnew]
    omega
  | register hc =>
    have hset := sum_work_advance (q := .serving) hc rfl
    simp only [registerConn, setConn]
    omega
  | serve hc =>
    have hset := sum_work_advance (q := .served) hc rfl
    simp only [setConn]
    omega
  | unregister hc =>
    have hset := sum_work_advance (q := .leaving) hc rfl
    simp only [unregisterConn, setConn]
    omega
  | leave hc =>
    have hset := sum_work_advance (q := .done) hc rfl
    have hwake := Stopper.work_wake_le s.stop (s.wg - 1)
    simp only [leave, setConn]
    omega
  | stop hst =>
    have hstop := Stopper.work_next_lt hst
    simp only
    omega
  | serveReturns hnone r => simp [hnone]

structure Finished (s : Lifecycle F) : Prop where
  loops : ∀ side, (s.acceptor side).gone = true
  conns : ∀ p ∈ s.conns, p = .done
  shutdown : s.stop = .returned
  serve : s.serve ≠ none

/-- Where no goroutine can take a step, none has one left to take. -/
theorem finished_of_stuck [GoArith F] (hs : s.Accounted) (hcalm : s.stop ≠ .panicked)
    (h : ∀ a, ¬ s.Able a) : s.Finished := by
  have hgone : ∀ side, (s.acceptor side).gone = true := by
    intro side
    cases hp : s.acceptor side with
    | absent | returned => rfl
    | accepting => exact absurd (by simp [Able, next, hcalm, hp]) (h (.acceptFails side))
    | limiting =>
      refine absurd ?_ (h (.limit side 0))
      cases hrl : s.rateLimiter <;> simp [Able, next, hcalm, hp, hrl]
    | pressing => exact absurd (by simp [Able, next, hcalm, hp]) (h (.press side))
    | adding => exact absurd (by simp [Able, next, hcalm, hp]) (h (.add side))
    | failed => exact absurd (by simp [Able, next, hcalm, hp]) (h (.readClosed side))
  have hconns : ∀ p ∈ s.conns, p = .done := by
    intro p hp
    obtain ⟨c, hc⟩ := mem_iff_getElem?.mp hp
    have hstuck := h (.handleConn c)
    cases p with
    | done => rfl
    | _ => exact absurd (by simp [Able, next, hcalm, hc]) hstuck
  have hwg : s.wg = 0 := by
    rw [hs.wg, Nat.cast_eq_zero]
    refine countP_eq_zero.mpr fun p hp => ?_
    rw [hconns p hp]
    decide
  refine ⟨hgone, hconns, ?_, ?_⟩
  · have hstuck := h .shutdown
    cases hst : s.stop with
    | returned => rfl
    | blocked => exact absurd hwg (hs.blocked hst)
    | panicked => exact absurd hst hcalm
    | _ => exact absurd (by simp [Able, next, hst, Stopper.next]) hstuck
  · intro hnone
    exact h .serveReturns (by simp [Able, next, hcalm, hnone, hgone])

theorem moves_of_able [GoArith F] {a : Action F} (h : s.Able a) : s.Moves (s.step a) := by
  have hcalm : s.stop ≠ .panicked := by cases a <;> first | exact h.1 | cases h
  cases hnext : s.next a with
  | none => cases a <;> simp [Able, hnext] at h
  | some s' =>
    rcases moves_of_next hnext with hm | ⟨now, cfg, rfl, -⟩
    · rwa [step, if_neg hcalm, hnext]
    · cases h

theorem work_le (hclosed : s.Closed) : s.work ≤ 4 * s.conns.length + 25 := by
  have hloop : ∀ p : Acceptor, p.work ≤ 9 := fun p => by cases p <;> decide
  have hconn : ∀ p : Conn, p.work ≤ 4 := fun p => by cases p <;> decide
  have hsum := sum_le_card_nsmul (s.conns.map Conn.work) 4 (by simpa using fun p _ => hconn p)
  have hplain := hloop (s.acceptor .plain)
  have htls := hloop (s.acceptor .tls)
  have hserve := Bool.toNat_le s.serve.isNone
  unfold Closed at hclosed
  unfold work
  rw [length_map, smul_eq_mul] at hsum
  omega

/-- From when the listeners are closed, the goroutines take at most four steps for each connection
and a few more, in whatever order, and where they can take none everything has come to its end or
`Shutdown` has panicked. -/
theorem shutdown_completes [GoArith F] (plain tls : Bool) (rl : Option (RateLimiter F))
    (bp : Option (BackPressure F)) (before after : List (Action F)) :
    let s := before.foldl step (start plain tls rl bp)
    s.Closed → Along step Able s after →
      after.length ≤ 4 * s.conns.length + 25 ∧
        ((∀ a, ¬ (after.foldl step s).Able a) →
          (after.foldl step s).Finished ∨ (after.foldl step s).stop = .panicked) := by
  intro s hclosed hable
  refine ⟨?_, fun hstuck => ?_⟩
  · refine le_trans ?_ (work_le hclosed)
    clear_value s
    induction after generalizing s with
    | nil => exact Nat.zero_le _
    | cons a after ih =>
      have hm := moves_of_able hable.1
      have hrest := ih (s.step a) (hclosed.moves hm) hable.2
      exact hrest.trans_lt (work_lt_of_moves hm hclosed)
  · refine or_iff_not_imp_right.mpr fun hcalm => finished_of_stuck ?_ hcalm hstuck
    rw [← foldl_append]
    exact accounted_run plain tls rl bp (before ++ after)

/-- The late connection, to its end. -/
theorem shutdown_completes_late :
    let after : List (Action ℚ) := [.press .plain, .add .plain, .acceptFails .plain,
      .readClosed .plain, .serveReturns, .handleConn 0, .handleConn 0, .handleConn 0, .handleConn 0,
      .shutdown]
    let s := lateActions.foldl step (start true false none none)
    s.Closed ∧ after.length ≤ 4 * s.conns.length + 25 ∧ (after.foldl step s).conns = [.done] :=
  ⟨by decide, (shutdown_completes true false none none lateActions _ (by decide)
    (by simp [Along, Able]; decide)).1, by decide⟩

end Lifecycle

end Gomq.Serve
