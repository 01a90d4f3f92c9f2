import Gomq.Pool.WorkerPool

/-!
# How often a job runs

Where the `Submit` of a job is says how often the job was started, unless it returned with the job
in the queue (`JobOk`); the job is then in the queue, with one worker, or done (`Inv`). A job is
started twice exactly if the handler of `Submit` recovers from the job's own panic. Apart from that
every job is started at most once, and a job that was submitted before `Stop` and did not panic has
been executed once when `Stop` returns (`jobsOnce_iff`).
-/

namespace Gomq.Pool

open WorkerPool List

variable {n : Setup}

/-! ## One job -/

namespace Submitter

/-- How often a job was started that is not in the hands of the workers. -/
def started : Submitter → ℕ
  | .running | .returned .ran => 1
  | .recovering own => own.toNat
  | .handling own | .escaped own | .returned (.handled own) => 1 + own.toNat
  | _ => 0

def completed : Submitter → ℕ
  | .returned .ran | .returned (.handled _) => 1
  | _ => 0

def own : Submitter → Bool
  | .recovering own | .handling own | .escaped own | .returned (.handled own) => own
  | _ => false

/-- The handler is at work because the queue is closed. -/
def afterClose : Submitter → Bool
  | .recovering own | .handling own => !own
  | _ => false

def again : Submitter → Bool
  | .handling own | .escaped own | .returned (.handled own) => own
  | _ => false

theorem started_le_one_iff (place : Submitter) : place.started ≤ 1 ↔ place.again = false := by
  cases place with
  | idle => decide
  | checking => decide
  | selecting => decide
  | running => decide
  | recovering own => cases own <;> decide
  | handling own => cases own <;> decide
  | escaped own => cases own <;> decide
  | returned how =>
    cases how with
    | refused => decide
    | queued => decide
    | dropped => decide
    | ran => decide
    | handled own => cases own <;> decide

end Submitter

/-- What holds for every job, while `Stop` is where it is. -/
structure JobOk (stop : Stopper) (x : Job) : Prop where
  counts : x.submit ≠ .returned .queued →
    x.starts = x.submit.started ∧ x.executed = x.submit.completed
  own : x.submit.own = true → x.panicked = true
  closed : x.submit.afterClose = true → stop.queueClosed = true
  early : x.early = true → x.submit = .returned .queued ∨ x.submit = .returned .ran ∨
    x.submit = .returned (.handled true)

section

variable {stop : Stopper} {j : ℕ} {x y : Job} {a : Action n}

theorem JobStep.old_ne (h : JobStep stop j x a y) : x.submit ≠ .returned .queued := by
  cases h <;> simp_all

theorem JobStep.new_ne (h : JobStep stop j x a y) : y.submit ≠ .returned .queued := by
  cases h <;> simp [Job.enter, Job.ret]

theorem JobOk.not_early (h : JobOk stop x) (hne : ∀ how, x.submit ≠ .returned how) :
    x.early = false := by
  by_contra hearly
  rcases h.early (Bool.eq_true_of_not_eq_false hearly) with h' | h' | h'
  · exact hne _ h'
  · exact hne _ h'
  · exact hne _ h'

theorem jobOk_enter {place : Submitter} (hearly : x.early = false)
    (hstarts : x.starts = place.started) (hexecuted : x.executed = place.completed)
    (hown : place.own = true → x.panicked = true)
    (hclosed : place.afterClose = true → stop.queueClosed = true) : JobOk stop (x.enter place) where
  counts _ := ⟨hstarts, hexecuted⟩
  own := hown
  closed := hclosed
  early h := absurd h (by simp [Job.enter, hearly])

theorem jobOk_ret {how : Returned} (hstarts : x.starts = (Submitter.returned how).started)
    (hexecuted : x.executed = (Submitter.returned how).completed)
    (hown : (Submitter.returned how).own = true → x.panicked = true)
    (hearly : stop = .notCalled → how = .ran ∨ how = .handled true) :
    JobOk stop (x.ret stop how) where
  counts _ := ⟨hstarts, hexecuted⟩
  own := hown
  closed h := by cases h
  early h := by
    rcases hearly (beq_iff_eq.mp h) with rfl | rfl
    · exact .inr (.inl rfl)
    · exact .inr (.inr rfl)

theorem JobOk.step (h : JobOk stop x) (hs : JobStep stop j x a y) : JobOk stop y := by
  obtain ⟨hstarts, hexecuted⟩ := h.counts hs.old_ne
  have hown := h.own
  have hclosed := h.closed
  have hearly : (∀ how, x.submit ≠ .returned how) → x.early = false := h.not_early
  cases hs with
  | call hx | pass hx =>
    rw [hx] at hstarts hexecuted
    exact jobOk_enter (hearly (by simp [hx])) hstarts hexecuted nofun nofun
  | refuse hx hflag =>
    rw [hx] at hstarts hexecuted
    refine jobOk_ret hstarts hexecuted nofun ?_
    rintro rfl
    cases hflag
  | sendPanics hx hclosed =>
    rw [hx] at hstarts hexecuted
    exact jobOk_enter (hearly (by simp [hx])) hstarts hexecuted nofun fun _ => hclosed
  | drop hx hdone =>
    rw [hx] at hstarts hexecuted
    refine jobOk_ret hstarts hexecuted nofun ?_
    rintro rfl
    cases hdone
  | runInline hx =>
    rw [hx] at hstarts hexecuted
    exact jobOk_enter (hearly (by simp [hx])) (congrArg (· + 1) hstarts) hexecuted nofun nofun
  | ran hx =>
    rw [hx] at hstarts hexecuted
    exact jobOk_ret hstarts (congrArg (· + 1) hexecuted) nofun fun _ => .inl rfl
  | @handled own hx =>
    rw [hx] at hstarts hexecuted hown hclosed
    refine jobOk_ret hstarts (congrArg (· + 1) hexecuted) hown ?_
    -- the handler is at work for a closed queue or for the job's own panic
    rintro rfl
    cases own with
    | true => exact .inr rfl
    | false => cases hclosed rfl
  | panics hx | escapes hx =>
    rw [hx] at hstarts hexecuted
    exact jobOk_enter (hearly (by simp [hx])) hstarts hexecuted (fun _ => rfl) nofun
  | @recovers own hx =>
    rw [hx] at hstarts hexecuted hown hclosed
    refine jobOk_enter (hearly (by simp [hx])) ?_ hexecuted hown hclosed
    change x.starts + 1 = 1 + own.toNat
    rw [hstarts, Nat.add_comm]
    rfl

theorem jobOk_queued (h : x.submit = .returned .queued) : JobOk stop x where
  counts hne := absurd h hne
  own := by simp [h, Submitter.own]
  closed := by simp [h, Submitter.afterClose]
  early _ := .inl h

theorem queueClosed_next (h : stop.queueClosed = true) : stop.next.queueClosed = true := by
  cases stop <;> first | rfl | cases h

theorem JobOk.next (h : JobOk stop x) : JobOk stop.next x :=
  ⟨h.counts, h.own, fun hx => queueClosed_next (h.closed hx), h.early⟩

end

/-! ## All jobs -/

/-- Where the jobs are that were put into the queue. -/
structure Inv (p : WorkerPool n) : Prop where
  jobs : ∀ j, JobOk p.stop (p.jobs j)
  nodup : p.queue.Nodup
  queued : ∀ j ∈ p.queue, (p.jobs j).submit = .returned .queued ∧ (p.jobs j).starts = 0 ∧
    (p.jobs j).executed = 0
  running : ∀ w j, p.workers w = .running j → (p.jobs j).submit = .returned .queued ∧
    (p.jobs j).starts = 1 ∧ (p.jobs j).executed = 0
  one : ∀ v w j, p.workers v = .running j → p.workers w = .running j → v = w
  settled : ∀ j, (p.jobs j).submit = .returned .queued → j ∈ p.queue ∨
    (∃ w, p.workers w = .running j) ∨ (p.jobs j).starts = 1 ∧ (p.jobs j).executed = 1
  exited : ∀ w, p.workers w = .exited → p.queue = [] ∧ p.stop.queueClosed = true
  returned : p.stop = .returned → ∀ w, p.workers w = .exited

namespace Inv

variable {p : WorkerPool n} {j : ℕ} {w : Fin n.workers}

theorem setJob (h : Inv p) {x : Job} (hold : (p.jobs j).submit ≠ .returned .queued)
    (hnew : x.submit ≠ .returned .queued) (hx : JobOk p.stop x) : Inv (p.setJob j x) := by
  have hne {i : ℕ} (hi : (p.jobs i).submit = .returned .queued) : i ≠ j := by
    rintro rfl
    exact hold hi
  constructor
  case jobs => exact p.forall_setJob h.jobs hx
  case nodup => exact h.nodup
  case queued =>
    intro i hi
    rw [setJob_jobs_of_ne p x (hne (h.queued i hi).1)]
    exact h.queued i hi
  case running =>
    intro v i hv
    rw [setJob_jobs_of_ne p x (hne (h.running v i hv).1)]
    exact h.running v i hv
  case one => exact h.one
  case settled =>
    intro i hi
    by_cases hij : i = j
    · subst hij
      rw [setJob_jobs_self] at hi
      exact absurd hi hnew
    · rw [setJob_jobs_of_ne p x hij] at hi ⊢
      exact h.settled i hi
  case exited => exact h.exited
  case returned => exact h.returned

theorem send (h : Inv p) (hj : (p.jobs j).submit = .selecting)
    (hopen : p.stop.queueClosed = false) :
    Inv ({ p with queue := p.queue ++ [j] }.setJob j ((p.jobs j).ret p.stop .queued)) := by
  have hne {i : ℕ} (hi : (p.jobs i).submit = .returned .queued) : i ≠ j := by
    rintro rfl
    rw [hj] at hi
    cases hi
  have hcounts := (h.jobs j).counts (by rw [hj]; nofun)
  rw [hj] at hcounts
  have hjobs {i : ℕ} (hi : i ≠ j) := setJob_jobs_of_ne
    { p with queue := p.queue ++ [j] } ((p.jobs j).ret p.stop .queued) hi
  constructor
  case jobs => exact forall_setJob _ h.jobs (jobOk_queued rfl)
  case nodup =>
    refine List.Nodup.append h.nodup (nodup_singleton j) ?_
    intro i hi hij
    exact hne (h.queued i hi).1 (mem_singleton.mp hij)
  case queued =>
    intro i hi
    rcases mem_append.mp hi with hi | hi
    · rw [hjobs (hne (h.queued i hi).1)]
      exact h.queued i hi
    · rw [mem_singleton.mp hi, setJob_jobs_self]
      exact ⟨rfl, hcounts⟩
  case running =>
    intro v i hv
    rw [hjobs (hne (h.running v i hv).1)]
    exact h.running v i hv
  case one => exact h.one
  case settled =>
    intro i hi
    by_cases hij : i = j
    · exact .inl (mem_append_right _ (mem_singleton.mpr hij))
    · rw [hjobs hij] at hi ⊢
      exact (h.settled i hi).imp_left (mem_append_left _)
  case exited =>
    intro v hv
    have hclosed := (h.exited v hv).2
    rw [hopen] at hclosed
    cases hclosed
  case returned => exact h.returned

theorem workers_of_setWorker {v : Fin n.workers} {x y : Worker}
    (hv : (p.setWorker w x).workers v = y) (hne : x ≠ y) : v ≠ w ∧ p.workers v = y := by
  have hvw : v ≠ w := by
    rintro rfl
    rw [setWorker_workers_self] at hv
    exact hne hv
  exact ⟨hvw, (setWorker_workers_of_ne p x hvw).symm.trans hv⟩

theorem setWorker_of_workers {v : Fin n.workers} {y : Worker} (x : Worker) (hw : p.workers w ≠ y)
    (hv : p.workers v = y) : (p.setWorker w x).workers v = y := by
  have hvw : v ≠ w := by
    rintro rfl
    exact hw hv
  exact (setWorker_workers_of_ne p x hvw).trans hv

theorem ne_returned (h : Inv p) (w : Fin n.workers) (hw : p.workers w ≠ .exited) :
    p.stop ≠ .returned := fun hstop => hw (h.returned hstop w)

theorem take (h : Inv p) {rest : List ℕ} (hw : p.workers w = .receiving)
    (hqueue : p.queue = j :: rest) :
    Inv (({ p with queue := rest }.setWorker w (.running j)).setJob j (p.jobs j).start) := by
  have hmem : j ∈ p.queue := by
    rw [hqueue]
    exact mem_cons_self
  have hnodup := h.nodup
  rw [hqueue, nodup_cons] at hnodup
  obtain ⟨hsubmit, hstarts, hexecuted⟩ := h.queued j hmem
  have hjobs {i : ℕ} (hi : i ≠ j) := setJob_jobs_of_ne
    ({ p with queue := rest }.setWorker w (.running j)) (p.jobs j).start hi
  -- no worker has the job yet
  have hfree {v : Fin n.workers} {i : ℕ} (hv : p.workers v = .running i) : i ≠ j := by
    rintro rfl
    have hone := (h.running v i hv).2.1
    omega
  have hworkers {v : Fin n.workers} (hv : v ≠ w) := setWorker_workers_of_ne
    { p with queue := rest } (.running j) hv
  have hself := setWorker_workers_self { p with queue := rest } w (.running j)
  constructor
  case jobs => exact forall_setJob _ h.jobs (jobOk_queued hsubmit)
  case nodup => exact hnodup.2
  case queued =>
    intro i hi
    have hij : i ≠ j := by
      rintro rfl
      exact hnodup.1 hi
    rw [hjobs hij]
    exact h.queued i (by rw [hqueue]; exact mem_cons_of_mem j hi)
  case running =>
    intro v i hv
    by_cases hvw : v = w
    · subst hvw
      obtain rfl : j = i := Worker.running.inj (hself.symm.trans hv)
      rw [setJob_jobs_self]
      exact ⟨hsubmit, by simp [Job.start, hstarts], hexecuted⟩
    · have hv' : p.workers v = .running i := (hworkers hvw).symm.trans hv
      rw [hjobs (hfree hv')]
      exact h.running v i hv'
  case one =>
    intro u v i hu hv
    by_cases huw : u = w
    · subst huw
      by_contra hne
      have hv' : p.workers v = .running i := (hworkers (Ne.symm hne)).symm.trans hv
      obtain rfl : j = i := Worker.running.inj (hself.symm.trans hu)
      exact hfree hv' rfl
    · have hu' : p.workers u = .running i := (hworkers huw).symm.trans hu
      by_cases hvw : v = w
      · subst hvw
        obtain rfl : j = i := Worker.running.inj (hself.symm.trans hv)
        exact absurd rfl (hfree hu')
      · exact h.one u v i hu' ((hworkers hvw).symm.trans hv)
  case settled =>
    intro i hi
    by_cases hij : i = j
    · exact .inr (.inl ⟨w, by rw [hij]; exact hself⟩)
    · rw [hjobs hij] at hi ⊢
      rcases h.settled i hi with hin | ⟨v, hv⟩ | hdone
      · rw [hqueue] at hin
        exact .inl ((mem_cons.mp hin).resolve_left hij)
      · have hne : { p with queue := rest }.workers w ≠ .running i := by simp [hw]
        exact .inr (.inl ⟨v, setWorker_of_workers (.running j) hne hv⟩)
      · exact .inr (.inr hdone)
  case exited =>
    intro v hv
    have hv' : ({ p with queue := rest }.setWorker w (.running j)).workers v = .exited := hv
    have hnil := (h.exited v (workers_of_setWorker hv' nofun).2).1
    rw [hqueue] at hnil
    cases hnil
  case returned => exact fun hstop => absurd hstop (h.ne_returned w (by simp [hw]))

theorem done (h : Inv p) (hw : p.workers w = .running j) :
    Inv ((p.setWorker w .receiving).setJob j (p.jobs j).finish) := by
  obtain ⟨hsubmit, hstarts, hexecuted⟩ := h.running w j hw
  have hjobs {i : ℕ} (hi : i ≠ j) :=
    setJob_jobs_of_ne (p.setWorker w .receiving) (p.jobs j).finish hi
  have hother {v : Fin n.workers} {i : ℕ}
      (hv : (p.setWorker w .receiving).workers v = .running i) := workers_of_setWorker hv nofun
  constructor
  case jobs => exact forall_setJob _ h.jobs (jobOk_queued hsubmit)
  case nodup => exact h.nodup
  case queued =>
    intro i hi
    have hij : i ≠ j := by
      rintro rfl
      have hzero := (h.queued i hi).2.1
      omega
    rw [hjobs hij]
    exact h.queued i hi
  case running =>
    intro v i hv
    obtain ⟨hvw, hv'⟩ := hother hv
    have hij : i ≠ j := by
      rintro rfl
      exact hvw (h.one v w i hv' hw)
    rw [hjobs hij]
    exact h.running v i hv'
  case one =>
    intro u v i hu hv
    exact h.one u v i (hother hu).2 (hother hv).2
  case settled =>
    intro i hi
    by_cases hij : i = j
    · subst hij
      rw [setJob_jobs_self]
      exact .inr (.inr ⟨hstarts, by simp [Job.finish, hexecuted]⟩)
    · rw [hjobs hij] at hi ⊢
      rcases h.settled i hi with hin | ⟨v, hv⟩ | hdone
      · exact .inl hin
      · have hne : p.workers w ≠ .running i := by
          rw [hw]
          exact fun heq => hij (Worker.running.inj heq).symm
        exact .inr (.inl ⟨v, setWorker_of_workers _ hne hv⟩)
      · exact .inr (.inr hdone)
  case exited =>
    intro v hv
    have hv' : (p.setWorker w .receiving).workers v = .exited := hv
    exact h.exited v (workers_of_setWorker hv' nofun).2
  case returned => exact fun hstop => absurd hstop (h.ne_returned w (by simp [hw]))

theorem exit (h : Inv p) (hw : p.workers w = .receiving) (hqueue : p.queue = [])
    (hclosed : p.stop.queueClosed = true) : Inv (p.setWorker w .exited) := by
  have hother {v : Fin n.workers} {i : ℕ} (hv : (p.setWorker w .exited).workers v = .running i) :=
    (workers_of_setWorker hv nofun).2
  constructor
  case jobs => exact h.jobs
  case nodup => exact h.nodup
  case queued => exact h.queued
  case running => exact fun v i hv => h.running v i (hother hv)
  case one => exact fun u v i hu hv => h.one u v i (hother hu) (hother hv)
  case settled =>
    intro i hi
    rcases h.settled i hi with hin | ⟨v, hv⟩ | hdone
    · exact .inl hin
    · exact .inr (.inl ⟨v, setWorker_of_workers _ (by simp [hw]) hv⟩)
    · exact .inr (.inr hdone)
  case exited => exact fun _ _ => ⟨hqueue, hclosed⟩
  case returned => exact fun hstop => absurd hstop (h.ne_returned w (by simp [hw]))

theorem stopNext (h : Inv p) (hwait : p.stop = .closed → ∀ w, p.workers w = .exited) :
    Inv { p with stop := p.stop.next } := by
  refine ⟨fun j => (h.jobs j).next, h.nodup, h.queued, h.running, h.one, h.settled, ?_, ?_⟩
  · exact fun v hv => ⟨(h.exited v hv).1, queueClosed_next (h.exited v hv).2⟩
  · intro hstop
    change p.stop.next = .returned at hstop
    cases hs : p.stop with
    | closed => exact hwait hs
    | returned => exact h.returned hs
    | _ =>
      rw [hs] at hstop
      cases hstop

theorem step (h : Inv p) (a : Action n) : Inv (p.step a) := by
  rcases p.step_cases a with hsame | hmove
  · rw [hsame]
    exact h
  · generalize p.step a = p' at hmove
    cases hmove with
    | submit hjob => exact h.setJob hjob.old_ne hjob.new_ne ((h.jobs _).step hjob)
    | send hj hopen => exact h.send hj hopen
    | take hw hqueue => exact h.take hw hqueue
    | done hw => exact h.done hw
    | exit hw hqueue hclosed => exact h.exit hw hqueue hclosed
    | stop hwait => exact h.stopNext hwait

end Inv

theorem inv_newWorkerPool (n : Setup) : Inv (newWorkerPool n) where
  jobs _ := ⟨fun _ => ⟨rfl, rfl⟩, nofun, nofun, nofun⟩
  nodup := nodup_nil
  queued := nofun
  running := nofun
  one := nofun
  settled := nofun
  exited := nofun
  returned := nofun

/-! ## What the pool promises -/

/-- Every job was started at most once, and once `Stop` has returned every job that was submitted
before it was called and did not panic has been executed once. -/
structure WorkerPool.Sound (p : WorkerPool n) : Prop where
  starts : ∀ j, (p.jobs j).starts ≤ 1
  executed : p.stop = .returned → ∀ j, (p.jobs j).early = true → (p.jobs j).panicked = false →
    (p.jobs j).starts = 1 ∧ (p.jobs j).executed = 1

/-- The handler of `Submit` does not start a job that has panicked. -/
def NotAgain (p : WorkerPool n) : Action n → Prop
  | .recover j => (p.jobs j).submit ≠ .recovering true
  | _ => True

def Clean (p : WorkerPool n) : Prop := ∀ j, (p.jobs j).submit.again = false

section

variable {p : WorkerPool n}

theorem Inv.starts_le_one_iff (h : Inv p) (j : ℕ) :
    (p.jobs j).starts ≤ 1 ↔ (p.jobs j).submit.again = false := by
  by_cases hq : (p.jobs j).submit = .returned .queued
  · refine iff_of_true ?_ (by rw [hq]; rfl)
    rcases h.settled j hq with hin | ⟨w, hw⟩ | ⟨hone, _⟩
    · rw [(h.queued j hin).2.1]
      exact Nat.zero_le 1
    · exact (h.running w j hw).2.1.le
    · exact hone.le
  · rw [((h.jobs j).counts hq).1]
    exact Submitter.started_le_one_iff _

theorem Inv.executed (h : Inv p) (hstop : p.stop = .returned) {j : ℕ}
    (hearly : (p.jobs j).early = true) (hpanic : (p.jobs j).panicked = false) :
    (p.jobs j).starts = 1 ∧ (p.jobs j).executed = 1 := by
  have hexit := h.returned hstop
  rcases (h.jobs j).early hearly with hq | hran | hown
  · rcases h.settled j hq with hin | ⟨w, hw⟩ | hdone
    · rw [(h.exited ⟨0, n.workers_pos⟩ (hexit _)).1] at hin
      cases hin
    · rw [hexit w] at hw
      cases hw
    · exact hdone
  · have hcounts := (h.jobs j).counts (by rw [hran]; nofun)
    rw [hran] at hcounts
    exact hcounts
  · have hpanicked := (h.jobs j).own (by rw [hown]; rfl)
    rw [hpanic] at hpanicked
    cases hpanicked

theorem Inv.sound_iff_clean (h : Inv p) : p.Sound ↔ Clean p :=
  ⟨fun hsound j => (h.starts_le_one_iff j).mp (hsound.starts j), fun hclean =>
    ⟨fun j => (h.starts_le_one_iff j).mpr (hclean j), fun hstop _ => h.executed hstop⟩⟩

theorem JobStep.again_eq_false {stop : Stopper} {j : ℕ} {x y : Job} {a : Action n}
    (h : JobStep stop j x a y) (hx : x.submit.again = false)
    (hrecover : a = .recover j → x.submit ≠ .recovering true) : y.submit.again = false := by
  cases h with
  | @handled own hh =>
    rw [hh] at hx
    exact hx
  | @escapes own hh =>
    rw [hh] at hx
    exact hx
  | @recovers own hh =>
    cases own with
    | false => rfl
    | true => exact absurd hh (hrecover rfl)
  | _ => rfl

theorem Clean.setJob (h : Clean p) {j : ℕ} {x : Job} (hx : x.submit.again = false) :
    Clean (p.setJob j x) :=
  p.forall_setJob (P := fun x => x.submit.again = false) h hx

theorem clean_step_iff (h : Clean p) (a : Action n) : Clean (p.step a) ↔ NotAgain p a := by
  constructor
  · intro hclean
    cases a with
    | recover j =>
      intro hj
      have hstep : p.step (.recover j) = p.setJob j ((p.jobs j).start.enter (.handling true)) := by
        simp only [step, recover]
        rw [hj]
      have hagain := hclean j
      rw [hstep, setJob_jobs_self] at hagain
      cases hagain
    | _ => trivial
  · intro hnot
    rcases p.step_cases a with hsame | hmove
    · rw [hsame]
      exact h
    · generalize p.step a = p' at hmove
      cases hmove with
      | @submit _ j x hjob =>
        refine h.setJob (hjob.again_eq_false (h j) ?_)
        rintro rfl
        exact hnot
      | @send j hj hopen =>
        have hqueue : Clean { p with queue := p.queue ++ [j] } := h
        exact hqueue.setJob rfl
      | @take w j rest hw hqueue =>
        have hworker : Clean ({ p with queue := rest }.setWorker w (.running j)) := h
        exact hworker.setJob (h j)
      | @done w j hw =>
        have hworker : Clean (p.setWorker w .receiving) := h
        exact hworker.setJob (h j)
      | exit hw hqueue hclosed => exact h
      | stop hwait => exact h

end

/-- In every run of a pool, with any number of workers and any capacity, the promise holds in every
state exactly if no handler starts a job after the job's own panic. -/
theorem jobsOnce_iff (workerCount queueCapacity : ℤ)
    (actions : List (Action (.ofArgs workerCount queueCapacity))) :
    Along step (fun p a => (p.step a).Sound) (newWorkerPool _) actions ↔
      Along step NotAgain (newWorkerPool _) actions := by
  refine Along.iff_of_kept (I := fun p => Inv p ∧ Clean p) ?_ ?_
    ⟨inv_newWorkerPool _, fun _ => rfl⟩
  · rintro p a ⟨hinv, hclean⟩ hnot
    exact ⟨hinv.step a, (clean_step_iff hclean a).mpr hnot⟩
  · rintro p a ⟨hinv, hclean⟩
    rw [(hinv.step a).sound_iff_clean, clean_step_iff hclean]

/-- One worker that has not yet looked at the queue, and a queue for one job: the second job panics
in `Submit` and is started again. -/
def startedTwice : List (Action (.ofArgs 1 1)) :=
  [.call 0, .check 0, .send 0, .call 1, .check 1, .runInline 1, .panic 1, .recover 1]

theorem job_started_twice :
    ((startedTwice.foldl step (newWorkerPool _)).jobs 1).starts = 2 ∧
      ¬ Along step (fun p a => (p.step a).Sound) (newWorkerPool _) startedTwice := by
  refine ⟨by decide, ?_⟩
  rintro ⟨_, _, _, _, _, _, _, hsound, _⟩
  exact absurd (hsound.starts 1) (by decide)

end Gomq.Pool
