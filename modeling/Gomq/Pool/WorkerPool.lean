import Gomq.Lib.Run
import Mathlib.Data.Fintype.Basic
import Mathlib.Logic.Function.Basic

/-!
# The worker pool

`Submit` puts a job into the queue, runs it itself if the queue is full, and drops it once the
context is cancelled. A send on the closed queue panics; a deferred handler recovers and runs the
job. The handler does not ask what it recovered from, so a job that panics while `Submit` runs it is
run a second time. Workers take jobs out of the queue until it is closed and empty; `Stop` sets a
flag, cancels the context, closes the queue and waits for the workers.

A step of the pool is one operation of one goroutine on what they share. Every call of `Submit` is a
goroutine and has a job of its own. A goroutine that cannot take the step it is asked to take stays
where it is. `Moves` lists the steps that change something, with `JobStep` for those of a `Submit`
that leave the queue alone.
-/

namespace Gomq.Pool

/-- What `NewWorkerPool` makes of its arguments. -/
structure Setup where
  workers : ℕ
  capacity : ℕ
  workers_pos : 0 < workers
  capacity_pos : 0 < capacity

/-- The defaults of `NewWorkerPool`. -/
def Setup.ofArgs (workerCount queueCapacity : ℤ) : Setup where
  workers := if workerCount ≤ 0 then 4 else workerCount.toNat
  capacity := if queueCapacity ≤ 0 then 256 else queueCapacity.toNat
  workers_pos := by split <;> omega
  capacity_pos := by split <;> omega

/-! ## Goroutines -/

/-- How a `Submit` came to return. -/
inductive Returned where
  /-- the pool was closed -/
  | refused
  | queued
  /-- the context was cancelled -/
  | dropped
  /-- the queue was full, and the job ran -/
  | ran
  /-- the handler ran the job, after the job's own panic or after that of the send -/
  | handled (own : Bool)
  deriving DecidableEq

/-- Where a call of `Submit` is. -/
inductive Submitter where
  | idle
  /-- about to look at the flag -/
  | checking
  /-- in the `select` -/
  | selecting
  /-- in the job, in the default of the `select` -/
  | running
  /-- in the handler, after a panic of the job or of the send -/
  | recovering (own : Bool)
  /-- in the job, in the handler -/
  | handling (own : Bool)
  | returned (how : Returned)
  /-- a panic in the handler has gone on to the caller -/
  | escaped (own : Bool)
  deriving DecidableEq

inductive Worker where
  | receiving
  | running (job : ℕ)
  | exited
  deriving DecidableEq

/-- Where the call of `Stop` is. It alone changes the flag, the context and whether the queue is
closed. -/
inductive Stopper where
  | notCalled
  | called
  | flagged
  | cancelled
  | closed
  | returned
  deriving DecidableEq

namespace Stopper

def flagSet : Stopper → Bool
  | .notCalled | .called => false
  | _ => true

def ctxDone : Stopper → Bool
  | .cancelled | .closed | .returned => true
  | _ => false

def queueClosed : Stopper → Bool
  | .closed | .returned => true
  | _ => false

def next : Stopper → Stopper
  | .notCalled => .called
  | .called => .flagged
  | .flagged => .cancelled
  | .cancelled => .closed
  | .closed | .returned => .returned

end Stopper

/-! ## Jobs -/

/-- A job: where its `Submit` is, how often it was started and how often it came to an end, whether
it panicked, and whether its `Submit` returned before `Stop` was called. -/
structure Job where
  submit : Submitter
  starts : ℕ
  executed : ℕ
  panicked : Bool
  early : Bool

namespace Job

def enter (x : Job) (place : Submitter) : Job := { x with submit := place }

def ret (x : Job) (stop : Stopper) (how : Returned) : Job :=
  { x with submit := .returned how, early := stop == .notCalled }

def start (x : Job) : Job := { x with starts := x.starts + 1 }

def finish (x : Job) : Job := { x with executed := x.executed + 1 }

def panic (x : Job) : Job := { x with panicked := true }

end Job

/-! ## The pool -/

structure WorkerPool (n : Setup) where
  queue : List ℕ
  stop : Stopper
  workers : Fin n.workers → Worker
  jobs : ℕ → Job

variable {n : Setup}

def newWorkerPool (n : Setup) : WorkerPool n where
  queue := []
  stop := .notCalled
  workers := fun _ => .receiving
  jobs := fun _ => ⟨.idle, 0, 0, false, false⟩

inductive Action (n : Setup) where
  | call (j : ℕ)
  | check (j : ℕ)
  | send (j : ℕ)
  | drop (j : ℕ)
  | runInline (j : ℕ)
  | finish (j : ℕ)
  | panic (j : ℕ)
  | recover (j : ℕ)
  | take (w : Fin n.workers)
  | done (w : Fin n.workers)
  | exit (w : Fin n.workers)
  | stop

namespace WorkerPool

def setJob (p : WorkerPool n) (j : ℕ) (x : Job) : WorkerPool n :=
  { p with jobs := Function.update p.jobs j x }

def setWorker (p : WorkerPool n) (w : Fin n.workers) (x : Worker) : WorkerPool n :=
  { p with workers := Function.update p.workers w x }

@[simp] theorem setJob_jobs_self (p : WorkerPool n) (j : ℕ) (x : Job) :
    (p.setJob j x).jobs j = x := Function.update_self ..

theorem setJob_jobs_of_ne (p : WorkerPool n) (x : Job) {i j : ℕ} (h : j ≠ i) :
    (p.setJob i x).jobs j = p.jobs j := Function.update_of_ne h ..

theorem forall_setJob {P : Job → Prop} (p : WorkerPool n) {j : ℕ} {x : Job}
    (h : ∀ i, P (p.jobs i)) (hx : P x) (i : ℕ) : P ((p.setJob j x).jobs i) := by
  by_cases hi : i = j
  · subst hi
    rw [setJob_jobs_self]
    exact hx
  · rw [setJob_jobs_of_ne p x hi]
    exact h i

@[simp] theorem setWorker_workers_self (p : WorkerPool n) (w : Fin n.workers) (x : Worker) :
    (p.setWorker w x).workers w = x := Function.update_self ..

theorem setWorker_workers_of_ne (p : WorkerPool n) (x : Worker) {v w : Fin n.workers} (h : w ≠ v) :
    (p.setWorker v x).workers w = p.workers w := Function.update_of_ne h ..

/-! ### Submit -/

def call (p : WorkerPool n) (j : ℕ) : WorkerPool n :=
  if (p.jobs j).submit = .idle then p.setJob j ((p.jobs j).enter .checking) else p

/-- `atomic.LoadInt32(&wp.closed)`. -/
def check (p : WorkerPool n) (j : ℕ) : WorkerPool n :=
  if (p.jobs j).submit = .checking then
    if p.stop.flagSet then p.setJob j ((p.jobs j).ret p.stop .refused)
    else p.setJob j ((p.jobs j).enter .selecting)
  else p

/-- The `select` takes the send, if there is room or the queue is closed. -/
def send (p : WorkerPool n) (j : ℕ) : WorkerPool n :=
  if (p.jobs j).submit = .selecting then
    if p.stop.queueClosed then p.setJob j ((p.jobs j).enter (.recovering false))
    else if p.queue.length < n.capacity then
      { p with queue := p.queue ++ [j] }.setJob j ((p.jobs j).ret p.stop .queued)
    else p
  else p

/-- The `select` takes `ctx.Done()`. -/
def drop (p : WorkerPool n) (j : ℕ) : WorkerPool n :=
  if (p.jobs j).submit = .selecting ∧ p.stop.ctxDone then
    p.setJob j ((p.jobs j).ret p.stop .dropped)
  else p

/-- The `select` takes its default, if it can take nothing else. -/
def runInline (p : WorkerPool n) (j : ℕ) : WorkerPool n :=
  if (p.jobs j).submit = .selecting ∧ p.stop.queueClosed = false ∧ p.stop.ctxDone = false ∧
      n.capacity ≤ p.queue.length then
    p.setJob j ((p.jobs j).start.enter .running)
  else p

def finish (p : WorkerPool n) (j : ℕ) : WorkerPool n :=
  match (p.jobs j).submit with
  | .running => p.setJob j ((p.jobs j).finish.ret p.stop .ran)
  | .handling own => p.setJob j ((p.jobs j).finish.ret p.stop (.handled own))
  | _ => p

def panic (p : WorkerPool n) (j : ℕ) : WorkerPool n :=
  match (p.jobs j).submit with
  | .running => p.setJob j ((p.jobs j).panic.enter (.recovering true))
  | .handling own => p.setJob j ((p.jobs j).panic.enter (.escaped own))
  | _ => p

def recover (p : WorkerPool n) (j : ℕ) : WorkerPool n :=
  match (p.jobs j).submit with
  | .recovering own => p.setJob j ((p.jobs j).start.enter (.handling own))
  | _ => p

/-! ### Workers and Stop -/

/-- A worker takes a job and starts it. A job that panics there ends the process, and the run with
it. -/
def take (p : WorkerPool n) (w : Fin n.workers) : WorkerPool n :=
  match p.workers w, p.queue with
  | .receiving, j :: rest =>
    ({ p with queue := rest }.setWorker w (.running j)).setJob j (p.jobs j).start
  | _, _ => p

def done (p : WorkerPool n) (w : Fin n.workers) : WorkerPool n :=
  match p.workers w with
  | .running j => (p.setWorker w .receiving).setJob j (p.jobs j).finish
  | _ => p

def exit (p : WorkerPool n) (w : Fin n.workers) : WorkerPool n :=
  if p.workers w = .receiving ∧ p.queue = [] ∧ p.stop.queueClosed then p.setWorker w .exited else p

/-- The next statement of `Stop`; the last one waits for the workers. -/
def stopNext (p : WorkerPool n) : WorkerPool n :=
  if p.stop = .closed → ∀ w, p.workers w = .exited then { p with stop := p.stop.next } else p

def step (p : WorkerPool n) : Action n → WorkerPool n
  | .call j => p.call j
  | .check j => p.check j
  | .send j => p.send j
  | .drop j => p.drop j
  | .runInline j => p.runInline j
  | .finish j => p.finish j
  | .panic j => p.panic j
  | .recover j => p.recover j
  | .take w => p.take w
  | .done w => p.done w
  | .exit w => p.exit w
  | .stop => p.stopNext

end WorkerPool

/-! ## What a step can do -/

/-- The steps of the `Submit` of job `j` that leave the queue alone, while `Stop` is where it is. -/
inductive JobStep (stop : Stopper) (j : ℕ) (x : Job) : Action n → Job → Prop
  | call (h : x.submit = .idle) : JobStep stop j x (.call j) (x.enter .checking)
  | refuse (h : x.submit = .checking) (hflag : stop.flagSet = true) :
      JobStep stop j x (.check j) (x.ret stop .refused)
  | pass (h : x.submit = .checking) : JobStep stop j x (.check j) (x.enter .selecting)
  | sendPanics (h : x.submit = .selecting) (hclosed : stop.queueClosed = true) :
      JobStep stop j x (.send j) (x.enter (.recovering false))
  | drop (h : x.submit = .selecting) (hdone : stop.ctxDone = true) :
      JobStep stop j x (.drop j) (x.ret stop .dropped)
  | runInline (h : x.submit = .selecting) :
      JobStep stop j x (.runInline j) (x.start.enter .running)
  | ran (h : x.submit = .running) : JobStep stop j x (.finish j) (x.finish.ret stop .ran)
  | handled {own : Bool} (h : x.submit = .handling own) :
      JobStep stop j x (.finish j) (x.finish.ret stop (.handled own))
  | panics (h : x.submit = .running) :
      JobStep stop j x (.panic j) (x.panic.enter (.recovering true))
  | escapes {own : Bool} (h : x.submit = .handling own) :
      JobStep stop j x (.panic j) (x.panic.enter (.escaped own))
  | recovers {own : Bool} (h : x.submit = .recovering own) :
      JobStep stop j x (.recover j) (x.start.enter (.handling own))

inductive Moves (p : WorkerPool n) : Action n → WorkerPool n → Prop
  | submit {a : Action n} {j : ℕ} {x : Job} (hjob : JobStep p.stop j (p.jobs j) a x) :
      Moves p a (p.setJob j x)
  | send {j : ℕ} (hj : (p.jobs j).submit = .selecting) (hopen : p.stop.queueClosed = false) :
      Moves p (.send j)
        ({ p with queue := p.queue ++ [j] }.setJob j ((p.jobs j).ret p.stop .queued))
  | take {w : Fin n.workers} {j : ℕ} {rest : List ℕ} (hw : p.workers w = .receiving)
      (hqueue : p.queue = j :: rest) :
      Moves p (.take w)
        (({ p with queue := rest }.setWorker w (.running j)).setJob j (p.jobs j).start)
  | done {w : Fin n.workers} {j : ℕ} (hw : p.workers w = .running j) :
      Moves p (.done w) ((p.setWorker w .receiving).setJob j (p.jobs j).finish)
  | exit {w : Fin n.workers} (hw : p.workers w = .receiving) (hqueue : p.queue = [])
      (hclosed : p.stop.queueClosed = true) : Moves p (.exit w) (p.setWorker w .exited)
  | stop (hwait : p.stop = .closed → ∀ w, p.workers w = .exited) :
      Moves p .stop { p with stop := p.stop.next }

theorem WorkerPool.step_cases (p : WorkerPool n) (a : Action n) :
    p.step a = p ∨ Moves p a (p.step a) := by
  cases a with
  | call j =>
    simp only [step, call]
    split
    · exact .inr (.submit (.call ‹_›))
    · exact .inl rfl
  | check j =>
    simp only [step, check]
    split
    · split
      · exact .inr (.submit (.refuse ‹_› ‹_›))
      · exact .inr (.submit (.pass ‹_›))
    · exact .inl rfl
  | send j =>
    simp only [step, send]
    split
    · split
      · exact .inr (.submit (.sendPanics ‹_› ‹_›))
      · next hclosed =>
        split
        · exact .inr (.send ‹_› (Bool.eq_false_of_not_eq_true hclosed))
        · exact .inl rfl
    · exact .inl rfl
  | drop j =>
    simp only [step, drop]
    split
    · next h => exact .inr (.submit (.drop h.1 h.2))
    · exact .inl rfl
  | runInline j =>
    simp only [step, runInline]
    split
    · next h => exact .inr (.submit (.runInline h.1))
    · exact .inl rfl
  | finish j =>
    simp only [step, finish]
    split
    · exact .inr (.submit (.ran ‹_›))
    · exact .inr (.submit (.handled ‹_›))
    · exact .inl rfl
  | panic j =>
    simp only [step, panic]
    split
    · exact .inr (.submit (.panics ‹_›))
    · exact .inr (.submit (.escapes ‹_›))
    · exact .inl rfl
  | recover j =>
    simp only [step, recover]
    split
    · exact .inr (.submit (.recovers ‹_›))
    · exact .inl rfl
  | take w =>
    simp only [step, take]
    split
    · exact .inr (.take ‹_› ‹_›)
    · exact .inl rfl
  | done w =>
    simp only [step, done]
    split
    · exact .inr (.done ‹_›)
    · exact .inl rfl
  | exit w =>
    simp only [step, exit]
    split
    · next h => exact .inr (.exit h.1 h.2.1 h.2.2)
    · exact .inl rfl
  | stop =>
    simp only [step, stopNext]
    split
    · exact .inr (.stop ‹_›)
    · exact .inl rfl

end Gomq.Pool
