import Gomq.Broker.Message
import Gomq.Lib.GoMap
import Gomq.Lib.Run
import Mathlib.Data.Fintype.Basic

/-!
# The publish pipeline

`Submit` counts an item and puts it into the input channel, or drops it once `Stop` has cancelled
the context. Workers take items out of the channel, gather them in batches, publish each batch
grouped by exchange, and subtract it from the counter. `Flush` waits on a condition variable until
the counter is zero; `Stop` cancels the context and waits for the workers, each of which empties the
channel before it returns.

A step of the system is one operation of one goroutine on what they share: the channel, the counter,
the context, the lock of the condition variable with the list of its waiters, and the publisher. A
goroutine that cannot take the step it is asked to take stays where it is. The publisher is a
parameter: `publish` is what one call of `Publish` does to the broker, and every call returns.
`Moves` lists the steps that change something, and what every move keeps, a step keeps
(`System.step_keeps`).
-/

namespace Gomq.Pipeline

open Broker

/-! ## Configuration -/

structure PipelineConfig where
  batchSize : ℤ
  workerCount : ℤ
  inputBuffer : ℤ

/-- What `NewPipeline` makes of a configuration, and how many goroutines submit. -/
structure Setup where
  batchSize : ℕ
  workers : ℕ
  inputBuffer : ℕ
  submitters : ℕ
  batchSize_pos : 0 < batchSize
  workers_pos : 0 < workers
  inputBuffer_pos : 0 < inputBuffer

/-- The defaults of `NewPipeline`. -/
def PipelineConfig.setup (cfg : PipelineConfig) (submitters : ℕ) : Setup where
  batchSize := if cfg.batchSize ≤ 0 then 64 else cfg.batchSize.toNat
  workers := if cfg.workerCount ≤ 0 then 4 else cfg.workerCount.toNat
  inputBuffer := if cfg.inputBuffer ≤ 0 then 256 else cfg.inputBuffer.toNat
  submitters := submitters
  batchSize_pos := by split <;> omega
  workers_pos := by split <;> omega
  inputBuffer_pos := by split <;> omega

/-! ## Items and batches -/

/-- An item; `ref` tells it from all others, it is the number of the send that put it into the
channel. -/
structure PipelineItem where
  ref : ℕ
  exchange : GoString
  routingKey : GoString
  msg : MsgRef
  channelID : UInt16
  deriving DecidableEq

/-- The map of `processBatch`. -/
def byEx (batch : List PipelineItem) : GoMap GoString (List PipelineItem) :=
  batch.foldl (fun m item => m.set item.exchange (m.getD item.exchange [] ++ [item])) ∅

/-- The items of a batch in the order in which they are published, for an order of the exchanges. -/
def grouped (order : List GoString) (batch : List PipelineItem) : List PipelineItem :=
  order.flatMap fun ex => (byEx batch).getD ex []

/-- An order in which a range over the map may visit the exchanges. -/
def RangeOrder (order : List GoString) (batch : List PipelineItem) : Prop :=
  order.Perm (byEx batch).keys

instance (order : List GoString) (batch : List PipelineItem) :
    Decidable (RangeOrder order batch) :=
  inferInstanceAs (Decidable (order.Perm _))

/-! ## Goroutines -/

inductive Submitter where
  | idle
  /-- counted, in the `select` -/
  | sending (item : PipelineItem)
  /-- woken by the context, still counted -/
  | dropping
  /-- no longer counted, about to broadcast -/
  | dropped
  deriving DecidableEq

inductive Worker where
  /-- in the outer `select`, with an empty batch -/
  | selecting
  /-- in the inner loop -/
  | filling (batch : List PipelineItem)
  /-- the context is cancelled: about to look at `len(p.input)` -/
  | draining (batch : List PipelineItem)
  /-- the channel was not empty, in the `select` with a default -/
  | receiving (batch : List PipelineItem)
  /-- in `processBatch`, with what is left of a batch of `n` items -/
  | publishing (todo : List PipelineItem) (n : ℕ) (exits : Bool)
  /-- the counter went to zero, about to broadcast -/
  | broadcasting (exits : Bool)
  /-- about to broadcast and return -/
  | leaving
  | done
  deriving DecidableEq

inductive Flusher where
  | outside
  /-- about to read the counter -/
  | checking
  /-- the counter was not positive, about to read `len(p.input)` -/
  | counting
  /-- there was something, about to register -/
  | found
  /-- registered, still with the lock -/
  | registered (woken : Bool)
  | asleep
  /-- woken, about to take the lock again -/
  | woken
  /-- out of the loop, about to release the lock -/
  | finishing
  deriving DecidableEq

/-- After `processBatch`: the next round, or the end. -/
def Worker.next : Bool → Worker
  | true => .leaving
  | false => .selecting

def Worker.drained (order : List GoString) (batch : List PipelineItem) : Worker :=
  if batch = [] then .leaving else .publishing (grouped order batch) batch.length true

/-- `Broadcast` wakes who is registered. -/
def Flusher.wake : Flusher → Flusher
  | .registered _ => .registered true
  | .asleep => .woken
  | f => f

/-! ## The system -/

/-- The pipeline and its goroutines. The counter has 64 bits, more than there can be items at a
time. The last four fields are history, which no step reads: the items in the order of their sends,
those whose `Submit` returned before the context was cancelled, and which worker took and published
which items, in order. -/
structure System (n : Setup) (σ : Type) where
  broker : σ
  input : List PipelineItem
  cancelled : Bool
  inFlight : ℤ
  lock : Option ℕ
  submitters : Fin n.submitters → Submitter
  workers : Fin n.workers → Worker
  flushers : ℕ → Flusher
  stopped : Bool
  sent : List PipelineItem
  accepted : List PipelineItem
  taken : List (Fin n.workers × PipelineItem)
  published : List (Fin n.workers × PipelineItem)

variable {n : Setup} {σ : Type}

def start (n : Setup) (broker : σ) : System n σ where
  broker := broker
  input := []
  cancelled := false
  inFlight := 0
  lock := none
  submitters := fun _ => .idle
  workers := fun _ => .selecting
  flushers := fun _ => .outside
  stopped := false
  sent := []
  accepted := []
  taken := []
  published := []

namespace System

def setSubmitter (s : System n σ) (g : Fin n.submitters) (state : Submitter) : System n σ :=
  { s with submitters := Function.update s.submitters g state }

def setWorker (s : System n σ) (w : Fin n.workers) (state : Worker) : System n σ :=
  { s with workers := Function.update s.workers w state }

def setFlusher (s : System n σ) (f : ℕ) (state : Flusher) : System n σ :=
  { s with flushers := Function.update s.flushers f state }

def wakeAll (s : System n σ) : System n σ := { s with flushers := fun f => (s.flushers f).wake }

/-! ### Submit -/

def submit (s : System n σ) (g : Fin n.submitters) (item : PipelineItem) : System n σ :=
  match s.submitters g with
  | .idle => { s with inFlight := s.inFlight + 1 }.setSubmitter g (.sending item)
  | _ => s

def send (s : System n σ) (g : Fin n.submitters) : System n σ :=
  match s.submitters g with
  | .sending item =>
    if s.input.length < n.inputBuffer then
      let item := { item with ref := s.sent.length }
      { s with
        input := s.input ++ [item]
        sent := s.sent ++ [item]
        accepted := if s.cancelled then s.accepted else s.accepted ++ [item] }.setSubmitter g .idle
    else s
  | _ => s

def refuse (s : System n σ) (g : Fin n.submitters) : System n σ :=
  match s.submitters g with
  | .sending _ => if s.cancelled then s.setSubmitter g .dropping else s
  | _ => s

def uncount (s : System n σ) (g : Fin n.submitters) : System n σ :=
  match s.submitters g with
  | .dropping => { s with inFlight := s.inFlight - 1 }.setSubmitter g .dropped
  | _ => s

def broadcastDrop (s : System n σ) (g : Fin n.submitters) : System n σ :=
  match s.submitters g with
  | .dropped => s.wakeAll.setSubmitter g .idle
  | _ => s

/-! ### Workers -/

def take (s : System n σ) (w : Fin n.workers) (item : PipelineItem) (input : List PipelineItem)
    (state : Worker) : System n σ :=
  { s with input := input, taken := s.taken ++ [(w, item)] }.setWorker w state

/-- A receive from the channel, in one of its three places. -/
def receive (s : System n σ) (w : Fin n.workers) : System n σ :=
  match s.input with
  | [] => s
  | item :: input =>
    match s.workers w with
    | .selecting => s.take w item input (.filling [item])
    | .filling batch =>
      if batch.length < n.batchSize then s.take w item input (.filling (batch ++ [item])) else s
    | .receiving batch => s.take w item input (.draining (batch ++ [item]))
    | _ => s

/-- The inner loop ends: the batch is full, or the channel empty. -/
def gathered (s : System n σ) (w : Fin n.workers) (order : List GoString) : System n σ :=
  match s.workers w with
  | .filling batch =>
    if (n.batchSize ≤ batch.length ∨ s.input = []) ∧ RangeOrder order batch then
      s.setWorker w (.publishing (grouped order batch) batch.length false)
    else s
  | _ => s

def seeDone (s : System n σ) (w : Fin n.workers) : System n σ :=
  match s.workers w with
  | .selecting => if s.cancelled then s.setWorker w (.draining []) else s
  | _ => s

/-- `for len(p.input) > 0`. -/
def checkInput (s : System n σ) (w : Fin n.workers) (order : List GoString) : System n σ :=
  match s.workers w with
  | .draining batch =>
    if s.input ≠ [] then s.setWorker w (.receiving batch)
    else if RangeOrder order batch then s.setWorker w (.drained order batch)
    else s
  | _ => s

/-- The default of the `select` in the drain. -/
def foundEmpty (s : System n σ) (w : Fin n.workers) (order : List GoString) : System n σ :=
  match s.workers w with
  | .receiving batch =>
    if s.input = [] ∧ RangeOrder order batch then s.setWorker w (.drained order batch) else s
  | _ => s

def publishNext (publish : σ → PipelineItem → σ) (s : System n σ) (w : Fin n.workers) :
    System n σ :=
  match s.workers w with
  | .publishing (item :: todo) k exits =>
    { s with
      broker := publish s.broker item
      published := s.published ++ [(w, item)] }.setWorker w (.publishing todo k exits)
  | _ => s

/-- The counter goes down by the length of the batch. -/
def settle (s : System n σ) (w : Fin n.workers) : System n σ :=
  match s.workers w with
  | .publishing [] k exits =>
    { s with inFlight := s.inFlight - k }.setWorker w
      (if s.inFlight - k = 0 then .broadcasting exits else .next exits)
  | _ => s

def broadcast (s : System n σ) (w : Fin n.workers) : System n σ :=
  match s.workers w with
  | .broadcasting exits => s.wakeAll.setWorker w (.next exits)
  | .leaving => s.wakeAll.setWorker w .done
  | _ => s

/-! ### Flush and Stop -/

/-- Take the lock, at the start or at the end of `Wait`. -/
def acquire (s : System n σ) (f : ℕ) : System n σ :=
  if s.lock = none ∧ (s.flushers f = .outside ∨ s.flushers f = .woken) then
    { s with lock := some f }.setFlusher f .checking
  else s

def loadInFlight (s : System n σ) (f : ℕ) : System n σ :=
  match s.flushers f with
  | .checking => s.setFlusher f (if 0 < s.inFlight then .found else .counting)
  | _ => s

def loadLen (s : System n σ) (f : ℕ) : System n σ :=
  match s.flushers f with
  | .counting => s.setFlusher f (if s.input ≠ [] then .found else .finishing)
  | _ => s

/-- `Wait` puts the caller on the list. -/
def register (s : System n σ) (f : ℕ) : System n σ :=
  match s.flushers f with
  | .found => s.setFlusher f (.registered false)
  | _ => s

/-- `Wait` releases the lock and sleeps, unless it was woken in between. -/
def release (s : System n σ) (f : ℕ) : System n σ :=
  match s.flushers f with
  | .registered woken =>
    { s with lock := none }.setFlusher f (if woken then .woken else .asleep)
  | _ => s

def unlock (s : System n σ) (f : ℕ) : System n σ :=
  match s.flushers f with
  | .finishing => { s with lock := none }.setFlusher f .outside
  | _ => s

def cancel (s : System n σ) : System n σ := { s with cancelled := true }

def wait (s : System n σ) : System n σ :=
  if s.cancelled ∧ ∀ w, s.workers w = .done then { s with stopped := true } else s

end System

/-! ## Runs -/

inductive Action (n : Setup) where
  | submit (g : Fin n.submitters) (item : PipelineItem)
  | send (g : Fin n.submitters)
  | refuse (g : Fin n.submitters)
  | uncount (g : Fin n.submitters)
  | broadcastDrop (g : Fin n.submitters)
  | receive (w : Fin n.workers)
  | gathered (w : Fin n.workers) (order : List GoString)
  | seeDone (w : Fin n.workers)
  | checkInput (w : Fin n.workers) (order : List GoString)
  | foundEmpty (w : Fin n.workers) (order : List GoString)
  | publish (w : Fin n.workers)
  | settle (w : Fin n.workers)
  | broadcast (w : Fin n.workers)
  | acquire (f : ℕ)
  | loadInFlight (f : ℕ)
  | loadLen (f : ℕ)
  | register (f : ℕ)
  | release (f : ℕ)
  | unlock (f : ℕ)
  | cancel
  | wait

def System.step (publish : σ → PipelineItem → σ) (s : System n σ) : Action n → System n σ
  | .submit g item => s.submit g item
  | .send g => s.send g
  | .refuse g => s.refuse g
  | .uncount g => s.uncount g
  | .broadcastDrop g => s.broadcastDrop g
  | .receive w => s.receive w
  | .gathered w order => s.gathered w order
  | .seeDone w => s.seeDone w
  | .checkInput w order => s.checkInput w order
  | .foundEmpty w order => s.foundEmpty w order
  | .publish w => s.publishNext publish w
  | .settle w => s.settle w
  | .broadcast w => s.broadcast w
  | .acquire f => s.acquire f
  | .loadInFlight f => s.loadInFlight f
  | .loadLen f => s.loadLen f
  | .register f => s.register f
  | .release f => s.release f
  | .unlock f => s.unlock f
  | .cancel => s.cancel
  | .wait => s.wait

/-! ## What a step can do -/

inductive Moves (publish : σ → PipelineItem → σ) (s : System n σ) : Action n → System n σ → Prop
  | submit {g : Fin n.submitters} {item : PipelineItem} (hg : s.submitters g = .idle) :
      Moves publish s (.submit g item)
        ({ s with inFlight := s.inFlight + 1 }.setSubmitter g (.sending item))
  | send {g : Fin n.submitters} {item : PipelineItem} (hg : s.submitters g = .sending item)
      (hroom : s.input.length < n.inputBuffer) :
      Moves publish s (.send g)
        ({ s with
          input := s.input ++ [{ item with ref := s.sent.length }]
          sent := s.sent ++ [{ item with ref := s.sent.length }]
          accepted :=
            if s.cancelled then s.accepted
            else s.accepted ++ [{ item with ref := s.sent.length }] }.setSubmitter g .idle)
  | refuse {g : Fin n.submitters} {item : PipelineItem} (hg : s.submitters g = .sending item)
      (hc : s.cancelled = true) : Moves publish s (.refuse g) (s.setSubmitter g .dropping)
  | uncount {g : Fin n.submitters} (hg : s.submitters g = .dropping) :
      Moves publish s (.uncount g)
        ({ s with inFlight := s.inFlight - 1 }.setSubmitter g .dropped)
  | broadcastDrop {g : Fin n.submitters} (hg : s.submitters g = .dropped) :
      Moves publish s (.broadcastDrop g) (s.wakeAll.setSubmitter g .idle)
  | receiveFirst {w : Fin n.workers} {item : PipelineItem} {input : List PipelineItem}
      (hinput : s.input = item :: input) (hw : s.workers w = .selecting) :
      Moves publish s (.receive w) (s.take w item input (.filling [item]))
  | receiveMore {w : Fin n.workers} {item : PipelineItem} {input batch : List PipelineItem}
      (hinput : s.input = item :: input) (hw : s.workers w = .filling batch)
      (hroom : batch.length < n.batchSize) :
      Moves publish s (.receive w) (s.take w item input (.filling (batch ++ [item])))
  | receiveLate {w : Fin n.workers} {item : PipelineItem} {input batch : List PipelineItem}
      (hinput : s.input = item :: input) (hw : s.workers w = .receiving batch) :
      Moves publish s (.receive w) (s.take w item input (.draining (batch ++ [item])))
  | gathered {w : Fin n.workers} {order : List GoString} {batch : List PipelineItem}
      (hw : s.workers w = .filling batch) (hend : n.batchSize ≤ batch.length ∨ s.input = [])
      (horder : RangeOrder order batch) :
      Moves publish s (.gathered w order)
        (s.setWorker w (.publishing (grouped order batch) batch.length false))
  | seeDone {w : Fin n.workers} (hw : s.workers w = .selecting) (hc : s.cancelled = true) :
      Moves publish s (.seeDone w) (s.setWorker w (.draining []))
  | checkMore {w : Fin n.workers} {order : List GoString} {batch : List PipelineItem}
      (hw : s.workers w = .draining batch) (hne : s.input ≠ []) :
      Moves publish s (.checkInput w order) (s.setWorker w (.receiving batch))
  | checkEmpty {w : Fin n.workers} {order : List GoString} {batch : List PipelineItem}
      (hw : s.workers w = .draining batch) (hempty : s.input = [])
      (horder : RangeOrder order batch) :
      Moves publish s (.checkInput w order) (s.setWorker w (.drained order batch))
  | foundEmpty {w : Fin n.workers} {order : List GoString} {batch : List PipelineItem}
      (hw : s.workers w = .receiving batch) (hempty : s.input = [])
      (horder : RangeOrder order batch) :
      Moves publish s (.foundEmpty w order) (s.setWorker w (.drained order batch))
  | publish {w : Fin n.workers} {item : PipelineItem} {todo : List PipelineItem} {k : ℕ}
      {exits : Bool} (hw : s.workers w = .publishing (item :: todo) k exits) :
      Moves publish s (.publish w)
        ({ s with
          broker := publish s.broker item
          published := s.published ++ [(w, item)] }.setWorker w (.publishing todo k exits))
  | settle {w : Fin n.workers} {k : ℕ} {exits : Bool} (hw : s.workers w = .publishing [] k exits) :
      Moves publish s (.settle w)
        ({ s with inFlight := s.inFlight - k }.setWorker w
          (if s.inFlight - k = 0 then .broadcasting exits else .next exits))
  | broadcast {w : Fin n.workers} {exits : Bool} (hw : s.workers w = .broadcasting exits) :
      Moves publish s (.broadcast w) (s.wakeAll.setWorker w (.next exits))
  | leave {w : Fin n.workers} (hw : s.workers w = .leaving) :
      Moves publish s (.broadcast w) (s.wakeAll.setWorker w .done)
  | acquire {f : ℕ} (hlock : s.lock = none)
      (hf : s.flushers f = .outside ∨ s.flushers f = .woken) :
      Moves publish s (.acquire f) ({ s with lock := some f }.setFlusher f .checking)
  | loadInFlight {f : ℕ} (hf : s.flushers f = .checking) :
      Moves publish s (.loadInFlight f)
        (s.setFlusher f (if 0 < s.inFlight then .found else .counting))
  | loadLen {f : ℕ} (hf : s.flushers f = .counting) :
      Moves publish s (.loadLen f)
        (s.setFlusher f (if s.input ≠ [] then .found else .finishing))
  | register {f : ℕ} (hf : s.flushers f = .found) :
      Moves publish s (.register f) (s.setFlusher f (.registered false))
  | release {f : ℕ} {woken : Bool} (hf : s.flushers f = .registered woken) :
      Moves publish s (.release f)
        ({ s with lock := none }.setFlusher f (if woken then .woken else .asleep))
  | unlock {f : ℕ} (hf : s.flushers f = .finishing) :
      Moves publish s (.unlock f) ({ s with lock := none }.setFlusher f .outside)
  | cancel : Moves publish s .cancel { s with cancelled := true }
  | wait (hc : s.cancelled = true) (hdone : ∀ w, s.workers w = .done) :
      Moves publish s .wait { s with stopped := true }

theorem System.step_cases (publish : σ → PipelineItem → σ) (s : System n σ) (a : Action n) :
    s.step publish a = s ∨ Moves publish s a (s.step publish a) := by
  cases a with
  | submit g item =>
    simp only [step, System.submit]
    split
    · exact .inr (.submit ‹_›)
    · exact .inl rfl
  | send g =>
    simp only [step, System.send]
    split
    · split
      · exact .inr (.send ‹_› ‹_›)
      · exact .inl rfl
    · exact .inl rfl
  | refuse g =>
    simp only [step, System.refuse]
    split
    · split
      · exact .inr (.refuse ‹_› ‹_›)
      · exact .inl rfl
    · exact .inl rfl
  | uncount g =>
    simp only [step, System.uncount]
    split
    · exact .inr (.uncount ‹_›)
    · exact .inl rfl
  | broadcastDrop g =>
    simp only [step, System.broadcastDrop]
    split
    · exact .inr (.broadcastDrop ‹_›)
    · exact .inl rfl
  | receive w =>
    simp only [step, System.receive]
    split
    · exact .inl rfl
    · split
      · exact .inr (.receiveFirst ‹_› ‹_›)
      · split
        · exact .inr (.receiveMore ‹_› ‹_› ‹_›)
        · exact .inl rfl
      · exact .inr (.receiveLate ‹_› ‹_›)
      · exact .inl rfl
  | gathered w order =>
    simp only [step, System.gathered]
    split
    · split
      · rename_i hw hready
        exact .inr (.gathered hw hready.1 hready.2)
      · exact .inl rfl
    · exact .inl rfl
  | seeDone w =>
    simp only [step, System.seeDone]
    split
    · split
      · exact .inr (.seeDone ‹_› ‹_›)
      · exact .inl rfl
    · exact .inl rfl
  | checkInput w order =>
    simp only [step, System.checkInput]
    split
    · split
      · exact .inr (.checkMore ‹_› ‹_›)
      · split
        · rename_i hw hempty horder
          exact .inr (.checkEmpty hw (not_not.mp hempty) horder)
        · exact .inl rfl
    · exact .inl rfl
  | foundEmpty w order =>
    simp only [step, System.foundEmpty]
    split
    · split
      · rename_i hw hready
        exact .inr (.foundEmpty hw hready.1 hready.2)
      · exact .inl rfl
    · exact .inl rfl
  | publish w =>
    simp only [step, System.publishNext]
    split
    · exact .inr (.publish ‹_›)
    · exact .inl rfl
  | settle w =>
    simp only [step, System.settle]
    split
    · exact .inr (.settle ‹_›)
    · exact .inl rfl
  | broadcast w =>
    simp only [step, System.broadcast]
    split
    · exact .inr (.broadcast ‹_›)
    · exact .inr (.leave ‹_›)
    · exact .inl rfl
  | acquire f =>
    simp only [step, System.acquire]
    split
    · rename_i hfree
      exact .inr (.acquire hfree.1 hfree.2)
    · exact .inl rfl
  | loadInFlight f =>
    simp only [step, System.loadInFlight]
    split
    · exact .inr (.loadInFlight ‹_›)
    · exact .inl rfl
  | loadLen f =>
    simp only [step, System.loadLen]
    split
    · exact .inr (.loadLen ‹_›)
    · exact .inl rfl
  | register f =>
    simp only [step, System.register]
    split
    · exact .inr (.register ‹_›)
    · exact .inl rfl
  | release f =>
    simp only [step, System.release]
    split
    · exact .inr (.release ‹_›)
    · exact .inl rfl
  | unlock f =>
    simp only [step, System.unlock]
    split
    · exact .inr (.unlock ‹_›)
    · exact .inl rfl
  | cancel => exact .inr .cancel
  | wait =>
    simp only [step, System.wait]
    split
    · rename_i hready
      exact .inr (.wait hready.1 hready.2)
    · exact .inl rfl

theorem System.step_keeps {I : System n σ → Prop} {publish : σ → PipelineItem → σ}
    {s : System n σ} {a : Action n} (h : I s) (hmove : ∀ s', Moves publish s a s' → I s') :
    I (s.step publish a) := by
  rcases s.step_cases publish a with hsame | hm
  · rw [hsame]
    exact h
  · exact hmove _ hm

end Gomq.Pipeline
