import Gomq.Pipeline.Flow
import Mathlib.Algebra.BigOperators.Fin
import Mathlib.Algebra.Order.BigOperators.Group.Finset

/-!
# Flush and its wake-ups

The counter is the number of items in the hands of submitters, in the channel and in batches
(`Accounted`). Whoever brings it to zero broadcasts afterwards, but neither the subtraction nor the
broadcast is made under the lock of the condition variable. A caller of `Flush` that has read a
positive counter and is not yet on the list of waiters misses a broadcast in between, and sleeps
with nothing left to wake it (`flush_sleeps`). `no_lost_wakeup`: this is the only way.
-/

namespace Gomq.Pipeline

open Broker

variable {n : Setup} {σ : Type}

/-! ## The counter -/

def Submitter.counted : Submitter → ℤ
  | .sending _ => 1
  | .dropping => 1
  | _ => 0

/-- What the counter has for a worker. -/
def Worker.load : Worker → ℤ
  | .filling batch => batch.length
  | .draining batch => batch.length
  | .receiving batch => batch.length
  | .publishing _ k _ => k
  | _ => 0

@[simp] theorem counted_idle : Submitter.idle.counted = 0 := rfl

@[simp] theorem counted_sending (item : PipelineItem) : (Submitter.sending item).counted = 1 := rfl

@[simp] theorem counted_dropping : Submitter.dropping.counted = 1 := rfl

@[simp] theorem counted_dropped : Submitter.dropped.counted = 0 := rfl

@[simp] theorem load_selecting : Worker.selecting.load = 0 := rfl

@[simp] theorem load_filling (batch : List PipelineItem) :
    (Worker.filling batch).load = batch.length := rfl

@[simp] theorem load_draining (batch : List PipelineItem) :
    (Worker.draining batch).load = batch.length := rfl

@[simp] theorem load_receiving (batch : List PipelineItem) :
    (Worker.receiving batch).load = batch.length := rfl

@[simp] theorem load_publishing (todo : List PipelineItem) (k : ℕ) (exits : Bool) :
    (Worker.publishing todo k exits).load = k := rfl

@[simp] theorem load_broadcasting (exits : Bool) : (Worker.broadcasting exits).load = 0 := rfl

@[simp] theorem load_leaving : Worker.leaving.load = 0 := rfl

@[simp] theorem load_done : Worker.done.load = 0 := rfl

/-- The counter is the number of items between their `Submit` and the end of their batch. -/
def Accounted (s : System n σ) : Prop :=
  s.inFlight = ∑ g, (s.submitters g).counted + s.input.length + ∑ w, (s.workers w).load

theorem sum_update {m : ℕ} {α : Type} (F : α → ℤ) (f : Fin m → α) (i : Fin m) (a : α) :
    ∑ j, F (Function.update f i a j) = ∑ j, F (f j) - F (f i) + F a := by
  have hcomp : (fun j => F (Function.update f i a j)) = Function.update (F ∘ f) i (F a) :=
    Function.comp_update F f i a
  rw [hcomp, Finset.sum_update_of_mem (Finset.mem_univ i),
    ← Finset.sum_sdiff (Finset.subset_univ {i}), Finset.sum_singleton]
  simp only [Function.comp_apply]
  ring

theorem Submitter.counted_nonneg (g : Submitter) : 0 ≤ g.counted := by
  cases g <;> simp [Submitter.counted]

theorem Worker.load_nonneg (w : Worker) : 0 ≤ w.load := by
  cases w <;> simp [Worker.load]

theorem Accounted.nonneg {s : System n σ} (h : Accounted s) : 0 ≤ s.inFlight := by
  have hsub : 0 ≤ ∑ g, (s.submitters g).counted :=
    Finset.sum_nonneg fun g _ => (s.submitters g).counted_nonneg
  have hwork : 0 ≤ ∑ w, (s.workers w).load :=
    Finset.sum_nonneg fun w _ => (s.workers w).load_nonneg
  unfold Accounted at h
  omega

theorem accounted_start (n : Setup) (broker : σ) : Accounted (start n broker) := by
  simp [Accounted, start, Submitter.counted, Worker.load]

@[simp] theorem load_next (exits : Bool) : (Worker.next exits).load = 0 := by
  cases exits <;> rfl

@[simp] theorem load_drained (order : List GoString) (batch : List PipelineItem) :
    (Worker.drained order batch).load = batch.length := by
  unfold Worker.drained
  split
  · rename_i h
    simp [h, Worker.load]
  · rfl

theorem sum_setSubmitter (s : System n σ) (g : Fin n.submitters) (state : Submitter) :
    ∑ x, ((s.setSubmitter g state).submitters x).counted =
      ∑ x, (s.submitters x).counted - (s.submitters g).counted + state.counted :=
  sum_update Submitter.counted s.submitters g state

theorem sum_setWorker (s : System n σ) (w : Fin n.workers) (state : Worker) :
    ∑ x, ((s.setWorker w state).workers x).load =
      ∑ x, (s.workers x).load - (s.workers w).load + state.load :=
  sum_update Worker.load s.workers w state

theorem Accounted.submitter {s : System n σ} {g : Fin n.submitters} {state : Submitter}
    (h : s.inFlight = ∑ x, (s.submitters x).counted - (s.submitters g).counted + state.counted +
      s.input.length + ∑ w, (s.workers w).load) : Accounted (s.setSubmitter g state) := by
  unfold Accounted
  rw [sum_setSubmitter]
  exact h

theorem Accounted.worker {s : System n σ} {w : Fin n.workers} {state : Worker}
    (h : s.inFlight = ∑ g, (s.submitters g).counted + s.input.length +
      (∑ x, (s.workers x).load - (s.workers w).load + state.load)) :
    Accounted (s.setWorker w state) := by
  unfold Accounted
  rw [sum_setWorker]
  exact h

theorem Accounted.moves {s s' : System n σ} {publish : σ → PipelineItem → σ} {a : Action n}
    (h : Accounted s) (hm : Moves publish s a s') : Accounted s' := by
  have heq := h
  unfold Accounted at heq
  cases hm with
  | submit hg =>
    apply Accounted.submitter
    simp only [hg, counted_idle, counted_sending]
    omega
  | send hg hroom =>
    apply Accounted.submitter
    simp only [hg, counted_idle, counted_sending, List.length_append, List.length_singleton]
    push_cast
    omega
  | refuse hg hc =>
    apply Accounted.submitter
    simp only [hg, counted_dropping, counted_sending]
    omega
  | uncount hg =>
    apply Accounted.submitter
    simp only [hg, counted_dropping, counted_dropped]
    omega
  | broadcastDrop hg =>
    apply Accounted.submitter
    simp only [System.wakeAll, hg, counted_dropped, counted_idle]
    omega
  -- an item goes from the channel to a batch
  | receiveFirst hinput hw =>
    rw [hinput, List.length_cons] at heq
    apply Accounted.worker
    simp only [hw, load_filling, load_selecting, List.length_singleton]
    push_cast at heq ⊢
    omega
  | receiveMore hinput hw hroom =>
    rw [hinput, List.length_cons] at heq
    apply Accounted.worker
    simp only [hw, load_filling, List.length_append, List.length_singleton]
    push_cast at heq ⊢
    omega
  | receiveLate hinput hw =>
    rw [hinput, List.length_cons] at heq
    apply Accounted.worker
    simp only [hw, load_receiving, load_draining, List.length_append, List.length_singleton]
    push_cast at heq ⊢
    omega
  -- the batch stays what it is
  | gathered hw hend horder =>
    apply Accounted.worker
    simp only [hw, load_filling, load_publishing]
    omega
  | seeDone hw hc =>
    apply Accounted.worker
    simp only [hw, load_selecting, load_draining, List.length_nil]
    push_cast
    omega
  | checkMore hw hne =>
    apply Accounted.worker
    simp only [hw, load_receiving, load_draining]
    omega
  | checkEmpty hw hempty horder =>
    apply Accounted.worker
    simp only [hw, load_drained, load_draining]
    omega
  | foundEmpty hw hempty horder =>
    apply Accounted.worker
    simp only [hw, load_drained, load_receiving]
    omega
  | publish hw =>
    apply Accounted.worker
    simp only [hw, load_publishing]
    omega
  | @settle w k exits hw =>
    apply Accounted.worker
    have hzero : (if s.inFlight - k = 0 then Worker.broadcasting exits
        else Worker.next exits).load = 0 := by
      split
      · rfl
      · exact load_next exits
    simp only [hw, hzero, load_publishing]
    omega
  | broadcast hw =>
    apply Accounted.worker
    simp only [System.wakeAll, hw, load_next, load_broadcasting]
    omega
  | leave hw =>
    apply Accounted.worker
    simp only [System.wakeAll, hw, load_leaving, load_done]
    omega
  | _ => exact h

theorem Accounted.step {s : System n σ} (h : Accounted s) (publish : σ → PipelineItem → σ)
    (a : Action n) : Accounted (s.step publish a) :=
  System.step_keeps h fun _ => h.moves

/-! ## Waiting for a broadcast -/

def Flusher.waits : Flusher → Bool
  | .registered false => true
  | .asleep => true
  | _ => false

def Worker.due : Worker → Bool
  | .broadcasting _ => true
  | .leaving => true
  | _ => false

/-- A broadcast is still to come from a goroutine that has done its subtraction. -/
def System.BroadcastDue (s : System n σ) : Prop :=
  (∃ w, (s.workers w).due = true) ∨ ∃ g, s.submitters g = .dropped

/-- Whoever waits will be woken: the counter is positive, or a broadcast is due. -/
def Wakeable (s : System n σ) : Prop :=
  ∀ f, (s.flushers f).waits = true → 0 < s.inFlight ∨ s.BroadcastDue

/-- A caller of `Flush` gets on the list of waiters while the counter is positive or a broadcast is
due. -/
def Attended (s : System n σ) : Action n → Prop
  | .register f => s.flushers f = .found → 0 < s.inFlight ∨ s.BroadcastDue
  | _ => True

/-- A caller of `Flush` sleeps although nothing is in flight and nobody has anything left to do. -/
def Lost (s : System n σ) : Prop :=
  (∃ f, s.flushers f = .asleep) ∧ s.inFlight = 0 ∧ s.input = [] ∧
    (∀ g, s.submitters g = .idle) ∧ ∀ w, s.workers w = .selecting

section Steps

variable {s s' : System n σ} {publish : σ → PipelineItem → σ} {a : Action n}

theorem wakeable_of_woken (h : ∀ f, s'.flushers f = (s.flushers f).wake) : Wakeable s' := by
  intro f hf
  rw [h f] at hf
  cases hs : s.flushers f with
  | registered woken =>
    rw [hs] at hf
    cases hf
  | _ =>
    rw [hs] at hf
    cases hf

theorem due_setWorker {w : Fin n.workers} {state : Worker} (hw : (s.workers w).due = false)
    (h : s.BroadcastDue) : (s.setWorker w state).BroadcastDue := by
  rcases h with ⟨w', hw'⟩ | hg
  · refine .inl ⟨w', ?_⟩
    have hne : w' ≠ w := by
      rintro rfl
      rw [hw] at hw'
      cases hw'
    simpa [System.setWorker, hne] using hw'
  · exact .inr hg

theorem due_setSubmitter {g : Fin n.submitters} {state : Submitter}
    (hg : s.submitters g ≠ .dropped) (h : s.BroadcastDue) :
    (s.setSubmitter g state).BroadcastDue := by
  rcases h with hw | ⟨g', hg'⟩
  · exact .inl hw
  · refine .inr ⟨g', ?_⟩
    have hne : g' ≠ g := by
      rintro rfl
      exact hg hg'
    simpa [System.setSubmitter, hne] using hg'

theorem Wakeable.of_due (h : Wakeable s) (hflush : s'.flushers = s.flushers)
    (hcount : s'.inFlight = s.inFlight) (hdue : s.BroadcastDue → s'.BroadcastDue) :
    Wakeable s' := by
  intro f hf
  rw [hflush] at hf
  rw [hcount]
  exact (h f hf).imp_right hdue

theorem Wakeable.worker (h : Wakeable s) {w : Fin n.workers} {state : Worker}
    (hw : (s.workers w).due = false) : Wakeable (s.setWorker w state) :=
  h.of_due rfl rfl (due_setWorker hw)

theorem Wakeable.flusher (h : Wakeable s) {f : ℕ} {state : Flusher}
    (hstate : state.waits = true → 0 < s.inFlight ∨ s.BroadcastDue) :
    Wakeable (s.setFlusher f state) := by
  intro f' hf'
  by_cases hne : f' = f
  · subst hne
    exact hstate (by simpa [System.setFlusher] using hf')
  · exact h f' (by simpa [System.setFlusher, hne] using hf')

theorem Wakeable.flusher_awake (h : Wakeable s) {f : ℕ} {state : Flusher}
    (hstate : state.waits = false) : Wakeable (s.setFlusher f state) :=
  h.flusher fun hwaits => absurd hwaits (Bool.eq_false_iff.mp hstate)

theorem wakeable_start (n : Setup) (broker : σ) : Wakeable (start n broker) := by
  intro f hf
  cases hf

theorem Wakeable.take (h : Wakeable s) {w : Fin n.workers} {item : PipelineItem}
    {input : List PipelineItem} {state : Worker} (hw : (s.workers w).due = false) :
    Wakeable (s.take w item input state) := by
  have hmid : Wakeable { s with input := input, taken := s.taken ++ [(w, item)] } :=
    h.of_due rfl rfl id
  exact hmid.worker hw

theorem Wakeable.moves (h : Wakeable s) (ha : Accounted s) (hatt : Attended s a)
    (hm : Moves publish s a s') : Wakeable s' := by
  have hafter := ha.moves hm
  cases hm with
  | submit hg =>
    have hnonneg := ha.nonneg
    intro f _
    refine .inl ?_
    show 0 < s.inFlight + 1
    omega
  | send hg hroom => exact h.of_due rfl rfl fun hd => due_setSubmitter (by simp [hg]) hd
  | refuse hg hc => exact h.of_due rfl rfl (due_setSubmitter (by simp [hg]))
  | @uncount g hg => exact fun f _ => .inr (.inr ⟨g, by simp [System.setSubmitter]⟩)
  | broadcastDrop | broadcast | leave => exact wakeable_of_woken (s := s) fun _ => rfl
  | receiveFirst _ hw | receiveMore _ hw _ | receiveLate _ hw => exact h.take (by rw [hw]; rfl)
  | gathered hw _ _ | seeDone hw _ | checkMore hw _ | checkEmpty hw _ _ | foundEmpty hw _ _ =>
    exact h.worker (by rw [hw]; rfl)
  | @publish w item todo k exits hw =>
    have hmid : Wakeable
        { s with
          broker := publish s.broker item
          published := s.published ++ [(w, item)] } := h.of_due rfl rfl id
    exact hmid.worker (by rw [hw]; rfl)
  | @settle w k exits hw =>
    -- either the counter is still positive, or this worker broadcasts next
    have hnonneg := hafter.nonneg
    intro f _
    by_cases hzero : s.inFlight - k = 0
    · refine .inr (.inl ⟨w, ?_⟩)
      simp [System.setWorker, hzero, Worker.due]
    · refine .inl ?_
      change 0 ≤ s.inFlight - k at hnonneg
      show 0 < s.inFlight - k
      omega
  | @acquire f hlock hf =>
    have hmid : Wakeable { s with lock := some f } := h.of_due rfl rfl id
    exact hmid.flusher_awake rfl
  | loadInFlight hf =>
    refine h.flusher_awake ?_
    split <;> rfl
  | loadLen hf =>
    refine h.flusher_awake ?_
    split <;> rfl
  | register hf => exact h.flusher fun _ => hatt hf
  | @release f woken hf =>
    have hmid : Wakeable { s with lock := none } := h.of_due rfl rfl id
    refine hmid.flusher fun hwaits => ?_
    -- who is not woken waited already
    cases woken with
    | true => cases hwaits
    | false => exact h f (by rw [hf]; rfl)
  | unlock hf =>
    have hmid : Wakeable { s with lock := none } := h.of_due rfl rfl id
    exact hmid.flusher_awake rfl
  | cancel => exact h.of_due rfl rfl id
  | wait => exact h.of_due rfl rfl id

theorem Wakeable.step (h : Wakeable s) (ha : Accounted s) (publish : σ → PipelineItem → σ)
    (hatt : Attended s a) : Wakeable (s.step publish a) :=
  System.step_keeps h fun _ => h.moves ha hatt

theorem Wakeable.not_lost (h : Wakeable s) : ¬Lost s := by
  rintro ⟨⟨f, hf⟩, hcount, -, hsub, hwork⟩
  rcases h f (by rw [hf]; rfl) with hpos | ⟨w, hw⟩ | ⟨g, hg⟩
  · omega
  · rw [hwork w] at hw
    cases hw
  · rw [hsub g] at hg
    cases hg

end Steps

/-- In every run in which each caller of `Flush` gets on the list of waiters while the counter is
positive or a broadcast is due, no caller is left asleep. -/
theorem no_lost_wakeup (publish : σ → PipelineItem → σ) (cfg : PipelineConfig) (submitters : ℕ)
    (broker : σ) (as : List (Action (cfg.setup submitters)))
    (h : Along (System.step publish) Attended (start (cfg.setup submitters) broker) as) :
    ¬Lost (as.foldl (System.step publish) (start (cfg.setup submitters) broker)) := by
  have hinv := h.inv (I := fun s => Wakeable s ∧ Accounted s)
    (fun s a hs ha => ⟨hs.1.step hs.2 publish ha, hs.2.step publish a⟩)
    ⟨wakeable_start _ broker, accounted_start _ broker⟩
  exact hinv.1.not_lost

def attendedRun : List (Action twoWorkers) :=
  let g := onlySubmitter
  let w := firstWorker
  [.submit g ⟨0, str "ex", str "rk", 0, 1⟩, .send g, .acquire 0, .loadInFlight 0, .register 0,
    .receive w, .gathered w [str "ex"], .publish w, .settle w, .release 0, .broadcast w]

theorem no_lost_wakeup_attendedRun :
    Along (System.step fun b _ => b) Attended (start twoWorkers ()) attendedRun ∧
      ¬Lost (attendedRun.foldl (System.step fun b _ => b) (start twoWorkers ())) := by
  have halong : Along (System.step fun b _ => b) Attended (start twoWorkers ()) attendedRun :=
    ⟨trivial, trivial, trivial, trivial, fun _ => .inl (by decide), trivial, trivial, trivial,
      trivial, trivial, trivial, trivial⟩
  exact ⟨halong, no_lost_wakeup (fun b _ => b) ⟨2, 2, 2⟩ 1 () attendedRun halong⟩

/-- The caller reads a positive counter; then the batch is published and subtracted, and the worker
broadcasts; then the caller gets on the list. -/
def missedRun : List (Action twoWorkers) :=
  let g := onlySubmitter
  let w := firstWorker
  [.submit g ⟨0, str "ex", str "rk", 0, 1⟩, .send g, .acquire 0, .loadInFlight 0, .receive w,
    .gathered w [str "ex"], .publish w, .settle w, .broadcast w, .register 0, .release 0]

theorem flush_sleeps :
    (missedRun.foldl (System.step fun b _ => b) (start twoWorkers ())).cancelled = false ∧
      Lost (missedRun.foldl (System.step fun b _ => b) (start twoWorkers ())) :=
  ⟨by decide, ⟨0, by decide⟩, by decide, by decide, by decide, by decide⟩

end Gomq.Pipeline
