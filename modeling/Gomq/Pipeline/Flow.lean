import Gomq.Pipeline.System
import Mathlib.Data.Multiset.MapFold

/-!
# Where the items are

Every item that was sent has been taken by one worker or is in the channel, and of what a worker
took it has published some and holds the rest, exchange by exchange in the order of the channel
(`Flow`). A worker leaves only after it has seen the channel empty with the context cancelled, so
no item that was sent before that stays in the channel: `published_exactly_once`.
-/

namespace Gomq.Pipeline

open Broker List

variable {n : Setup} {σ : Type}

/-! ## Batches -/

def toExchange (ex : GoString) (l : List PipelineItem) : List PipelineItem :=
  l.filter fun item => item.exchange = ex

@[simp] theorem toExchange_nil (ex : GoString) : toExchange ex [] = [] := rfl

@[simp] theorem toExchange_append (ex : GoString) (l l' : List PipelineItem) :
    toExchange ex (l ++ l') = toExchange ex l ++ toExchange ex l' := filter_append ..

theorem toExchange_cons (ex : GoString) (item : PipelineItem) (l : List PipelineItem) :
    toExchange ex (item :: l) = toExchange ex [item] ++ toExchange ex l :=
  toExchange_append ex [item] l

theorem mem_toExchange {ex : GoString} {l : List PipelineItem} {item : PipelineItem} :
    item ∈ toExchange ex l ↔ item ∈ l ∧ item.exchange = ex := by
  simp [toExchange]

theorem count_toExchange (l : List PipelineItem) (item : PipelineItem) :
    (toExchange item.exchange l).count item = l.count item :=
  count_filter (by simp)

theorem foldl_byEx (batch : List PipelineItem) (m : GoMap GoString (List PipelineItem))
    (ex : GoString) :
    (batch.foldl (fun m item => m.set item.exchange (m.getD item.exchange [] ++ [item])) m).getD
      ex [] = m.getD ex [] ++ toExchange ex batch := by
  induction batch generalizing m with
  | nil => simp
  | cons item batch ih =>
    rw [foldl_cons, ih, GoMap.getD_set]
    by_cases h : ex = item.exchange
    · subst h
      simp [toExchange]
    · simp [toExchange, h, Ne.symm h]

theorem getD_byEx (batch : List PipelineItem) (ex : GoString) :
    (byEx batch).getD ex [] = toExchange ex batch := by
  rw [byEx, foldl_byEx]
  rfl

theorem mem_keys_byEx {batch : List PipelineItem} {ex : GoString}
    (h : toExchange ex batch ≠ []) : ex ∈ (byEx batch).keys := by
  rw [← getD_byEx] at h
  cases hex : (byEx batch).get ex with
  | none => exact absurd (GoMap.getD_of_none hex) h
  | some l => exact GoMap.mem_keys_iff.mpr ⟨l, hex⟩

theorem toExchange_toExchange (ex ex' : GoString) (l : List PipelineItem) :
    toExchange ex (toExchange ex' l) = if ex = ex' then toExchange ex l else [] := by
  unfold toExchange
  rw [filter_filter]
  split
  · rename_i h
    subst h
    simp
  · rename_i h
    refine filter_eq_nil_iff.mpr fun item _ hboth => h ?_
    simp only [Bool.and_eq_true, decide_eq_true_eq] at hboth
    exact hboth.1.symm.trans hboth.2

theorem toExchange_flatMap (ex : GoString) (batch : List PipelineItem) {order : List GoString}
    (hnd : order.Nodup) :
    toExchange ex (order.flatMap fun ex' => toExchange ex' batch) =
      if ex ∈ order then toExchange ex batch else [] := by
  induction order with
  | nil => rfl
  | cons ex' order ih =>
    obtain ⟨hnot, hnd⟩ := nodup_cons.mp hnd
    rw [flatMap_cons, toExchange_append, ih hnd, toExchange_toExchange]
    by_cases h : ex = ex'
    · subst h
      simp [hnot]
    · simp [h]

/-- However the map is ranged over, the items for an exchange stay in order. -/
theorem toExchange_grouped {order : List GoString} {batch : List PipelineItem}
    (h : RangeOrder order batch) (ex : GoString) :
    toExchange ex (grouped order batch) = toExchange ex batch := by
  unfold grouped
  simp only [getD_byEx]
  rw [toExchange_flatMap ex batch (h.nodup_iff.mpr (byEx batch).nodupKeys)]
  split
  · rfl
  · rename_i hnot
    by_contra hne
    exact hnot (h.mem_iff.mpr (mem_keys_byEx (Ne.symm hne)))

/-! ## What the workers have -/

def ofWorker (w : Fin n.workers) (l : List (Fin n.workers × PipelineItem)) : List PipelineItem :=
  (l.filter fun p => p.1 = w).map Prod.snd

@[simp] theorem ofWorker_concat (w w' : Fin n.workers)
    (l : List (Fin n.workers × PipelineItem)) (item : PipelineItem) :
    ofWorker w (l ++ [(w', item)]) = ofWorker w l ++ if w' = w then [item] else [] := by
  unfold ofWorker
  rw [filter_append, map_append]
  by_cases h : w' = w <;> simp [h]

theorem mem_ofWorker {w : Fin n.workers} {l : List (Fin n.workers × PipelineItem)}
    {item : PipelineItem} : item ∈ ofWorker w l ↔ (w, item) ∈ l := by
  unfold ofWorker
  constructor
  · intro h
    obtain ⟨⟨w', i⟩, hp, rfl⟩ := mem_map.mp h
    obtain ⟨hmem, hw⟩ := mem_filter.mp hp
    obtain rfl : w' = w := by simpa using hw
    exact hmem
  · intro h
    exact mem_map.mpr ⟨(w, item), mem_filter.mpr ⟨h, by simp⟩, rfl⟩

theorem count_ofWorker (w : Fin n.workers) (l : List (Fin n.workers × PipelineItem))
    (item : PipelineItem) :
    (ofWorker w l).count item =
      Multiset.count (w, item) (l : Multiset (Fin n.workers × PipelineItem)) := by
  induction l with
  | nil => rfl
  | cons p l ih =>
    obtain ⟨w', item'⟩ := p
    have hcons : ofWorker w ((w', item') :: l) =
        (if w' = w then [item'] else []) ++ ofWorker w l := by
      unfold ofWorker
      by_cases h : w' = w <;> simp [h]
    rw [hcons, count_append, ih, ← Multiset.cons_coe, Multiset.count_cons]
    by_cases h : w' = w
    · subst h
      by_cases hi : item' = item
      · simp [hi, Nat.add_comm]
      · simp [hi, Ne.symm hi]
    · simp [h, Ne.symm h]

def Worker.held : Worker → List PipelineItem
  | .filling batch => batch
  | .draining batch => batch
  | .receiving batch => batch
  | .publishing todo _ _ => todo
  | _ => []

def Worker.late : Worker → Bool
  | .draining _ => true
  | .receiving _ => true
  | .publishing _ _ exits => exits
  | .broadcasting exits => exits
  | .leaving => true
  | .done => true
  | _ => false

def Worker.emptied : Worker → Bool
  | .publishing _ _ exits => exits
  | .broadcasting exits => exits
  | .leaving => true
  | .done => true
  | _ => false

structure Flow (s : System n σ) : Prop where
  /-- what was sent was taken, in this order, or is in the channel -/
  fifo : s.sent = s.taken.map Prod.snd ++ s.input
  refs : s.sent.map PipelineItem.ref = List.range s.sent.length
  /-- what a worker took it has published or holds -/
  kept : ∀ w ex, toExchange ex (ofWorker w s.published) ++ toExchange ex (s.workers w).held =
    toExchange ex (ofWorker w s.taken)
  accepted : ∀ item ∈ s.accepted, item ∈ s.sent
  late : ∀ w, (s.workers w).late = true → s.cancelled = true
  emptied : ∀ w, (s.workers w).emptied = true → ∀ item ∈ s.accepted, item ∉ s.input

theorem flow_start (n : Setup) (broker : σ) : Flow (start n broker) :=
  ⟨rfl, rfl, fun _ _ => rfl, nofun, nofun, nofun⟩

section Steps

variable {s s' : System n σ} {publish : σ → PipelineItem → σ} {a : Action n}

theorem Flow.frame (h : Flow s) (hinput : s'.input = s.input) (hsent : s'.sent = s.sent)
    (haccepted : s'.accepted = s.accepted) (htaken : s'.taken = s.taken)
    (hpublished : s'.published = s.published) (hworkers : s'.workers = s.workers)
    (hcancelled : s.cancelled = true → s'.cancelled = true) : Flow s' := by
  refine ⟨?_, ?_, ?_, ?_, ?_, ?_⟩
  · rw [hsent, htaken, hinput]
    exact h.fifo
  · rw [hsent]
    exact h.refs
  · rw [hpublished, hworkers, htaken]
    exact h.kept
  · rw [haccepted, hsent]
    exact h.accepted
  · intro w hw
    rw [hworkers] at hw
    exact hcancelled (h.late w hw)
  · rw [hworkers, haccepted, hinput]
    exact h.emptied

theorem Flow.setWorker (h : Flow s) {w : Fin n.workers} {state : Worker}
    (hheld : ∀ ex, toExchange ex state.held = toExchange ex (s.workers w).held)
    (hlate : state.late = true → s.cancelled = true)
    (hemptied : state.emptied = true → ∀ item ∈ s.accepted, item ∉ s.input) :
    Flow (s.setWorker w state) := by
  refine ⟨h.fifo, h.refs, ?_, h.accepted, ?_, ?_⟩
  · intro w' ex
    refine Eq.trans ?_ (h.kept w' ex)
    by_cases hw : w' = w
    · subst hw
      simp [System.setWorker, hheld]
    · simp [System.setWorker, hw]
  · intro w' hw'
    by_cases hw : w' = w
    · subst hw
      exact hlate (by simpa [System.setWorker] using hw')
    · exact h.late w' (by simpa [System.setWorker, hw] using hw')
  · intro w' hw'
    by_cases hw : w' = w
    · subst hw
      exact hemptied (by simpa [System.setWorker] using hw')
    · exact h.emptied w' (by simpa [System.setWorker, hw] using hw')

theorem Flow.ref_lt (h : Flow s) {item : PipelineItem} (hi : item ∈ s.sent) :
    item.ref < s.sent.length := by
  have := mem_map_of_mem (f := PipelineItem.ref) hi
  rw [h.refs] at this
  exact mem_range.mp this

theorem Flow.nodup_sent (h : Flow s) : s.sent.Nodup :=
  List.Nodup.of_map PipelineItem.ref (h.refs ▸ nodup_range)

theorem Flow.send (h : Flow s) {g : Fin n.submitters} (hm : Moves publish s (.send g) s') :
    Flow s' := by
  cases hm with
  | @send _ item hg hroom =>
    have hnew : ∀ i ∈ s.accepted, i ≠ { item with ref := s.sent.length } := by
      rintro i hi rfl
      have := h.ref_lt (h.accepted _ hi)
      simp at this
    refine ⟨?_, ?_, h.kept, ?_, h.late, ?_⟩
    · simp [System.setSubmitter, h.fifo]
    · simp [System.setSubmitter, h.refs, range_succ]
    · intro i hi
      simp only [System.setSubmitter] at hi ⊢
      split at hi
      · exact mem_append_left _ (h.accepted i hi)
      · rcases mem_append.mp hi with hi | hi
        · exact mem_append_left _ (h.accepted i hi)
        · exact mem_append_right _ hi
    · intro w hw i hi
      -- the context is cancelled, so the item sent now is not among those accepted
      have hc : s.cancelled = true := h.late w (by
        revert hw
        show (s.workers w).emptied = true → _
        cases s.workers w <;> simp [Worker.emptied, Worker.late])
      simp only [System.setSubmitter, hc, if_true] at hi ⊢
      rw [mem_append, not_or, mem_singleton]
      exact ⟨h.emptied w hw i hi, hnew i hi⟩

theorem Flow.take (h : Flow s) {w : Fin n.workers} {item : PipelineItem}
    {input : List PipelineItem} (hinput : s.input = item :: input) {state : Worker}
    (hheld : state.held = (s.workers w).held ++ [item])
    (hlate : state.late = true → s.cancelled = true) (hemptied : state.emptied = false) :
    Flow (s.take w item input state) := by
  refine ⟨?_, h.refs, ?_, h.accepted, ?_, ?_⟩
  · simp [System.take, System.setWorker, h.fifo, hinput]
  · intro w' ex
    simp only [System.take, System.setWorker, ofWorker_concat, toExchange_append]
    rw [← h.kept w' ex]
    by_cases hw : w' = w
    · subst hw
      simp [hheld]
    · simp [hw, Ne.symm hw]
  · intro w' hw'
    by_cases hw : w' = w
    · subst hw
      exact hlate (by simpa [System.take, System.setWorker] using hw')
    · exact h.late w' (by simpa [System.take, System.setWorker, hw] using hw')
  · intro w' hw' i hi hin
    by_cases hw : w' = w
    · subst hw
      simp [System.take, System.setWorker, hemptied] at hw'
    · refine h.emptied w' (by simpa [System.take, System.setWorker, hw] using hw') i hi ?_
      rw [hinput]
      exact mem_cons_of_mem _ hin

theorem held_drained {order : List GoString} {batch : List PipelineItem}
    (h : RangeOrder order batch) (ex : GoString) :
    toExchange ex (Worker.drained order batch).held = toExchange ex batch := by
  unfold Worker.drained
  split
  · rename_i hnil
    rw [hnil]
    rfl
  · exact toExchange_grouped h ex

theorem Flow.drained (h : Flow s) {w : Fin n.workers} {order : List GoString}
    {batch : List PipelineItem} (hheld : (s.workers w).held = batch)
    (hlate : (s.workers w).late = true) (hinput : s.input = []) (horder : RangeOrder order batch) :
    Flow (s.setWorker w (.drained order batch)) := by
  refine h.setWorker (fun ex => ?_) (fun _ => h.late w hlate) (fun _ item _ => ?_)
  · rw [held_drained horder, hheld]
  · rw [hinput]
    exact not_mem_nil

theorem Flow.publishNext (h : Flow s) {w : Fin n.workers}
    (hm : Moves publish s (.publish w) s') : Flow s' := by
  cases hm with
  | @publish _ item todo k exits hw =>
    refine ⟨h.fifo, h.refs, ?_, h.accepted, ?_, ?_⟩
    · intro w' ex
      simp only [System.setWorker, ofWorker_concat, toExchange_append]
      rw [← h.kept w' ex]
      by_cases hw' : w' = w
      · subst hw'
        simp [hw, Worker.held, toExchange_cons ex item todo]
      · simp [hw', Ne.symm hw']
    · intro w' hl
      by_cases hw' : w' = w
      · subst hw'
        exact h.late w' (by simpa [System.setWorker, hw, Worker.late] using hl)
      · exact h.late w' (by simpa [System.setWorker, hw'] using hl)
    · intro w' he
      by_cases hw' : w' = w
      · subst hw'
        exact h.emptied w' (by simpa [System.setWorker, hw, Worker.emptied] using he)
      · exact h.emptied w' (by simpa [System.setWorker, hw'] using he)

theorem late_next (exits : Bool) : (Worker.next exits).late = exits := by cases exits <;> rfl

theorem emptied_next (exits : Bool) : (Worker.next exits).emptied = exits := by
  cases exits <;> rfl

theorem held_next (exits : Bool) : (Worker.next exits).held = [] := by cases exits <;> rfl

theorem Flow.advance (h : Flow s) {w : Fin n.workers} {state : Worker}
    (hbefore : (s.workers w).held = []) (hheld : state.held = [])
    (hlate : state.late = true → (s.workers w).late = true)
    (hemptied : state.emptied = true → (s.workers w).emptied = true) :
    Flow (s.setWorker w state) :=
  h.setWorker (fun ex => by rw [hheld, hbefore]) (fun hl => h.late w (hlate hl))
    (fun he => h.emptied w (hemptied he))

theorem Flow.settle (h : Flow s) {w : Fin n.workers} (hm : Moves publish s (.settle w) s') :
    Flow s' := by
  cases hm with
  | @settle _ k exits hw =>
    have h' : Flow { s with inFlight := s.inFlight - k } :=
      h.frame rfl rfl rfl rfl rfl rfl id
    refine h'.advance (by rw [hw]; rfl) ?_ ?_ ?_
    · split
      · rfl
      · exact held_next exits
    · rw [hw]
      split
      · exact id
      · rw [late_next]
        exact id
    · rw [hw]
      split
      · exact id
      · rw [emptied_next]
        exact id

theorem Flow.broadcast (h : Flow s) {w : Fin n.workers} (hm : Moves publish s (.broadcast w) s') :
    Flow s' := by
  have hwake : Flow s.wakeAll := h.frame rfl rfl rfl rfl rfl rfl id
  cases hm with
  | @broadcast _ exits hw =>
    refine hwake.advance ?_ (held_next exits) ?_ ?_ <;> dsimp only [System.wakeAll] <;> rw [hw]
    · rfl
    · rw [late_next]
      exact id
    · rw [emptied_next]
      exact id
  | leave hw =>
    refine hwake.advance ?_ rfl ?_ ?_ <;> dsimp only [System.wakeAll] <;> rw [hw]
    · rfl
    · exact id
    · exact id

theorem Flow.moves (h : Flow s) (hm : Moves publish s a s') : Flow s' := by
  have hmove := hm
  cases hm with
  | send => exact h.send hmove
  | receiveFirst hinput hw => exact h.take hinput (by simp [Worker.held, hw]) nofun rfl
  | receiveMore hinput hw hroom => exact h.take hinput (by simp [Worker.held, hw]) nofun rfl
  | receiveLate hinput hw =>
    exact h.take hinput (by simp [Worker.held, hw]) (fun _ => h.late _ (by rw [hw]; rfl)) rfl
  | gathered hw hend horder =>
    refine h.setWorker (fun ex => ?_) nofun nofun
    rw [hw]
    exact toExchange_grouped horder ex
  | seeDone hw hc => exact h.setWorker (fun ex => by rw [hw]; rfl) (fun _ => hc) nofun
  | checkMore hw hne =>
    exact h.setWorker (fun ex => by rw [hw]; rfl) (fun _ => h.late _ (by rw [hw]; rfl)) nofun
  | checkEmpty hw hempty horder =>
    exact h.drained (by rw [hw]; rfl) (by rw [hw]; rfl) hempty horder
  | foundEmpty hw hempty horder =>
    exact h.drained (by rw [hw]; rfl) (by rw [hw]; rfl) hempty horder
  | publish => exact h.publishNext hmove
  | settle => exact h.settle hmove
  | broadcast => exact h.broadcast hmove
  | leave => exact h.broadcast hmove
  | cancel => exact h.frame rfl rfl rfl rfl rfl rfl fun _ => rfl
  | submit | refuse | uncount | broadcastDrop | acquire | loadInFlight | loadLen | register
  | release | unlock | wait => exact h.frame rfl rfl rfl rfl rfl rfl id

theorem Flow.step (h : Flow s) (publish : σ → PipelineItem → σ) (a : Action n) :
    Flow (s.step publish a) :=
  System.step_keeps h fun _ => h.moves

/-! ## Stop -/

def Halted (s : System n σ) : Prop := s.stopped = true → ∀ w, s.workers w = .done

/-- While a worker moves, `Stop` has not returned. -/
theorem Halted.of_moving (h : Halted s) {w : Fin n.workers} (hw : s.workers w ≠ .done)
    (hstopped : s'.stopped = s.stopped) : Halted s' := by
  intro hstop
  rw [hstopped] at hstop
  exact absurd (h hstop w) hw

theorem Halted.moves (h : Halted s) (hm : Moves publish s a s') : Halted s' := by
  cases hm with
  | wait hc hdone => exact fun _ => hdone
  -- a worker that moves has not returned
  | receiveFirst _ hw | receiveMore _ hw _ | receiveLate _ hw | gathered hw _ _ | seeDone hw _
  | checkMore hw _ | checkEmpty hw _ _ | foundEmpty hw _ _ | publish hw | settle hw | broadcast hw
  | leave hw => exact h.of_moving (by rw [hw]; nofun) rfl
  -- the goroutines that submit or flush, and the context
  | _ => exact h

theorem Halted.step (h : Halted s) (publish : σ → PipelineItem → σ) (a : Action n) :
    Halted (s.step publish a) :=
  System.step_keeps h fun _ => h.moves

theorem Flow.published_le (h : Flow s) :
    (s.published : Multiset (Fin n.workers × PipelineItem)) ≤ s.taken := by
  rw [Multiset.le_iff_count]
  rintro ⟨w, item⟩
  rw [← count_ofWorker, ← count_ofWorker, ← count_toExchange,
    ← count_toExchange (ofWorker w s.taken), ← h.kept w item.exchange,
    count_append]
  exact Nat.le_add_right _ _

theorem Flow.count_published_le (h : Flow s) (item : PipelineItem) :
    (s.published.map Prod.snd).count item ≤ 1 := by
  have hle : ((s.published.map Prod.snd : List PipelineItem) : Multiset PipelineItem) ≤
      (s.taken.map Prod.snd : List PipelineItem) := by
    simpa using Multiset.map_le_map h.published_le
  calc (s.published.map Prod.snd).count item
      ≤ (s.taken.map Prod.snd).count item := by simpa using Multiset.count_le_of_le item hle
    _ ≤ s.sent.count item := by
        rw [h.fifo, count_append]
        exact Nat.le_add_right _ _
    _ ≤ 1 := nodup_iff_count_le_one.mp h.nodup_sent item

theorem Flow.mem_published (h : Flow s) (hdone : ∀ w, s.workers w = .done) {item : PipelineItem}
    (hi : item ∈ s.accepted) : item ∈ s.published.map Prod.snd := by
  -- there is a worker, and it has seen the channel empty
  have hout : item ∉ s.input := h.emptied ⟨0, n.workers_pos⟩ (by rw [hdone]; rfl) item hi
  have hsent := h.accepted item hi
  rw [h.fifo] at hsent
  obtain ⟨⟨w, i⟩, htaken, rfl⟩ := mem_map.mp ((mem_append.mp hsent).resolve_right hout)
  have hof : i ∈ toExchange i.exchange (ofWorker w s.taken) :=
    mem_toExchange.mpr ⟨mem_ofWorker.mpr htaken, rfl⟩
  rw [← h.kept w, hdone] at hof
  simp only [Worker.held, toExchange_nil, append_nil, mem_toExchange] at hof
  exact mem_map.mpr ⟨(w, i), mem_ofWorker.mp hof.1, rfl⟩

end Steps

/-- The log of the publishes is the calls of `Publish`, in order: they have made the broker what it
is. -/
def Called (publish : σ → PipelineItem → σ) (broker : σ) (s : System n σ) : Prop :=
  s.broker = (s.published.map Prod.snd).foldl publish broker

theorem Called.step {publish : σ → PipelineItem → σ} {broker : σ} {s : System n σ}
    (h : Called publish broker s) (a : Action n) : Called publish broker (s.step publish a) := by
  refine System.step_keeps h fun s' hm => ?_
  cases hm with
  | publish hw =>
    unfold Called at h ⊢
    simp [System.setWorker, h, foldl_append]
  | _ => exact h

theorem flow_called_run (publish : σ → PipelineItem → σ) (n : Setup) (broker : σ)
    (as : List (Action n)) :
    Flow (as.foldl (System.step publish) (start n broker)) ∧
      Called publish broker (as.foldl (System.step publish) (start n broker)) :=
  foldlRecOn (motive := fun s => Flow s ∧ Called publish broker s) as (System.step publish)
    ⟨flow_start n broker, rfl⟩ (fun _ h a _ => ⟨h.1.step publish a, h.2.step a⟩)

/-- Every item whose `Submit` returned before `Stop` cancelled the context has been passed to
`Publish` exactly once when `Stop` returns, whatever the other goroutines do; and the broker is what
these calls make of it. -/
theorem published_exactly_once (publish : σ → PipelineItem → σ) (cfg : PipelineConfig)
    (submitters : ℕ) (broker : σ) (as : List (Action (cfg.setup submitters)))
    (hstop :
      (as.foldl (System.step publish) (start (cfg.setup submitters) broker)).stopped = true) :
    Called publish broker
        (as.foldl (System.step publish) (start (cfg.setup submitters) broker)) ∧
      ∀ item ∈ (as.foldl (System.step publish) (start (cfg.setup submitters) broker)).accepted,
        ((as.foldl (System.step publish) (start (cfg.setup submitters) broker)).published.map
          Prod.snd).count item = 1 := by
  obtain ⟨hflow, hcalled⟩ := flow_called_run publish (cfg.setup submitters) broker as
  have hhalted := foldlRecOn (motive := Halted) as (System.step publish)
    (show Halted (start (cfg.setup submitters) broker) from nofun) (fun _ h a _ => h.step publish a)
  refine ⟨hcalled, fun item hi => ?_⟩
  have hmem := hflow.mem_published (hhalted hstop) hi
  have hpos := count_pos_iff.mpr hmem
  have hle := hflow.count_published_le item
  omega

abbrev twoWorkers : Setup := PipelineConfig.setup ⟨2, 2, 2⟩ 1

def onlySubmitter : Fin twoWorkers.submitters := ⟨0, by decide⟩

def firstWorker : Fin twoWorkers.workers := ⟨0, by decide⟩

def secondWorker : Fin twoWorkers.workers := ⟨1, by decide⟩

/-- Two items, two workers. The first worker has one item in its batch when the context is
cancelled, the second finds the other one in the channel. -/
def stoppedRun : List (Action twoWorkers) :=
  let item : PipelineItem := ⟨0, str "ex", str "rk", 0, 1⟩
  let g := onlySubmitter
  let w := firstWorker
  let w' := secondWorker
  [.submit g item, .send g, .submit g item, .send g, .receive w, .cancel, .seeDone w',
    .checkInput w' [], .receive w', .checkInput w' [str "ex"], .publish w', .settle w',
    .broadcast w', .gathered w [str "ex"], .publish w, .settle w, .broadcast w, .seeDone w,
    .checkInput w [], .broadcast w, .wait]

theorem published_stoppedRun :
    let s := stoppedRun.foldl (System.step fun b item => b ++ [item]) (start twoWorkers [])
    s.stopped = true ∧ s.accepted.length = 2 ∧
      Called (fun b item => b ++ [item]) [] s ∧
      ∀ item ∈ s.accepted, (s.published.map Prod.snd).count item = 1 :=
  ⟨by decide, by decide,
    published_exactly_once (fun b item => b ++ [item]) ⟨2, 2, 2⟩ 1 [] stoppedRun (by decide)⟩

end Gomq.Pipeline
