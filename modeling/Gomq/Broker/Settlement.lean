import Gomq.Broker.Config
import Gomq.Broker.Handovers
import Gomq.Broker.Settle
import Gomq.Lib.Run

/-!
# Concurrent acknowledgements and refusals

The tracker is shared by all connections and keyed by channel number, so requests of different
connections can name the same delivery. `handleAck` settles it in one locked step. `handleNack` and
`handleReject` look the delivery up, remove it and dead-letter it in three, and drop the error of
the removal: another request may have settled the delivery in between (`acked_and_lettered`). A
delivery is settled once in every run in which each refusal still finds the delivery that it looked
up (`settledOnce_run`).
-/

namespace Gomq.Broker

open Wire Server List

/-! ## Deliveries -/

/-- A tracked delivery. A dead letter is recorded under tag 0 of channel 0 and may replace another
there, so the deliveries of a slot are numbered. -/
structure DeliveryId where
  tag : UInt64
  channelID : UInt16
  generation : ℕ
  deriving DecidableEq

namespace Server

def generation (s : Server) (tag : UInt64) (channelID : UInt16) : ℕ :=
  s.delivered.countP fun d => d.tag == tag && d.channelID == channelID

def tracked (s : Server) (tag : UInt64) (channelID : UInt16) : Option DeliveryId :=
  (s.getDelivery tag channelID).map fun _ => ⟨tag, channelID, s.generation tag channelID⟩

def deadLetters (s : Server) (queueName : GoString) : Bool :=
  ((s.queues.get queueName).bind fun q => getDeadLetterConfig q.args).isSome

end Server

/-! ## Handlers -/

inductive Handler where
  | idle
  /-- about to call `Ack` -/
  | acking (tag : UInt64) (channelID : UInt16)
  /-- about to call `GetDelivery` -/
  | looking (tag : UInt64) (channelID : UInt16) (requeue : Bool)
  /-- about to call `Nack` or `Reject`, which is the same -/
  | removing (tag : UInt64) (channelID : UInt16) (requeue : Bool)
      (found : Option (TrackedDelivery × DeliveryId))
  /-- about to look the queue up and to call `DeadLetter` -/
  | lettering (d : TrackedDelivery) (id : DeliveryId)

inductive SettlementRequest where
  | ack (tag : UInt64)
  | nack (tag : UInt64) (requeue : Bool)
  | reject (tag : UInt64) (requeue : Bool)

inductive Effect where
  | ack
  | requeue
  | deadLetter
  deriving DecidableEq

/-- The broker and the handlers that run. The effects that took place are history. -/
structure Settlement where
  server : Server
  handlers : ℕ → Handler
  effects : List (Effect × DeliveryId)

def SettlementRequest.handler (channelID : UInt16) : SettlementRequest → Handler
  | .ack tag => .acking tag channelID
  | .nack tag requeue => .looking tag channelID requeue
  | .reject tag requeue => .looking tag channelID requeue

inductive SettlementAction where
  /-- a request arrives on a channel with the given number -/
  | accept (i : ℕ) (channelID : UInt16) (req : SettlementRequest)
  /-- the next step of handler `i` -/
  | run (env : Env) (i : ℕ)

namespace Settlement

def start (server : Server) : Settlement := ⟨server, fun _ => .idle, []⟩

def refused : Bool → Option (TrackedDelivery × DeliveryId) → Handler
  | false, some (d, id) => .lettering d id
  | _, _ => .idle

def accept (s : Settlement) (i : ℕ) (channelID : UInt16) (req : SettlementRequest) : Settlement :=
  match s.handlers i with
  | .idle => { s with handlers := Function.update s.handlers i (req.handler channelID) }
  | _ => s

/-- Handler `i` goes to its next place; the server and the effects change as given. -/
def advance (s : Settlement) (i : ℕ) (server : Server) (next : Handler) (effect : Effect)
    (ids : List DeliveryId) : Settlement where
  server := server
  handlers := Function.update s.handlers i next
  effects := s.effects ++ ids.map fun id => (effect, id)

def run (env : Env) (s : Settlement) (i : ℕ) : Settlement :=
  match s.handlers i with
  | .idle => s
  | .acking tag c =>
    s.advance i (s.server.ack tag c).2 .idle .ack (s.server.tracked tag c).toList
  | .looking tag c requeue =>
    let found := (s.server.getDelivery tag c).map fun d =>
      (d, ⟨tag, c, s.server.generation tag c⟩)
    { s with handlers := Function.update s.handlers i (.removing tag c requeue found) }
  | .removing tag c requeue found =>
    s.advance i (s.server.nack tag c requeue).2 (refused requeue found) .requeue
      (if requeue then (s.server.tracked tag c).toList else [])
  | .lettering d id =>
    s.advance i (deadLetterRefused env (some d) false s.server) .idle .deadLetter
      (if s.server.deadLetters d.queueName then [id] else [])

def step (s : Settlement) : SettlementAction → Settlement
  | .accept i c req => s.accept i c req
  | .run env i => s.run env i

def SettledOnce (s : Settlement) : Prop := (s.effects.map Prod.snd).Nodup

end Settlement

def Handler.Holds : Handler → Server → Prop
  | .removing tag c false (some (_, id)), s => s.tracked tag c = some id
  | _, _ => True

instance : (h : Handler) → (s : Server) → Decidable (h.Holds s)
  | .removing _ _ false (some _), _ => inferInstanceAs (Decidable (_ = _))
  | .removing _ _ false none, _ => isTrue trivial
  | .removing _ _ true _, _ => isTrue trivial
  | .idle, _ => isTrue trivial
  | .acking .., _ => isTrue trivial
  | .looking .., _ => isTrue trivial
  | .lettering .., _ => isTrue trivial

namespace Settlement

def KeepsFound (s : Settlement) : SettlementAction → Prop
  | .run _ i => (s.handlers i).Holds s.server
  | .accept .. => True

instance (s : Settlement) : (a : SettlementAction) → Decidable (KeepsFound s a)
  | .run _ i => inferInstanceAs (Decidable ((s.handlers i).Holds s.server))
  | .accept .. => isTrue trivial

/-! ## Requests that run alone -/

section Alone

variable {s : Settlement} {i : ℕ} (env : Env) (ch : ChanRef) (tag : UInt64) (requeue : Bool)

theorem ack_alone (h : s.handlers i = .idle) :
    ([.accept i (s.server.chans.read ch).id (.ack tag), .run env i].foldl step s).server =
      (s.server.performAck ch tag).2 := by
  simp [step, accept, h, run, SettlementRequest.handler, advance, performAck]

theorem refusal_alone {req : SettlementRequest} {c : UInt16} (h : s.handlers i = .idle)
    (hreq : req.handler c = .looking tag c requeue) :
    ([.accept i c req, .run env i, .run env i, .run env i].foldl step s).server =
      deadLetterRefused env (s.server.getDelivery tag c) requeue
        (s.server.nack tag c requeue).2 := by
  cases requeue with
  | true =>
    simp [step, accept, h, run, hreq, advance, refused, deadLetterRefused]
  | false =>
    cases hd : s.server.getDelivery tag c with
    | none => simp [step, accept, h, run, hreq, hd, advance, refused, deadLetterRefused]
    | some d => simp [step, accept, h, run, hreq, hd, advance, refused]

theorem nack_alone (h : s.handlers i = .idle) :
    ([.accept i (s.server.chans.read ch).id (.nack tag requeue), .run env i, .run env i,
        .run env i].foldl step s).server = (s.server.performNack env ch tag requeue).2 :=
  refusal_alone env tag requeue h rfl

theorem reject_alone (h : s.handlers i = .idle) :
    ([.accept i (s.server.chans.read ch).id (.reject tag requeue), .run env i, .run env i,
        .run env i].foldl step s).server = (s.server.performReject env ch tag requeue).2 :=
  refusal_alone env tag requeue h rfl

end Alone

end Settlement

/-! ## Settled deliveries -/

namespace Server

def Gone (s : Server) (id : DeliveryId) : Prop :=
  id.generation ≤ s.generation id.tag id.channelID ∧
    (id.generation = s.generation id.tag id.channelID →
      s.getDelivery id.tag id.channelID = none)

/-- No delivery that is gone comes back: a slot that is written again has a new delivery. -/
def Forward (u v : Server) : Prop :=
  ∀ tag c, u.generation tag c ≤ v.generation tag c ∧
    (v.generation tag c = u.generation tag c → u.getDelivery tag c = none →
      v.getDelivery tag c = none)

theorem Gone.forward {u v : Server} {id : DeliveryId} (h : u.Gone id) (hf : Forward u v) :
    v.Gone id := by
  obtain ⟨hle, hnone⟩ := hf id.tag id.channelID
  refine ⟨h.1.trans hle, fun heq => ?_⟩
  have hsame : v.generation id.tag id.channelID = u.generation id.tag id.channelID :=
    le_antisymm (heq ▸ h.1) hle
  exact hnone hsame (h.2 (heq.trans hsame))

theorem not_gone_of_tracked {s : Server} {tag : UInt64} {c : UInt16} {id : DeliveryId}
    (h : s.tracked tag c = some id) : ¬s.Gone id := by
  obtain ⟨d, hd, rfl⟩ := Option.map_eq_some_iff.mp h
  intro hgone
  rw [hgone.2 rfl] at hd
  cases hd

theorem forward_of_slot {u v : Server} {tag : UInt64} {c : UInt16}
    (hlog : v.delivered = u.delivered)
    (hslot : ∀ tag' c', v.getDelivery tag' c' =
      if tag' = tag ∧ c' = c then none else u.getDelivery tag' c') : Forward u v := by
  intro tag' c'
  refine ⟨by unfold generation; rw [hlog], fun _ hnone => ?_⟩
  rw [hslot]
  split
  · rfl
  · exact hnone

theorem gone_of_slot {u v : Server} {tag : UInt64} {c : UInt16} {id : DeliveryId}
    (hid : u.tracked tag c = some id) (hlog : v.delivered = u.delivered)
    (hslot : ∀ tag' c', v.getDelivery tag' c' =
      if tag' = tag ∧ c' = c then none else u.getDelivery tag' c') : v.Gone id := by
  obtain ⟨d, -, rfl⟩ := Option.map_eq_some_iff.mp hid
  refine ⟨by unfold generation; rw [hlog], fun _ => ?_⟩
  rw [hslot, if_pos ⟨rfl, rfl⟩]

theorem getDelivery_recordAll {s s' : Server} (l : List Delivery) {tag : UInt64} {c : UInt16}
    (htr : s'.tracker = s.tracker.recordAll l)
    (h : l.countP (fun d => d.tag == tag && d.channelID == c) = 0) :
    s'.getDelivery tag c = s.getDelivery tag c := by
  induction l generalizing s with
  | nil => rw [getDelivery_eq, htr, getDelivery_eq]; rfl
  | cons d l ih =>
    rw [countP_eq_zero] at h
    have hrest := ih (s := s.record d.tag d.msg d.queueName d.channelID) htr
      (countP_eq_zero.mpr fun d' hd' => h d' (mem_cons_of_mem d hd'))
    rw [hrest, getDelivery_record, if_neg]
    rintro ⟨rfl, rfl⟩
    exact h d (mem_cons_self ..) (by simp)

theorem Pushes.forward {c : UInt16} {u v : Server} (h : Pushes c u v) : Forward u v := by
  obtain ⟨l, hl, ht, -⟩ := h.log
  intro tag c'
  have hgen : v.generation tag c' = u.generation tag c' +
      l.countP fun d => d.tag == tag && d.channelID == c' := by
    unfold generation
    rw [hl, countP_append]
  refine ⟨by omega, fun hsame hnone => ?_⟩
  rw [getDelivery_recordAll l ht (by omega)]
  exact hnone

theorem forward_deadLetterRefused (env : Env) (d : Option TrackedDelivery) (requeue : Bool)
    (s : Server) : Forward s (deadLetterRefused env d requeue s) := by
  unfold deadLetterRefused
  split
  · split
    · exact (pushes_deadLetter env _ _ s).forward
    · exact (Pushes.refl 0 s).forward
  · exact (Pushes.refl 0 s).forward

end Server

/-! ## One effect for each delivery -/

namespace Settlement

/-- No effect is counted for the delivery, and no handler but `i` is about to dead-letter it. -/
structure Unclaimed (s : Settlement) (i : ℕ) (id : DeliveryId) : Prop where
  effects : id ∉ s.effects.map Prod.snd
  letters : ∀ j d, j ≠ i → s.handlers j ≠ .lettering d id

/-- The deliveries with an effect, and those that a handler is about to dead-letter, are gone from
the tracker and all different. -/
structure Exclusive (s : Settlement) : Prop where
  once : s.SettledOnce
  gone : ∀ id ∈ s.effects.map Prod.snd, s.server.Gone id
  letters : ∀ i d id, s.handlers i = .lettering d id → s.server.Gone id ∧ s.Unclaimed i id

theorem exclusive_start (server : Server) : Exclusive (start server) where
  once := nodup_nil
  gone := fun _ h => absurd h not_mem_nil
  letters := nofun

namespace Exclusive

variable {s : Settlement}

theorem unclaimed_of_tracked (h : Exclusive s) (i : ℕ) {tag : UInt64} {c : UInt16} {id : DeliveryId}
    (hid : s.server.tracked tag c = some id) : s.Unclaimed i id := by
  have hnot := not_gone_of_tracked hid
  exact ⟨fun hmem => hnot (h.gone id hmem), fun j d _ hj => hnot (h.letters j d id hj).1⟩

/-- A step of handler `i` that counts effects for deliveries nobody else claims, and that leaves the
handler in a place from which it dead-letters at most such a delivery. -/
theorem advance (h : Exclusive s) (i : ℕ) {server : Server} (hf : s.server.Forward server)
    (next : Handler) (effect : Effect) {ids : List DeliveryId} (hnodup : ids.Nodup)
    (hids : ∀ id ∈ ids, server.Gone id ∧ s.Unclaimed i id)
    (hnext : ∀ d id, next = .lettering d id → ids = [] ∧ server.Gone id ∧ s.Unclaimed i id) :
    Exclusive (s.advance i server next effect ids) := by
  have heffects : (s.advance i server next effect ids).effects.map Prod.snd =
      s.effects.map Prod.snd ++ ids := by
    simp [Settlement.advance, Function.comp_def]
  refine ⟨?_, ?_, ?_⟩
  · unfold SettledOnce
    rw [heffects]
    refine nodup_append.mpr ⟨h.once, hnodup, ?_⟩
    rintro a ha b hb rfl
    exact (hids a hb).2.effects ha
  · intro id hid
    rw [heffects] at hid
    rcases mem_append.mp hid with hid | hid
    · exact (h.gone id hid).forward hf
    · exact (hids id hid).1
  · intro j d id hj
    by_cases hji : j = i
    · subst hji
      obtain ⟨rfl, hgone, hun⟩ := hnext d id (by simpa [Settlement.advance] using hj)
      refine ⟨hgone, by rw [heffects, append_nil]; exact hun.effects, ?_⟩
      intro j' d' hne hj'
      refine hun.letters j' d' hne ?_
      simpa [Settlement.advance, hne] using hj'
    · have hold : s.handlers j = .lettering d id := by
        simpa [Settlement.advance, hji] using hj
      obtain ⟨hgone, hun⟩ := h.letters j d id hold
      refine ⟨hgone.forward hf, ?_, ?_⟩
      · rw [heffects, mem_append, not_or]
        exact ⟨hun.effects, fun hid => (hids id hid).2.letters j d hji hold⟩
      · intro j' d' hne hj'
        by_cases hj'i : j' = i
        · subst hj'i
          obtain ⟨-, -, hun'⟩ := hnext d' id (by simpa [Settlement.advance] using hj')
          exact hun'.letters j d hji hold
        · refine hun.letters j' d' hne ?_
          simpa [Settlement.advance, hj'i] using hj'

theorem goTo (h : Exclusive s) (i : ℕ) {next : Handler} (hnext : ∀ d id, next ≠ .lettering d id) :
    Exclusive { s with handlers := Function.update s.handlers i next } := by
  have hmoved := h.advance i (fun _ _ => ⟨le_rfl, fun _ hnone => hnone⟩) next .ack nodup_nil
    (fun _ hid => absurd hid not_mem_nil) (fun d id heq => absurd heq (hnext d id))
  simpa [Settlement.advance] using hmoved

theorem settle (h : Exclusive s) (i : ℕ) {server : Server} {tag : UInt64} {c : UInt16}
    (hlog : server.delivered = s.server.delivered)
    (hslot : ∀ tag' c', server.getDelivery tag' c' =
      if tag' = tag ∧ c' = c then none else s.server.getDelivery tag' c') (effect : Effect) :
    Exclusive (s.advance i server .idle effect (s.server.tracked tag c).toList) := by
  refine h.advance i (forward_of_slot hlog hslot) .idle effect ?_ ?_ nofun
  · cases s.server.tracked tag c with
    | none => exact nodup_nil
    | some id => exact nodup_singleton id
  · intro id hid
    have htracked := Option.mem_toList.mp hid
    exact ⟨gone_of_slot htracked hlog hslot, h.unclaimed_of_tracked i htracked⟩

theorem remove (h : Exclusive s) (i : ℕ) (tag : UInt64) (c : UInt16)
    {found : Option (TrackedDelivery × DeliveryId)}
    (hholds : (Handler.removing tag c false found).Holds s.server) :
    Exclusive (s.advance i (s.server.nack tag c false).2 (refused false found) .requeue []) := by
  have hslot := fun tag' c' => s.server.getDelivery_nack tag tag' c c' false
  have hlog := s.server.delivered_nack tag c false
  refine h.advance i (forward_of_slot hlog hslot) _ _ nodup_nil
    (fun _ hid => absurd hid not_mem_nil) ?_
  intro d id hnext
  cases found with
  | none => cases hnext
  | some p =>
    cases hnext
    exact ⟨rfl, gone_of_slot hholds hlog hslot, h.unclaimed_of_tracked i hholds⟩

theorem run (h : Exclusive s) (env : Env) {i : ℕ} (hholds : (s.handlers i).Holds s.server) :
    Exclusive (s.run env i) := by
  unfold Settlement.run
  cases hi : s.handlers i with
  | idle => exact h
  | acking tag c =>
    exact h.settle i (s.server.delivered_ack tag c) (fun _ _ => s.server.getDelivery_ack ..) .ack
  | looking tag c requeue => exact h.goTo i nofun
  | removing tag c requeue found =>
    cases requeue with
    | true =>
      exact h.settle i (s.server.delivered_nack tag c true)
        (fun _ _ => s.server.getDelivery_nack ..) .requeue
    | false =>
      rw [hi] at hholds
      exact h.remove i tag c hholds
  | lettering d id =>
    obtain ⟨hgone, hun⟩ := h.letters i d id hi
    have hf := forward_deadLetterRefused env (some d) false s.server
    refine h.advance i hf .idle .deadLetter ?_ ?_ nofun
    · split
      · exact nodup_singleton id
      · exact nodup_nil
    · intro id' hid'
      split at hid'
      · rw [mem_singleton.mp hid']
        exact ⟨hgone.forward hf, hun⟩
      · exact absurd hid' not_mem_nil

theorem accept (h : Exclusive s) (i : ℕ) (c : UInt16) (req : SettlementRequest) :
    Exclusive (s.accept i c req) := by
  unfold Settlement.accept
  split
  · exact h.goTo i (by cases req <;> exact nofun)
  · exact h

theorem step (h : Exclusive s) {a : SettlementAction} (ha : KeepsFound s a) :
    Exclusive (s.step a) := by
  cases a with
  | accept i c req => exact h.accept i c req
  | run env i => exact h.run env ha

end Exclusive

/-- For every state of the broker and every interleaving of the steps of acknowledgements and
refusals, on any channels and tags: if every refusal for good still finds the delivery that it
looked up, then at most one of ack, requeue and dead letter takes effect for each delivery. -/
theorem settledOnce_run (server : Server) (as : List SettlementAction)
    (h : Along step KeepsFound (start server) as) : SettledOnce (as.foldl step (start server)) :=
  (h.inv (I := Exclusive) (fun _ _ hs ha => hs.step ha) (exclusive_start server)).once

/-- Message `0` of queue `q` is tracked under tag 1 of channel 1. Refused messages of the queue go
to `d` through `dlx`. -/
def oneTracked : Server :=
  ([ProtocolEvent.request default 0 (.queueDeclare (str "q") false false false false true
      [(str "x-dead-letter-exchange", .string (str "dlx"))]),
    .request default 0 (.queueDeclare (str "d") false false false false true []),
    .request default 0
      (.exchangeDeclare (str "dlx") (str "fanout") false false false false true []),
    .request default 0 (.queueBind (str "d") (str "dlx") [] true [])].foldl protocolStep
      newServer).record 1 0 (str "q") 1

/-- An acknowledgement between the lookup and the removal of a refusal: the delivery is acknowledged
and dead-lettered. Two refusals that both look the delivery up: it is dead-lettered twice. -/
theorem acked_and_lettered :
    (let s := [.accept 0 1 (.nack 1 false), .run default 0, .accept 1 1 (.ack 1), .run default 1,
        .run default 0, .run default 0].foldl step (start oneTracked)
    s.effects = [(.ack, ⟨1, 1, 0⟩), (.deadLetter, ⟨1, 1, 0⟩)] ∧ s.server.ready (str "d") = [0] ∧
      ¬SettledOnce s) ∧
    (let s := [.accept 0 1 (.nack 1 false), .run default 0, .accept 1 1 (.reject 1 false),
        .run default 1, .run default 0, .run default 0, .run default 1, .run default 1].foldl step
        (start oneTracked)
    s.effects = [(.deadLetter, ⟨1, 1, 0⟩), (.deadLetter, ⟨1, 1, 0⟩)] ∧
      s.server.ready (str "d") = [0, 0] ∧ ¬SettledOnce s) := by
  unfold SettledOnce
  decide +kernel

/-- The same requests one after the other. -/
theorem settledOnce_inTurn :
    let as := [.accept 0 1 (.nack 1 false), .run default 0, .run default 0, .run default 0,
      .accept 1 1 (.ack 1), .run default 1]
    Along step KeepsFound (start oneTracked) as ∧
      (as.foldl step (start oneTracked)).effects = [(.deadLetter, ⟨1, 1, 0⟩)] ∧
      SettledOnce (as.foldl step (start oneTracked)) := by
  intro as
  have hkeeps : Along step KeepsFound (start oneTracked) as := by decide +kernel
  exact ⟨hkeeps, by decide +kernel, settledOnce_run oneTracked as hkeeps⟩

end Settlement

end Gomq.Broker
