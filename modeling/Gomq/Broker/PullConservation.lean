import Gomq.Lib.Run
import Gomq.Broker.Settle

/-!
# Conservation on the pull path

Messages move between queues and tracker by `Basic.Get`, `Ack`, `Nack`, `Reject` and `Recover`. A
ledger keeps beside the server what was ever enqueued and what was settled; it is balanced when,
for every queue and message, ready, in flight and settled add up to enqueued. Every request keeps
the balance except a `Get` that finds slot 1 of its channel taken: each `Get` makes a new pull
consumer, which numbers its deliveries from 1, so the delivery in the slot is overwritten.
-/

namespace Gomq.Broker

open Wire Server List

/-! ## Deliveries in flight -/

def deliveriesOf (chMap : GoMap UInt64 TrackedDelivery) : List (GoString × MsgRef) :=
  chMap.vals.map fun d => (d.queueName, d.msg)

namespace Server

def inFlight (s : Server) : List (GoString × MsgRef) := s.tracker.vals.flatMap deliveriesOf

theorem inFlight_perm (s : Server) (c : UInt16) :
    s.inFlight.Perm
      (deliveriesOf (s.tracker.getD c ∅) ++ (s.tracker.del c).vals.flatMap deliveriesOf) := by
  unfold inFlight
  cases h : s.tracker.get c with
  | none => rw [GoMap.getD_of_none h, GoMap.del_of_get_none h]; exact List.Perm.refl _
  | some chMap =>
    rw [GoMap.getD_of_get h]
    exact (GoMap.vals_perm_of_get h).flatMap_right deliveriesOf

theorem inFlight_record {s : Server} {t : UInt64} {c : UInt16} (h : s.getDelivery t c = none)
    (m : MsgRef) (q : GoString) : (s.record t m q c).inFlight.Perm ((q, m) :: s.inFlight) := by
  rw [getDelivery_eq] at h
  have hset : (s.record t m q c).inFlight =
      (q, m) :: (deliveriesOf ((s.tracker.getD c ∅).del t) ++
        (s.tracker.del c).vals.flatMap deliveriesOf) := rfl
  rw [hset, GoMap.del_of_get_none h]
  exact (s.inFlight_perm c).symm.cons _

theorem inFlight_untrack {s : Server} {t : UInt64} {c : UInt16} {d : TrackedDelivery}
    (h : s.getDelivery t c = some d) :
    s.inFlight.Perm ((d.queueName, d.msg) :: (s.untrack t c).inFlight) := by
  rw [getDelivery_eq] at h
  have hset : (s.untrack t c).inFlight =
      deliveriesOf ((s.tracker.getD c ∅).del t) ++
        (s.tracker.del c).vals.flatMap deliveriesOf := rfl
  rw [hset]
  refine (s.inFlight_perm c).trans ?_
  exact ((GoMap.vals_perm_of_get h).map fun d => (d.queueName, d.msg)).append_right _

theorem count_enqueueAll (ds : List TrackedDelivery) (s : Server) (q : GoString) (m : MsgRef) :
    ((ds.foldl (fun s d => s.enqueue d.queueName d.msg) s).ready q).count m =
      (s.ready q).count m + (ds.map fun d => (d.queueName, d.msg)).count (q, m) := by
  rw [ready_foldl_enqueue TrackedDelivery.queueName TrackedDelivery.msg, count_append]
  congr 1
  unfold List.count
  rw [countP_map, countP_filter, countP_map]
  apply countP_congr
  intro d _
  simp [and_comm]

end Server

/-! ## Ledgers -/

structure Ledger where
  server : Server
  enqueued : List (GoString × MsgRef)
  settled : List (GoString × MsgRef)

def Ledger.Balanced (l : Ledger) : Prop :=
  ∀ q m, (l.server.ready q).count m + l.server.inFlight.count (q, m) + l.settled.count (q, m) =
    l.enqueued.count (q, m)

/-- The message is once in its queue, once in the tracker, or settled, and in one of these places
only. -/
def Ledger.InOnePlace (l : Ledger) (q : GoString) (m : MsgRef) : Prop :=
  ((l.server.ready q).count m = 1 ∧ l.server.inFlight.count (q, m) = 0 ∧
      l.settled.count (q, m) = 0) ∨
    ((l.server.ready q).count m = 0 ∧ l.server.inFlight.count (q, m) = 1 ∧
      l.settled.count (q, m) = 0) ∨
    ((l.server.ready q).count m = 0 ∧ l.server.inFlight.count (q, m) = 0 ∧
      l.settled.count (q, m) = 1)

theorem Ledger.Balanced.inOnePlace {l : Ledger} (h : l.Balanced) {q : GoString} {m : MsgRef}
    (hm : l.enqueued.count (q, m) = 1) : l.InOnePlace q m := by
  have hq := h q m
  unfold InOnePlace
  omega

/-- The requests of the pull path; a `Get` has to be acknowledged and a `Recover` requeues. -/
inductive PullRequest where
  | get (queue : GoString)
  | ack (tag : UInt64)
  | nack (tag : UInt64) (requeue : Bool)
  | reject (tag : UInt64) (requeue : Bool)
  | recover

def PullRequest.request : PullRequest → Request
  | .get queue => .get queue false
  | .ack tag => .ack tag
  | .nack tag requeue => .nack tag requeue
  | .reject tag requeue => .reject tag requeue
  | .recover => .recover true

inductive PullAction where
  | enqueue (queue : GoString) (msg : MsgRef)
  | request (env : Env) (ch : ChanRef) (req : PullRequest)

def settledBy (s : Server) (ch : ChanRef) : PullRequest → List (GoString × MsgRef)
  | .ack tag | .nack tag false | .reject tag false =>
    ((s.getDelivery tag (s.chans.read ch).id).map fun d => (d.queueName, d.msg)).toList
  | _ => []

def pullStep (l : Ledger) : PullAction → Ledger
  | .enqueue queue msg =>
    { l with server := l.server.enqueue queue msg, enqueued := (queue, msg) :: l.enqueued }
  | .request env ch req =>
    { l with
      server := (exec env ch req.request l.server).2
      settled := settledBy l.server ch req ++ l.settled }

/-- A `Get` that is permitted and finds a message comes when slot 1 of its channel is free. -/
def FreeSlot (l : Ledger) : PullAction → Prop
  | .request _ ch (.get queue) =>
    l.server.permits ch (.get queue false) = .ok () → l.server.ready queue ≠ [] →
      l.server.getDelivery 1 (l.server.chans.read ch).id = none
  | _ => True

/-- No time to live on a queue or a message, and no dead-letter exchange. -/
structure NoLimits (s : Server) : Prop where
  queueTTL : ∀ q, queueTTL (s.queueArgs q) = 0
  messageTTL : ∀ m, messageTTL (s.msgs.read m) = 0
  deadLetter : ∀ q qu, s.queues.get q = some qu → getDeadLetterConfig qu.args = none

/-! ## The requests -/

section Requests

variable {env : Env} {ch : ChanRef} {s : Server}

theorem not_expired (h : NoLimits s) (now : ℕ) (q : GoString) (m : MsgRef) :
    isExpired now (s.msgs.read m) (s.queueArgs q) = false := by
  unfold isExpired
  rw [h.messageTTL m, h.queueTTL q]
  cases (s.msgs.read m).enqueuedAt <;> rfl

theorem fetch_of_cons (h : NoLimits s) {q : GoString} {m : MsgRef} {l : List MsgRef}
    (hr : s.ready q = m :: l) :
    s.fetch env q = (some m, { s with store := s.store.set q l }) := by
  have hexp := not_expired h env.now q m
  unfold fetch getLoop dequeue
  rw [hr]
  dsimp only
  rw [if_neg (by rw [hexp]; decide)]

theorem fetch_of_nil {q : GoString} (hr : s.ready q = []) : s.fetch env q = (none, s) := by
  unfold fetch getLoop dequeue
  rw [hr]

theorem deadLetterRefused_of_none (h : ∀ q qu, s.queues.get q = some qu →
    getDeadLetterConfig qu.args = none) (d : Option TrackedDelivery) (requeue : Bool) :
    deadLetterRefused env d requeue s = s := by
  unfold deadLetterRefused
  split
  · split
    · rename_i hq
      unfold deadLetter
      rw [h _ _ hq]
    · rfl
  · rfl

/-- Between `s` and `s'` the messages in `out` left for good, and all others are still ready or in
flight. Queues and properties of messages are the same. -/
structure Moves (s s' : Server) (out : List (GoString × MsgRef)) : Prop where
  count : ∀ q m, (s'.ready q).count m + s'.inFlight.count (q, m) + out.count (q, m) =
    (s.ready q).count m + s.inFlight.count (q, m)
  queues : s'.queues = s.queues
  properties : ∀ m, (s'.msgs.read m).properties = (s.msgs.read m).properties

theorem Moves.refl (s : Server) : Moves s s [] := ⟨fun _ _ => by simp, rfl, fun _ => rfl⟩

theorem Moves.reply {s' : Server} {out : List (GoString × MsgRef)} (h : Moves s s' out)
    (ch : ChanRef) (payload : Bytes) : Moves s (s'.reply ch payload) out := by
  obtain ⟨k, hk⟩ := s'.reply_eq ch payload
  rw [hk]
  exact ⟨h.count, h.queues, h.properties⟩

theorem Moves.noLimits {s' : Server} {out : List (GoString × MsgRef)} (h : Moves s s' out)
    (hs : NoLimits s) : NoLimits s' where
  queueTTL := fun q => by
    unfold queueArgs; rw [h.queues]; exact hs.queueTTL q
  messageTTL := fun m => by
    unfold messageTTL; rw [h.properties]; exact hs.messageTTL m
  deadLetter := fun q qu hq => hs.deadLetter q qu (by rw [← h.queues]; exact hq)

theorem Moves.balanced {l : Ledger} {s' : Server} {out : List (GoString × MsgRef)}
    (h : Moves l.server s' out) (hl : l.Balanced) :
    Ledger.Balanced { l with server := s', settled := out ++ l.settled } := by
  intro q m
  have hmove := h.count q m
  have hbal := hl q m
  show (s'.ready q).count m + s'.inFlight.count (q, m) + (out ++ l.settled).count (q, m) = _
  rw [count_append]
  show _ = l.enqueued.count (q, m)
  omega

theorem count_ready_set {q : GoString} {m : MsgRef} {l : List MsgRef}
    (hr : s.ready q = m :: l) (q' : GoString) (m' : MsgRef) :
    (({ s with store := s.store.set q l } : Server).ready q').count m' +
      [(q, m)].count (q', m') = (s.ready q').count m' := by
  by_cases hq : q' = q
  · subst hq
    rw [hr, count_cons]
    by_cases hm : m = m'
    · simp [ready, hm]
    · simp [ready, hm]
  · simp [ready, hq, Ne.symm hq]

theorem moves_get (hlim : NoLimits s) {queue : GoString}
    (hfree : s.ready queue ≠ [] → s.getDelivery 1 (s.chans.read ch).id = none) :
    Moves s (s.performGet env ch queue false).2 [] := by
  cases hr : s.ready queue with
  | nil =>
    obtain ⟨payload, hget⟩ := performGet_empty ch (fetch_of_nil hr) false
    rw [hget]
    exact (Moves.refl s).reply ch payload
  | cons m l =>
    obtain ⟨payload, hget⟩ := performGet_ack ch (fetch_of_cons hlim hr)
    rw [hget]
    set u : Server := { s with store := s.store.set queue l }
    have hmove : Moves s
        ((u.modifyMsg m fun x => x.setDeliveryTag 1).record 1 m queue (s.chans.read ch).id) [] := by
      refine ⟨fun q' m' => ?_, rfl, fun m' => ?_⟩
      · -- the message leaves the queue and takes the free slot
        have hslot : (u.modifyMsg m fun x => x.setDeliveryTag 1).getDelivery 1
            (s.chans.read ch).id = none := hfree (by rw [hr]; exact cons_ne_nil m l)
        have hflight := (inFlight_record hslot m queue).count_eq (q', m')
        have hready : (u.ready q').count m' + [(queue, m)].count (q', m') =
            (s.ready q').count m' := count_ready_set hr q' m'
        rw [hflight, count_nil]
        show (u.ready q').count m' + ((queue, m) :: s.inFlight).count (q', m') + 0 = _
        rw [count_cons]
        rw [count_cons, count_nil] at hready
        omega
      · exact Heap.part_read_modify Message.properties (·.setDeliveryTag 1) fun _ => rfl
    exact hmove.reply ch payload

theorem moves_untrack {t : UInt64} {c : UInt16} {d : TrackedDelivery}
    (h : s.getDelivery t c = some d) : Moves s (s.untrack t c) [(d.queueName, d.msg)] := by
  refine ⟨fun q m => ?_, rfl, fun _ => rfl⟩
  have hflight := (inFlight_untrack h).count_eq (q, m)
  rw [hflight]
  show (s.ready q).count m + (s.untrack t c).inFlight.count (q, m) + _ = _
  rw [count_cons, count_cons, count_nil]
  omega

theorem moves_ack (t : UInt64) (c : UInt16) :
    Moves s (s.ack t c).2 ((s.getDelivery t c).map fun d => (d.queueName, d.msg)).toList := by
  cases h : s.getDelivery t c with
  | none => rw [ack_of_none h]; exact Moves.refl s
  | some d => rw [ack_of_some h]; exact moves_untrack h

theorem moves_nack_discard (t : UInt64) (c : UInt16) :
    Moves s (s.nack t c false).2
      ((s.getDelivery t c).map fun d => (d.queueName, d.msg)).toList := by
  cases h : s.getDelivery t c with
  | none => rw [nack_of_none h]; exact Moves.refl s
  | some d => rw [nack_of_some h]; exact moves_untrack h

theorem moves_nack_requeue (t : UInt64) (c : UInt16) : Moves s (s.nack t c true).2 [] := by
  cases h : s.getDelivery t c with
  | none => rw [nack_of_none h]; exact Moves.refl s
  | some d =>
    rw [nack_of_some h, if_pos rfl]
    refine ⟨fun q m => ?_, rfl, fun _ => rfl⟩
    have hout := (moves_untrack h).count q m
    have hback := count_enqueueAll [d] (s.untrack t c) q m
    show (((s.untrack t c).enqueue d.queueName d.msg).ready q).count m +
      (s.untrack t c).inFlight.count (q, m) + 0 = _
    rw [show (s.untrack t c).enqueue d.queueName d.msg =
      [d].foldl (fun s d => s.enqueue d.queueName d.msg) (s.untrack t c) from rfl, hback]
    rw [map_singleton]
    omega

theorem moves_recover (c : UInt16) : Moves s (s.recoverAll env c true).2 [] := by
  cases h : s.tracker.get c with
  | none => rw [recoverAll_of_none env true h]; exact Moves.refl s
  | some chMap =>
    rw [recoverAll_of_some env true h, if_pos rfl]
    have hframe : ∀ (ds : List TrackedDelivery) (u : Server),
        (ds.foldl (fun s d => s.enqueue d.queueName d.msg) u).queues = u.queues ∧
          (ds.foldl (fun s d => s.enqueue d.queueName d.msg) u).msgs = u.msgs := by
      intro ds
      induction ds with
      | nil => exact fun _ => ⟨rfl, rfl⟩
      | cons d ds ih => exact fun u => ih (u.enqueue d.queueName d.msg)
    refine ⟨fun q m => ?_, (hframe _ s).1, fun m => by rw [(hframe _ s).2]⟩
    -- what the channel had in flight is what goes back
    have hback := count_enqueueAll (rangeDeliveries env chMap) s q m
    have hrange : ((rangeDeliveries env chMap).map fun d => (d.queueName, d.msg)).count
        (q, m) = (deliveriesOf chMap).count (q, m) :=
      ((rangeDeliveries_perm env chMap).map _).count_eq (q, m)
    have hflight := (s.inFlight_perm c).count_eq (q, m)
    rw [GoMap.getD_of_get h, count_append] at hflight
    show ((List.foldl _ s _).ready q).count m +
      ((s.tracker.del c).vals.flatMap deliveriesOf).count (q, m) + 0 = _
    rw [hback, hrange, hflight]
    omega

theorem moves_refuse (hlim : NoLimits s) (d : Option TrackedDelivery) (tag : UInt64)
    (requeue : Bool) :
    Moves s (deadLetterRefused env d requeue (s.nack tag (s.chans.read ch).id requeue).2)
      (settledBy s ch (.nack tag requeue)) := by
  have hmove : Moves s (s.nack tag (s.chans.read ch).id requeue).2
      (settledBy s ch (.nack tag requeue)) := by
    cases requeue with
    | false => exact moves_nack_discard tag _
    | true => exact moves_nack_requeue tag _
  rw [deadLetterRefused_of_none]
  · exact hmove
  · exact (hmove.noLimits hlim).deadLetter

theorem moves_request (hlim : NoLimits s) (req : PullRequest) (l : Ledger) (hl : l.server = s)
    (hfree : FreeSlot l (.request env ch req)) :
    Moves s (exec env ch req.request s).2 (settledBy s ch req) := by
  cases req with
  | get queue =>
    show Moves s (exec env ch (.get queue false) s).2 []
    unfold exec
    cases hp : s.permits ch (.get queue false) with
    | error e => exact Moves.refl s
    | ok _ =>
      subst hl
      exact moves_get hlim (hfree hp)
  | ack tag => exact moves_ack tag _
  | nack tag requeue => exact moves_refuse hlim _ tag requeue
  | reject tag requeue =>
    have hsame : settledBy s ch (.reject tag requeue) = settledBy s ch (.nack tag requeue) := by
      cases requeue <;> rfl
    rw [hsame]
    exact moves_refuse hlim _ tag requeue
  | recover => exact (moves_recover (s.chans.read ch).id).reply ch _

end Requests

/-! ## Runs -/

theorem pullStep_inv (l : Ledger) (a : PullAction) (h : NoLimits l.server ∧ l.Balanced)
    (hfree : FreeSlot l a) : NoLimits (pullStep l a).server ∧ (pullStep l a).Balanced := by
  cases a with
  | enqueue queue msg =>
    refine ⟨⟨h.1.queueTTL, h.1.messageTTL, h.1.deadLetter⟩, fun q m => ?_⟩
    have hbal := h.2 q m
    show ((l.server.enqueue queue msg).ready q).count m + l.server.inFlight.count (q, m) +
      l.settled.count (q, m) = ((queue, msg) :: l.enqueued).count (q, m)
    rw [ready_enqueue, count_append, count_cons]
    by_cases hq : q = queue
    · subst hq
      by_cases hm : msg = m
      · subst hm; simp; omega
      · simp [hm]; omega
    · have hne : ((queue, msg) == (q, m)) = false := by simp [Ne.symm hq]
      simp [hq, hne]; omega
  | request env ch req =>
    have hmove := moves_request h.1 req l rfl hfree
    exact ⟨hmove.noLimits h.1, hmove.balanced h.2⟩

theorem getDelivery_get_of_free {env : Env} {ch : ChanRef} {l : Ledger} {queue : GoString}
    (hfree : FreeSlot l (.request env ch (.get queue))) {t : UInt64} {c : UInt16}
    {d : TrackedDelivery} (h : l.server.getDelivery t c = some d) :
    (pullStep l (.request env ch (.get queue))).server.getDelivery t c = some d := by
  show (exec env ch (.get queue false) l.server).2.getDelivery t c = some d
  unfold exec
  cases hp : l.server.permits ch (.get queue false) with
  | error e => exact h
  | ok _ =>
    show (l.server.performGet env ch queue false).2.getDelivery t c = some d
    by_cases hlive : Live env l.server queue
    · obtain ⟨m, hread⟩ := getDelivery_performGet env ch queue l.server hlive
      have hne : l.server.ready queue ≠ [] := by
        obtain ⟨x, hx, -⟩ := hlive
        exact ne_nil_of_mem hx
      rw [hread, if_neg]
      · exact h
      · rintro ⟨rfl, rfl⟩
        rw [hfree hp hne] at h
        cases h
    · rw [getDelivery_performGet_of_not env ch queue false l.server
        (fun hl => hlive hl.2)]
      exact h

/-- Conservation: in every run in which each `Get` finds its slot free, the ledger is balanced at
the end, every message enqueued once is in one place, and the next such `Get` overwrites
nothing. -/
theorem pull_conservation (l : Ledger) (as : List PullAction) (hlim : NoLimits l.server)
    (hbal : l.Balanced) (h : Along pullStep FreeSlot l as) :
    (as.foldl pullStep l).Balanced ∧
      (∀ q m, (as.foldl pullStep l).enqueued.count (q, m) = 1 →
        (as.foldl pullStep l).InOnePlace q m) ∧
      ∀ env ch queue, FreeSlot (as.foldl pullStep l) (.request env ch (.get queue)) →
        ∀ t c d, (as.foldl pullStep l).server.getDelivery t c = some d →
          (pullStep (as.foldl pullStep l) (.request env ch (.get queue))).server.getDelivery t c =
            some d := by
  have hend := Along.inv (I := fun l => NoLimits l.server ∧ l.Balanced) pullStep_inv ⟨hlim, hbal⟩ h
  refine ⟨hend.2, fun q m hm => hend.2.inOnePlace hm, ?_⟩
  intro env ch queue hfree t c d hd
  exact getDelivery_get_of_free hfree hd

def emptyLedger : Ledger where
  server :=
    { newServer with
      conns := Heap.empty.alloc (newConnection .up)
      chans := Heap.empty.alloc (newChannel 1 0) }
  enqueued := []
  settled := []

theorem emptyLedger_noLimits : NoLimits emptyLedger.server where
  queueTTL := fun _ => rfl
  messageTTL := fun _ => rfl
  deadLetter := fun q qu h => by cases h

theorem emptyLedger_balanced : emptyLedger.Balanced := fun _ _ => rfl

def oneByOne : List PullAction :=
  [.enqueue (str "q") 0, .enqueue (str "q") 1, .request default 0 (.get (str "q")),
    .request default 0 (.ack 1), .request default 0 (.get (str "q"))]

theorem oneByOne_conserved :
    (oneByOne.foldl pullStep emptyLedger).InOnePlace (str "q") 0 ∧
      (oneByOne.foldl pullStep emptyLedger).InOnePlace (str "q") 1 := by
  have h := pull_conservation emptyLedger oneByOne emptyLedger_noLimits emptyLedger_balanced
    ⟨trivial, trivial, fun _ _ => by decide, trivial, fun _ _ => by decide, trivial⟩
  exact ⟨h.2.1 _ _ (by decide), h.2.1 _ _ (by decide)⟩

def fetchTwice : List PullAction :=
  [.enqueue (str "q") 0, .enqueue (str "q") 1, .request default 0 (.get (str "q")),
    .request default 0 (.get (str "q"))]

/-- The first message is nowhere: not ready, not in flight, not settled. -/
theorem fetchTwice_loses :
    (fetchTwice.foldl pullStep emptyLedger).enqueued.count (str "q", 0) = 1 ∧
      (fetchTwice.foldl pullStep emptyLedger).server.ready (str "q") = [] ∧
      (fetchTwice.foldl pullStep emptyLedger).server.inFlight = [(str "q", 1)] ∧
      (fetchTwice.foldl pullStep emptyLedger).settled = [] ∧
      ¬ (fetchTwice.foldl pullStep emptyLedger).InOnePlace (str "q") 0 := by
  have hready : (fetchTwice.foldl pullStep emptyLedger).server.ready (str "q") = [] := by decide
  have hflight : (fetchTwice.foldl pullStep emptyLedger).server.inFlight = [(str "q", 1)] := by
    decide
  have hsettled : (fetchTwice.foldl pullStep emptyLedger).settled = [] := by decide
  refine ⟨by decide, hready, hflight, hsettled, ?_⟩
  unfold Ledger.InOnePlace
  rw [hready, hflight, hsettled]
  decide

end Gomq.Broker
