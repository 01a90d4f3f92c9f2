import Gomq.Broker.Settle
import Gomq.Broker.Routed

/-!
# Push deliveries

A publish stores its message and then hands it to the consumers of the queue; the message stays in
the queue. Every hand-over is recorded under tag 0 and the publisher's channel number. So right
after a publish that hands its message over, the message is in the tracker, unacknowledged, and at
the same time ready in the queue it was delivered from (`overlap_publish`).
-/

namespace Gomq.Broker

open Wire Server List

/-! ## Runs of publishes and acknowledgements -/

structure PublishCall where
  env : Env
  exchange : GoString
  routingKey : GoString
  message : Message
  channelID : UInt16

def publishCall (s : Server) (p : PublishCall) : Server :=
  ({ s with msgs := s.msgs.alloc p.message }.publish p.env p.exchange p.routingKey s.msgs.next
    p.channelID).2

def ackCall (s : Server) (a : UInt64 × UInt16) : Server := (s.ack a.1 a.2).2

def made (s s' : Server) : List Delivery := s'.delivered.drop s.delivered.length

/-- The states of a run: during the publishes, and during the acknowledgements after them. -/
inductive Reached (s : Server) (ps : List PublishCall) (acks : List (UInt64 × UInt16)) :
    Server → Prop where
  | publish (i : ℕ) : Reached s ps acks ((ps.take i).foldl publishCall s)
  | ack (j : ℕ) : Reached s ps acks ((acks.take j).foldl ackCall (ps.foldl publishCall s))

def gets (q : GoString) : List (Env × Bool × UInt16) → Server → List MsgRef
  | [], _ => []
  | (env, noAck, c) :: rest, s =>
    match newPullConsumer.get env q noAck c s with
    | (r, _, s) => r.toList ++ gets q rest s

structure PushSafe (s : Server) (ps : List PublishCall) (acks : List (UInt64 × UInt16)) :
    Prop where
  /-- Every delivery is recorded under the channel of the consumer that received it. -/
  channel : ∀ i, ∀ d ∈ made s ((ps.take i).foldl publishCall s),
    ∃ ch, d.consumer.channel = some ch ∧
      d.channelID = (((ps.take i).foldl publishCall s).chans.read ch).id
  /-- No two unsettled deliveries of a channel have the same tag. -/
  tag : ∀ i, (made s ((ps.take i).foldl publishCall s)).Pairwise fun d d' =>
    d.channelID = d'.channelID → d.tag ≠ d'.tag
  /-- A delivery that is not acknowledged is not ready in its queue. -/
  notReady : ∀ u, Reached s ps acks u → ∀ d ∈ made s u,
    u.getDelivery d.tag d.channelID = some ⟨d.tag, d.msg, d.queueName, d.channelID⟩ →
      d.msg ∉ u.ready d.queueName
  /-- Once every delivery of a message from a queue is acknowledged, no `Get` returns it. -/
  gone : ∀ d ∈ made s (acks.foldl ackCall (ps.foldl publishCall s)),
    (∀ t c d', (acks.foldl ackCall (ps.foldl publishCall s)).getDelivery t c = some d' →
      ¬(d'.msg = d.msg ∧ d'.queueName = d.queueName)) →
    ∀ gs, d.msg ∉ gets d.queueName gs (acks.foldl ackCall (ps.foldl publishCall s))

/-! ## Delivered and ready at once -/

/-- A delivery of `m` made since the history had length `n` is unacknowledged under tag 0 of
channel `c`, and `m` is ready in its queue. -/
def Overlap (n : ℕ) (m : MsgRef) (c : UInt16) (s : Server) : Prop :=
  ∃ d ∈ s.delivered.drop n, d.msg = m ∧ d.tag = 0 ∧ d.channelID = c ∧
    s.getDelivery 0 c = some ⟨0, m, d.queueName, c⟩ ∧ m ∈ s.ready d.queueName

/-- If a delivery was made under another channel than 0 since then, that is channel `c` and one of
its deliveries overlaps. Dead letters are recorded under channel 0. -/
def Overlapping (n : ℕ) (m : MsgRef) (c : UInt16) (s : Server) : Prop :=
  n ≤ s.delivered.length ∧
    ∀ d ∈ s.delivered.drop n, d.channelID ≠ 0 → d.channelID = c ∧ Overlap n m c s

section Deliver

variable {n : ℕ} {m : MsgRef} {c : UInt16} {q : GoString} {s : Server}

theorem overlapping_deliverTo (h : Overlapping n m c s) (hm : m ∈ s.ready q) (k : Consumer) :
    Overlapping n m c (s.deliverTo m k q c) := by
  obtain ⟨hslot, hlog⟩ := s.deliverTo_spec c m k q
  have hdrop : (s.deliverTo m k q c).delivered.drop n =
      s.delivered.drop n ++ [⟨k, m, q, 0, c⟩] := by
    rw [hlog, drop_append_of_le_length h.1]
  refine ⟨by rw [hlog, length_append]; exact Nat.le_add_right_of_le h.1, ?_⟩
  intro d hd hne
  rw [hdrop] at hd
  have hch : d.channelID = c := by
    rcases mem_append.mp hd with hd | hd
    · exact (h.2 d hd hne).1
    · rw [mem_singleton.mp hd]
  refine ⟨hch, ⟨k, m, q, 0, c⟩, ?_, rfl, rfl, rfl, hslot, ?_⟩
  · rw [hdrop]; exact mem_append_right _ (mem_singleton_self _)
  · rw [(delivers_deliverTo c s m k q).ready]; exact hm

theorem overlapping_selectMember (h : Overlapping n m c s) (list : List Consumer)
    (gid key : GoString) : Overlapping n m c (s.selectMember list gid key).2 := by
  unfold selectMember
  cases s.consumers.groupMgr <;> exact h

theorem overlapping_deliverGroup (h : Overlapping n m c s) (hm : m ∈ s.ready q)
    (list : List Consumer) (gid : GoString) :
    Overlapping n m c (deliverGroup list m q c s gid) := by
  have hsel := overlapping_selectMember h list gid (s.msgs.read m).routingKey
  have hready := (delivers_selectMember c s list gid (s.msgs.read m).routingKey).ready q
  unfold deliverGroup
  rcases hs : s.selectMember list gid (s.msgs.read m).routingKey with ⟨_ | k, v⟩
  · rw [hs] at hsel; exact hsel
  · rw [hs] at hsel hready
    exact overlapping_deliverTo hsel (by rw [hready]; exact hm) k

theorem overlapping_foldl {α : Type} {f : Server → α → Server}
    (hdel : ∀ u a, Delivers c u (f u a))
    (hf : ∀ u a, Overlapping n m c u → m ∈ u.ready q → Overlapping n m c (f u a))
    (l : List α) {u : Server} (hu : Overlapping n m c u) (hm : m ∈ u.ready q) :
    Overlapping n m c (l.foldl f u) := by
  induction l generalizing u with
  | nil => exact hu
  | cons a l ih => exact ih (hf u a hu hm) (by rw [(hdel u a).ready]; exact hm)

theorem overlapping_deliver (env : Env) (h : Overlapping n m c s) (hm : m ∈ s.ready q) :
    Overlapping n m c (s.deliver env m q c) := by
  rw [deliver_eq]
  refine overlapping_foldl (q := q) (fun u k => delivers_deliverTo c u m k q)
    (fun u k hu hmu => overlapping_deliverTo hu hmu k) _ ?_ ?_
  · exact overlapping_foldl (delivers_deliverGroup _ m q c)
      (fun u gid hu hmu => overlapping_deliverGroup hu hmu _ gid) _ h hm
  · rw [(Delivers.foldl (delivers_deliverGroup _ m q c) _ s).ready]; exact hm

end Deliver

/-! ## Publishing -/

section Publish

variable (env : Env) {dl : MsgRef → Table → Server → Server} {n : ℕ} {m : MsgRef} {c : UInt16}
  {s : Server} (hdl : ∀ m args s, Grows 0 s (dl m args s))

include hdl

theorem evictOldest_effect (qn : GoString) (args : Table) :
    (∀ t c', c' ≠ 0 → (s.evictOldest dl qn args).getDelivery t c' = s.getDelivery t c') ∧
      Logs 0 s (s.evictOldest dl qn args) := by
  have hdeq : (s.dequeue qn).2.tracker = s.tracker ∧ (s.dequeue qn).2.delivered = s.delivered := by
    unfold dequeue
    split <;> exact ⟨rfl, rfl⟩
  have hslot : ∀ t c', (s.dequeue qn).2.getDelivery t c' = s.getDelivery t c' := by
    intro t c'
    rw [getDelivery_eq, hdeq.1, ← getDelivery_eq]
  refine evictOldest_inv (P := fun u =>
      (∀ t c', c' ≠ 0 → u.getDelivery t c' = s.getDelivery t c') ∧ Logs 0 s u)
    ⟨fun _ _ _ => rfl, .of_eq rfl⟩ ⟨fun t c' _ => hslot t c', .of_eq hdeq.2⟩ fun o u hu => ?_
  have hg := hdl o args u
  exact ⟨fun t c' hc => (hg.tracker t c' fun h0 => hc h0.2).trans (hu.1 t c' hc),
    Logs.trans hu.2 hg.logs⟩

/-- An eviction keeps the overlap once the message is put into the queue that lost one. -/
theorem overlapping_store (h : Overlapping n m c s) (qn : GoString) (args : Table) :
    Overlapping n m c
      (((s.evictOldest dl qn args).modifyMsg m fun x => x.setEnqueuedAt (some env.now)).storeIn
        qn args m) := by
  set u := s.evictOldest dl qn args with hu
  set v := (u.modifyMsg m fun x => x.setEnqueuedAt (some env.now)).storeIn qn args m with hv
  have hsame : v.delivered = u.delivered ∧ v.tracker = u.tracker := by
    rw [hv]; unfold storeIn; split <;> exact ⟨rfl, rfl⟩
  obtain ⟨hslot, l, hl, hl0⟩ := evictOldest_effect hdl (s := s) qn args
  have hdrop : v.delivered.drop n = s.delivered.drop n ++ l := by
    rw [hsame.1, hl, drop_append_of_le_length h.1]
  refine ⟨by rw [hsame.1, hl, length_append]; exact Nat.le_add_right_of_le h.1, ?_⟩
  intro d hd hne
  rw [hdrop] at hd
  have hold : d ∈ s.delivered.drop n := by
    rcases mem_append.mp hd with hd | hd
    · exact hd
    · exact absurd (hl0 d hd) hne
  obtain ⟨hch, d₀, hd₀, hmsg, htag, hch₀, htrack, hready⟩ := h.2 d hold hne
  refine ⟨hch, d₀, by rw [hdrop]; exact mem_append_left l hd₀, hmsg, htag, hch₀, ?_, ?_⟩
  · rw [getDelivery_eq, hsame.2, ← getDelivery_eq, hslot 0 c (hch ▸ hne)]
    exact htrack
  · by_cases hq : d₀.queueName = qn
    · exact mem_ready_storeIn.mpr (Or.inl ⟨hq, rfl⟩)
    · exact mem_ready_storeIn.mpr (Or.inr (mem_ready_evictOldest hdl hq hready))

theorem overlapping_publishTo (h : Overlapping n m c s) (qn : GoString) :
    Overlapping n m c (publishTo env dl true m c s qn) := by
  cases hq : s.queues.get qn with
  | none => rw [publishTo_none env dl m c hq]; exact h
  | some q =>
    rw [publishTo_some env dl m c hq, if_pos rfl]
    have hstore := overlapping_store env hdl h qn q.args
    unfold storeAndDeliver
    dsimp only
    split
    · exact hstore
    · exact overlapping_deliver env hstore (mem_ready_storeIn.mpr (Or.inl ⟨rfl, rfl⟩))

end Publish

theorem overlap_publish (s : Server) (p : PublishCall) :
    Overlapping s.delivered.length s.msgs.next p.channelID (publishCall s p) := by
  set u : Server := { s with msgs := s.msgs.alloc p.message } with hu
  have hstart : Overlapping s.delivered.length s.msgs.next p.channelID u := by
    refine ⟨le_rfl, fun d hd _ => ?_⟩
    rw [show u.delivered = s.delivered from rfl, drop_length] at hd
    exact absurd hd not_mem_nil
  have hend := publishInternal_inv
    (P := Overlapping s.delivered.length s.msgs.next p.channelID)
    (fun v qn hv => overlapping_publishTo p.env (grows_deadLetter p.env) hv qn)
    u.walkFuel p.exchange p.routingKey [] u hstart
  unfold publishCall publish
  split <;> rename_i heq <;> rw [heq] at hend <;> exact hend

/-! ## Reaching a consumer -/

/-- What decides whether a message is handed over is the same: the queues, their consumers, and the
expiration of `m`. -/
structure Calm (m : MsgRef) (s u : Server) : Prop where
  queues : u.queues = s.queues
  consumers : u.consumers.byQueue = s.consumers.byQueue
  expiration : (u.msgs.read m).properties.expiration = (s.msgs.read m).properties.expiration

section Calm

variable {m : MsgRef} {s u v : Server}

theorem Calm.refl (m : MsgRef) (s : Server) : Calm m s s := ⟨rfl, rfl, rfl⟩

theorem Calm.trans (h : Calm m s u) (h' : Calm m u v) : Calm m s v :=
  ⟨h'.queues.trans h.queues, h'.consumers.trans h.consumers, h'.expiration.trans h.expiration⟩

theorem Calm.foldl {α : Type} {f : Server → α → Server} (hf : ∀ s a, Calm m s (f s a))
    (l : List α) (s : Server) : Calm m s (l.foldl f s) := by
  induction l generalizing s with
  | nil => exact .refl m s
  | cons a l ih => exact (hf s a).trans (ih (f s a))

theorem calm_modifyMsg (s : Server) (k : MsgRef) {f : Message → Message}
    (hf : ∀ x, (f x).properties.expiration = x.properties.expiration) :
    Calm m s (s.modifyMsg k f) := by
  exact ⟨rfl, rfl, Heap.part_read_modify (fun x => x.properties.expiration) f hf⟩

theorem calm_deliverTo (s : Server) (k : MsgRef) (con : Consumer) (q : GoString) (c : UInt16) :
    Calm m s (s.deliverTo k con q c) := by
  refine (calm_modifyMsg s k (f := fun x => x.setDeliveryTag 0) fun _ => rfl).trans ?_
  unfold deliverTo
  cases con.channel <;> exact ⟨rfl, rfl, rfl⟩

theorem calm_deliverGroup (list : List Consumer) (k : MsgRef) (q : GoString) (c : UInt16)
    (s : Server) (gid : GoString) : Calm m s (deliverGroup list k q c s gid) := by
  have hsel : Calm m s (s.selectMember list gid (s.msgs.read k).routingKey).2 := by
    unfold selectMember
    cases s.consumers.groupMgr <;> exact ⟨rfl, rfl, rfl⟩
  unfold deliverGroup
  rcases h : s.selectMember list gid (s.msgs.read k).routingKey with ⟨_ | con, v⟩
  · rw [h] at hsel; exact hsel
  · rw [h] at hsel; exact hsel.trans (calm_deliverTo v k con q c)

theorem calm_stamp (env : Env) (s : Server) (k : MsgRef) (qn : GoString) (args : Table) :
    Calm m s ((s.modifyMsg k fun x => x.setEnqueuedAt (some env.now)).storeIn qn args k) := by
  refine (calm_modifyMsg s k (f := fun x => x.setEnqueuedAt (some env.now)) fun _ => rfl).trans ?_
  unfold storeIn
  split <;> exact ⟨rfl, rfl, rfl⟩

theorem calm_storeAndDeliver (env : Env) (k : MsgRef) (c : UInt16) (qn : GoString) (args : Table)
    (s : Server) : Calm m s (storeAndDeliver env k c qn args s) := by
  unfold storeAndDeliver
  dsimp only
  split
  · exact calm_stamp env s k qn args
  · refine (calm_stamp env s k qn args).trans ?_
    rw [deliver_eq]
    exact (Calm.foldl (calm_deliverGroup _ k qn c) _ _).trans
      (Calm.foldl (fun u con => calm_deliverTo u k con qn c) _ _)

theorem calm_deadLetter (env : Env) (k : MsgRef) (args : Table) (s : Server) :
    Calm m s (deadLetter env k args s) :=
  deadLetter_inv (.refl m s) (fun _ => calm_modifyMsg s k fun _ => rfl)
    fun qn args u hu => hu.trans (calm_storeAndDeliver env k 0 qn args u)

theorem calm_evictOldest (env : Env) (s : Server) (qn : GoString) (args : Table) :
    Calm m s (s.evictOldest (deadLetter env) qn args) := by
  have hdeq : Calm m s (s.dequeue qn).2 := by
    unfold dequeue
    split <;> exact ⟨rfl, rfl, rfl⟩
  exact evictOldest_inv (.refl m s) hdeq fun o u hu =>
    hu.trans (calm_deadLetter env o args u)

theorem calm_publishTo (env : Env) (k : MsgRef) (c : UInt16) (s : Server) (qn : GoString) :
    Calm m s (publishTo env (deadLetter env) true k c s qn) :=
  publishTo_inv (.refl m s) (fun q _ _ => calm_evictOldest env s qn q.args)
    fun q _ u hu => hu.trans (calm_storeAndDeliver env k c qn q.args u)

end Calm

/-- The publish is routed to an existing queue with a consumer outside of groups, and the message
is not expired on arrival. -/
def HandsOver (s : Server) (p : PublishCall) : Prop :=
  ∃ x qn q k, s.exchanges.get p.exchange = some x ∧
    qn ∈ x.route p.routingKey p.message.properties.headers (s.bindings.getBindings p.exchange) ∧
    s.queues.get qn = some q ∧ k ∈ s.getConsumers qn ∧ k.groupID = [] ∧
    isExpired p.env.now (p.message.setEnqueuedAt (some p.env.now)) q.args = false

theorem isExpired_congr {now : ℕ} {x y : Message} {args : Table}
    (he : x.properties.expiration = y.properties.expiration) (ht : x.enqueuedAt = y.enqueuedAt) :
    isExpired now x args = isExpired now y args := by
  unfold isExpired messageTTL
  rw [he, ht]

theorem length_deliver (env : Env) (s : Server) (m : MsgRef) (q : GoString) (c : UInt16)
    {k : Consumer} (hk : k ∈ s.getConsumers q) (hg : k.groupID = []) :
    s.delivered.length < (s.deliver env m q c).delivered.length := by
  have hgrow : ∀ {u v : Server}, Delivers c u v →
      u.delivered.length ≤ v.delivered.length := by
    intro u v h
    obtain ⟨l, hl, -⟩ := h.logs
    rw [hl, length_append]
    exact Nat.le_add_right _ _
  have hfold : ∀ (l : List Consumer) (u : Server), k ∈ l →
      u.delivered.length < (l.foldl (fun s k => s.deliverTo m k q c) u).delivered.length := by
    intro l u hmem
    cases l with
    | nil => exact absurd hmem not_mem_nil
    | cons a l =>
      have hone : u.delivered.length < (u.deliverTo m a q c).delivered.length := by
        rw [(u.deliverTo_spec c m a q).2, length_append]
        exact Nat.lt_succ_self _
      exact hone.trans_le
        (hgrow (Delivers.foldl (fun u k => delivers_deliverTo c u m k q) l _))
  rw [deliver_eq]
  refine lt_of_le_of_lt
    (hgrow (Delivers.foldl (delivers_deliverGroup _ m q c) _ s)) (hfold _ _ ?_)
  exact mem_filter.mpr ⟨hk, by rw [hg]; rfl⟩

section HandsOver

variable {env : Env} {m : MsgRef} {c : UInt16} {s : Server}

theorem length_publishTo {qn : GoString} {q : Queue} {k : Consumer} {x : Message}
    (hq : s.queues.get qn = some q) (hk : k ∈ s.getConsumers qn) (hg : k.groupID = [])
    (hx : (s.msgs.read m).properties.expiration = x.properties.expiration)
    (hlive : isExpired env.now (x.setEnqueuedAt (some env.now)) q.args = false) :
    s.delivered.length <
      (publishTo env (deadLetter env) true m c s qn).delivered.length := by
  rw [publishTo_some env _ m c hq, if_pos rfl]
  obtain ⟨-, l, hl, -⟩ := evictOldest_effect (grows_deadLetter env) (s := s) qn q.args
  set u := s.evictOldest (deadLetter env) qn q.args with hu
  have hcalm : Calm m s u := calm_evictOldest env s qn q.args
  have hstamp := hcalm.trans (calm_stamp env u m qn q.args)
  set v := (u.modifyMsg m fun y => y.setEnqueuedAt (some env.now)).storeIn qn q.args m with hv
  have hmsgs : v.msgs = u.msgs.modify m fun y => y.setEnqueuedAt (some env.now) := by
    rw [hv]; unfold storeIn; split <;> rfl
  have hsame : v.delivered = u.delivered := by
    rw [hv]; unfold storeIn; split <;> rfl
  have hexp : isExpired env.now (v.msgs.read m) q.args = false := by
    rw [← hlive]
    refine isExpired_congr (hstamp.expiration.trans hx) ?_
    rw [hmsgs, Heap.read_modify_self]
    rfl
  unfold storeAndDeliver
  dsimp only
  rw [← hv, hexp, if_neg Bool.false_ne_true]
  have hcon : k ∈ v.getConsumers qn := by
    unfold getConsumers at hk ⊢
    rw [hstamp.consumers]
    exact hk
  refine lt_of_le_of_lt ?_ (length_deliver env v m qn c hcon hg)
  rw [hsame, hl, length_append]
  exact Nat.le_add_right _ _

theorem history_publishTo (env : Env) (m : MsgRef) (c : UInt16) (s : Server) (qn : GoString) :
    s.delivered <+: (publishTo env (deadLetter env) true m c s qn).delivered := by
  cases hq : s.queues.get qn with
  | none => rw [publishTo_none _ _ _ _ hq]
  | some q =>
    rw [publishTo_some _ _ _ _ hq, if_pos rfl]
    obtain ⟨-, l, hl, -⟩ := evictOldest_effect (grows_deadLetter env) (s := s) qn q.args
    obtain ⟨l', hl', -⟩ := (grows_storeAndDeliver env m c qn q.args
      (s.evictOldest (deadLetter env) qn q.args)).logs
    rw [hl', hl, append_assoc]
    exact prefix_append _ _

theorem length_publishCall {p : PublishCall} (h : HandsOver s p) :
    s.delivered.length < (publishCall s p).delivered.length := by
  obtain ⟨x, qn, q, k, hx, hroute, hq, hk, hg, hlive⟩ := h
  set u : Server := { s with msgs := s.msgs.alloc p.message } with hu
  have hread : u.msgs.read s.msgs.next = p.message := Heap.read_alloc_self _ _
  have hto := history_publishTo p.env s.msgs.next p.channelID
  -- the queue of the consumer comes up in the loop over the routed queues
  have hloop : s.delivered.length < ((x.route p.routingKey p.message.properties.headers
      (s.bindings.getBindings p.exchange)).foldl (publishTo p.env (deadLetter p.env)
        true s.msgs.next p.channelID) u).delivered.length := by
    obtain ⟨l₁, l₂, hl⟩ := append_of_mem hroute
    rw [hl, foldl_append, foldl_cons]
    set w := l₁.foldl (publishTo p.env (deadLetter p.env) true s.msgs.next
      p.channelID) u with hw
    have hcalm : Calm s.msgs.next u w :=
      Calm.foldl (fun v qn => calm_publishTo p.env s.msgs.next p.channelID v qn) l₁ u
    have hbefore : s.delivered <+: w.delivered := foldl_publishTo_inv
      (P := fun v => s.delivered <+: v.delivered)
      (fun v qn hv => hv.trans (hto v qn)) l₁ u (prefix_refl _)
    have hthen : w.delivered.length < (publishTo p.env (deadLetter p.env) true
        s.msgs.next p.channelID w qn).delivered.length := by
      refine length_publishTo (q := q) (k := k) (x := p.message) ?_ ?_ hg ?_ hlive
      · rw [hcalm.queues]; exact hq
      · unfold getConsumers at hk ⊢
        rw [hcalm.consumers]
        exact hk
      · rw [hcalm.expiration, hread]
    have hafter := foldl_publishTo_inv
      (P := fun v => w.delivered.length < v.delivered.length)
      (fun v qn hv => hv.trans_le (hto v qn).length_le) l₂ _ hthen
    exact hbefore.length_le.trans_lt hafter
  have hwalk : s.delivered.length < (publishInternal p.env (deadLetter p.env) true
      s.msgs.next p.channelID u.walkFuel p.exchange p.routingKey [] u).1.delivered.length := by
    have hgrow : ∀ v qn, s.delivered.length < v.delivered.length → s.delivered.length <
        (publishTo p.env (deadLetter p.env) true s.msgs.next p.channelID v
          qn).delivered.length := fun v qn hv => hv.trans_le (hto v qn).length_le
    unfold walkFuel
    rw [publishInternal_found not_mem_nil (show u.exchanges.get p.exchange = some x from
      hx)]
    refine foldl_forward_inv (P := fun v => s.delivered.length < v.delivered.length)
      (publishInternal_inv hgrow _) _ (_, _, _) ?_
    unfold afterQueues
    rw [hread]
    exact hloop
  unfold publishCall publish
  split <;> rename_i heq <;> rw [heq] at hwalk <;> exact hwalk

end HandsOver

/-! ## Runs -/

theorem history_publishCall (s : Server) (p : PublishCall) :
    s.delivered <+: (publishCall s p).delivered ∧ (publishCall s p).chans = s.chans := by
  set u : Server := { s with msgs := s.msgs.alloc p.message } with hu
  have hend := publishInternal_inv (P := fun v => s.delivered <+: v.delivered)
    (fun v qn hv => hv.trans (history_publishTo p.env s.msgs.next p.channelID v qn))
    u.walkFuel p.exchange p.routingKey [] u (prefix_refl _)
  refine ⟨?_, (framed_publish p.env u p.exchange p.routingKey s.msgs.next
    p.channelID).chans⟩
  unfold publishCall publish
  split <;> rename_i heq <;> rw [heq] at hend <;> exact hend

theorem handsOver_publishCall {s : Server} (p : PublishCall) {p' : PublishCall}
    (h : HandsOver s p') : HandsOver (publishCall s p) p' := by
  set u : Server := { s with msgs := s.msgs.alloc p.message } with hu
  have hframe := framed_publish p.env u p.exchange p.routingKey s.msgs.next p.channelID
  have hwalk := publishInternal_inv (P := Calm 0 u)
    (fun v qn hv => hv.trans (calm_publishTo p.env s.msgs.next p.channelID v qn))
    u.walkFuel p.exchange p.routingKey [] u (.refl 0 u)
  have hcon : (publishCall s p).consumers.byQueue = s.consumers.byQueue := by
    unfold publishCall publish
    split <;> rename_i heq <;> rw [heq] at hwalk <;> exact hwalk.consumers
  obtain ⟨x, qn, q, k, hx, hroute, hq, hk, hrest⟩ := h
  refine ⟨x, qn, q, k, ?_, ?_, ?_, ?_, hrest⟩
  · rw [show (publishCall s p).exchanges = s.exchanges from hframe.exchanges]
    exact hx
  · rw [show (publishCall s p).bindings = s.bindings from hframe.bindings]
    exact hroute
  · rw [show (publishCall s p).queues = s.queues from hframe.queues]
    exact hq
  · unfold getConsumers at hk ⊢
    rw [hcon]
    exact hk

theorem history_publishCalls (s : Server) (ps : List PublishCall) :
    s.delivered <+: (ps.foldl publishCall s).delivered ∧
      (ps.foldl publishCall s).chans = s.chans := by
  induction ps generalizing s with
  | nil => exact ⟨prefix_refl _, rfl⟩
  | cons p ps ih =>
    obtain ⟨hd, hc⟩ := history_publishCall s p
    obtain ⟨hd', hc'⟩ := ih (publishCall s p)
    exact ⟨hd.trans hd', hc'.trans hc⟩

theorem made_publish (ps : List PublishCall) (s : Server) {d : Delivery}
    (h : d ∈ made s (ps.foldl publishCall s)) :
    ∃ i p, ps[i]? = some p ∧ d ∈ made ((ps.take i).foldl publishCall s)
      (publishCall ((ps.take i).foldl publishCall s) p) := by
  induction ps generalizing s with
  | nil =>
    rw [show made s (([] : List PublishCall).foldl publishCall s) = [] from drop_length] at h
    exact absurd h not_mem_nil
  | cons p ps ih =>
    obtain ⟨l, hl⟩ := (history_publishCall s p).1
    obtain ⟨l', hl'⟩ := (history_publishCalls (publishCall s p) ps).1
    have hfirst : made s (publishCall s p) = l := by
      unfold made; rw [← hl, drop_left]
    have hrest : made (publishCall s p) (ps.foldl publishCall (publishCall s p)) = l' := by
      unfold made; rw [← hl', drop_left]
    have hall : made s ((p :: ps).foldl publishCall s) = l ++ l' := by
      unfold made
      rw [foldl_cons, ← hl', ← hl, append_assoc, drop_left]
    rw [hall] at h
    rcases mem_append.mp h with h | h
    · exact ⟨0, p, rfl, by rw [← hfirst] at h; exact h⟩
    · obtain ⟨i, p', hp', hd⟩ := ih (publishCall s p) (by rw [hrest]; exact h)
      exact ⟨i + 1, p', hp', hd⟩

theorem not_pushSafe (s : Server) (ps : List PublishCall) (acks : List (UInt64 × UInt16))
    (h : ∃ d ∈ made s (ps.foldl publishCall s),
      ∀ ch, d.consumer.channel = some ch → (s.chans.read ch).id ≠ 0) :
    ¬ PushSafe s ps acks := by
  intro hsafe
  obtain ⟨d, hd, hnum⟩ := h
  by_cases hzero : d.channelID = 0
  · have hchan := hsafe.channel ps.length d
    rw [take_length, (history_publishCalls s ps).2] at hchan
    obtain ⟨ch, hch, hid⟩ := hchan hd
    exact hnum ch hch (hid.symm.trans hzero)
  · obtain ⟨i, p, hp, hmade⟩ := made_publish ps s hd
    set u := (ps.take i).foldl publishCall s with hu
    obtain ⟨-, d₀, hd₀, hmsg, htag, hch, hslot, hready⟩ :=
      (overlap_publish u p).2 d hmade hzero
    have hstate : (ps.take (i + 1)).foldl publishCall s = publishCall u p := by
      rw [take_add_one, hp, foldl_append]; rfl
    have hlen : s.delivered.length ≤ u.delivered.length :=
      (history_publishCalls s (ps.take i)).1.length_le
    have hreached : Reached s ps acks (publishCall u p) := hstate ▸ Reached.publish (i + 1)
    refine hsafe.notReady _ hreached d₀ (drop_subset_drop_left _ hlen hd₀) ?_ ?_
    · rw [htag, hch, hslot, hmsg]
    · rw [hmsg]; exact hready

theorem made_of_handsOver {s : Server} {ps : List PublishCall} {p : PublishCall} (hp : p ∈ ps)
    (h : HandsOver s p) : made s (ps.foldl publishCall s) ≠ [] := by
  suffices hlen : s.delivered.length < (ps.foldl publishCall s).delivered.length from
    fun hnil => absurd (drop_eq_nil_iff.mp hnil) (Nat.not_le.mpr hlen)
  induction ps generalizing s with
  | nil => exact absurd hp not_mem_nil
  | cons p' ps ih =>
    rcases mem_cons.mp hp with rfl | hp
    · exact (length_publishCall h).trans_le (history_publishCalls _ ps).1.length_le
    · exact (history_publishCall s p').1.length_le.trans_lt (ih hp (handsOver_publishCall p' h))

theorem delivered_ackCall (s : Server) (a : UInt64 × UInt16) :
    (ackCall s a).delivered = s.delivered := by
  unfold ackCall Server.ack
  split
  · rfl
  · split <;> rfl

theorem made_of_reached {s : Server} {ps : List PublishCall} {acks : List (UInt64 × UInt16)}
    (h : made s (ps.foldl publishCall s) = []) {u : Server} (hu : Reached s ps acks u) :
    made s u = [] := by
  have hend : (ps.foldl publishCall s).delivered.length ≤ s.delivered.length :=
    drop_eq_nil_iff.mp h
  refine drop_eq_nil_iff.mpr (le_trans ?_ hend)
  cases hu with
  | publish i =>
    have hrun := (history_publishCalls ((ps.take i).foldl publishCall s) (ps.drop i)).1
    rw [← foldl_append, take_append_drop] at hrun
    exact hrun.length_le
  | ack j =>
    have hacks : ∀ (as : List (UInt64 × UInt16)) (v : Server),
        (as.foldl ackCall v).delivered = v.delivered := fun as v =>
      foldlRecOn (motive := fun u => u.delivered = v.delivered) as ackCall rfl
        (fun u hu a _ => (delivered_ackCall u a).trans hu)
    rw [hacks]

/-- Push delivery is safe only in a run without any delivery to speak of, and a run with a publish
to a queue with a consumer is none. -/
theorem pushSafe_iff (s : Server) (ps : List PublishCall) (acks : List (UInt64 × UInt16))
    (hnum : ∀ d ∈ made s (ps.foldl publishCall s),
      ∀ ch, d.consumer.channel = some ch → (s.chans.read ch).id ≠ 0) :
    (PushSafe s ps acks ↔ made s (ps.foldl publishCall s) = []) ∧
      ((∃ p ∈ ps, HandsOver s p) → ¬ PushSafe s ps acks) := by
  have hiff : PushSafe s ps acks ↔ made s (ps.foldl publishCall s) = [] := ?_
  · refine ⟨hiff, ?_⟩
    rintro ⟨p, hp, hover⟩ hsafe
    exact made_of_handsOver hp hover (hiff.mp hsafe)
  constructor
  · intro hsafe
    by_contra hne
    obtain ⟨d, hd⟩ := exists_mem_of_ne_nil _ hne
    exact not_pushSafe s ps acks ⟨d, hd, hnum d hd⟩ hsafe
  · intro hnone
    have hmade : ∀ u, Reached s ps acks u → made s u = [] := fun u hu => made_of_reached hnone hu
    have hlast : Reached s ps acks ((acks.take acks.length).foldl ackCall _) := .ack acks.length
    rw [take_length] at hlast
    refine ⟨fun i d hd => ?_, fun i => ?_, fun u hu d hd => ?_, fun d hd => ?_⟩
    · rw [hmade _ (.publish i)] at hd
      exact absurd hd not_mem_nil
    · rw [hmade _ (.publish i)]
      exact .nil
    · rw [hmade u hu] at hd
      exact absurd hd not_mem_nil
    · rw [hmade _ hlast] at hd
      exact absurd hd not_mem_nil

def subscribed : Server :=
  ({ newServer with
      conns := Heap.empty.alloc (newConnection .up)
      chans := Heap.empty.alloc (newChannel 1 0)
      queues := (∅ : GoMap GoString Queue).set (str "q") ⟨str "q", false, false, false, [], none⟩
      bindings := newServer.bindings.bind (str "amq.fanout") (str "q") [] [] }.subscribe
    (str "tag") (str "q") (some 0) false false []).2

def oneMessage : PublishCall := ⟨default, str "amq.fanout", [], newMessage [] {}, 2⟩

def handOver : Delivery :=
  ⟨⟨str "tag", str "q", some 0, false, false, [], []⟩, 0, str "q", 0, 2⟩

theorem made_oneMessage : made subscribed (publishCall subscribed oneMessage) = [handOver] := rfl

theorem subscribed_not_pushSafe : ¬ PushSafe subscribed [oneMessage] [(0, 2)] := by
  have hiff := pushSafe_iff subscribed [oneMessage] [(0, 2)] ?_
  · refine hiff.2 ⟨oneMessage, mem_singleton_self _, ?_⟩
    exact ⟨_, str "q", ⟨str "q", false, false, false, [], none⟩, handOver.consumer, rfl,
      by decide, rfl, mem_singleton_self _, rfl, rfl⟩
  · intro d hd ch hch
    obtain rfl := mem_singleton.mp (made_oneMessage ▸ hd)
    obtain rfl : 0 = ch := Option.some.inj hch
    decide

/-- The delivery to the consumer on channel 1 is recorded under channel 2 while the message is
still ready, and when it is acknowledged a `Get` returns the message once more. -/
theorem subscribed_redelivers :
    made subscribed (publishCall subscribed oneMessage) = [handOver] ∧
      (publishCall subscribed oneMessage).ready (str "q") = [0] ∧
      (ackCall (publishCall subscribed oneMessage) (0, 2)).getDelivery 0 2 = none ∧
      gets (str "q") [(default, false, 1)]
        (ackCall (publishCall subscribed oneMessage) (0, 2)) = [0] ∧
      ¬ PushSafe subscribed [oneMessage] [(0, 2)] := by
  refine ⟨made_oneMessage, by decide, rfl, by decide, fun hsafe => ?_⟩
  have hmem : handOver ∈ made subscribed (publishCall subscribed oneMessage) :=
    made_oneMessage ▸ mem_singleton_self handOver
  exact hsafe.notReady _ (.publish 1) handOver hmem rfl (by decide)

end Gomq.Broker
