import Gomq.Broker.Copies
import Gomq.Broker.GroupDelivery
import Gomq.Broker.PushDelivery

/-!
# Prefetch and flow

`Basic.Qos` writes the limits of the prefetch controller and `Channel.Flow` pauses a channel, and
the deliverer asks neither of them. So a consumer gets a message on a paused channel, and a consumer
that acknowledges gets one beyond the prefetch count (`handedOver_beyond`). The tracker does not say
how many deliveries a consumer has not acknowledged, as it has them under the number of the
publisher's channel. They are counted from the history of hand-overs here, by the channel of the
consumer. The limits hold in a run in which every publish finds the channels of all subscribed
consumers open and with room for what it may hand over (`enforced_run`).
-/

namespace Gomq.Broker

open Wire List

/-! ## What the limits say -/

/-- The default limit: `NewServerWithStore` sets it to zero, and nothing sets it again. -/
def Prefetch.defaultLimit : PrefetchLimit := ⟨0, 0, false⟩

def Prefetch.limitFor (p : Prefetch) (channelID : UInt16) : PrefetchLimit :=
  match p.globalLimit with
  | some l => l
  | none => p.limits.getD channelID Prefetch.defaultLimit

/-- The consumer has to acknowledge the delivery, on this channel. -/
def Delivery.expectsAck (ch : ChanRef) (d : Delivery) : Bool :=
  d.consumer.channel = some ch && !d.consumer.autoAck

namespace Server

def prefetchCount (s : Server) (channelID : UInt16) : ℕ :=
  (s.prefetch.limitFor channelID).count.toNat

def flowing (s : Server) (ch : ChanRef) : Bool :=
  (s.chans.read ch).flowOn && !s.paused.getD (s.chans.read ch).id false

/-- The consumer's channel is open, and it may have `unacked` deliveries that are not
acknowledged. -/
def Admits (s : Server) (unacked : ChanRef → ℕ) (k : Consumer) : Prop :=
  ∀ ch, k.channel = some ch →
    s.flowing ch = true ∧
      (k.autoAck = false → s.prefetchCount (s.chans.read ch).id ≠ 0 →
        unacked ch ≤ s.prefetchCount (s.chans.read ch).id)

end Server

/-! ## Runs -/

inductive PushAction where
  | qos (env : Env) (ch : ChanRef) (prefetchSize : UInt32) (prefetchCount : UInt16) (global : Bool)
  | flow (env : Env) (ch : ChanRef) (payload : Bytes)
  | consume (env : Env) (ch : ChanRef) (queue tag : GoString)
      (noLocal noAck exclusive noWait : Bool) (args : Table)
  | publish (p : PublishCall)
  | ack (env : Env) (ch : ChanRef) (tag : UInt64)

def PushAction.perform (s : Server) : PushAction → Server
  | .qos env ch size count global => protocolStep s (.request env ch (.qos size count global))
  | .flow env ch payload => protocolStep s (.control env ch .channelFlow payload)
  | .consume env ch queue tag noLocal noAck exclusive noWait args =>
    protocolStep s (.request env ch (.consume queue tag noLocal noAck exclusive noWait args))
  | .publish p => publishCall s p
  | .ack env ch tag => protocolStep s (.request env ch (.ack tag))

/-- The second field is history, which no step reads: the deliveries that have not been
acknowledged, in the order of their hand-overs. -/
structure Pushing where
  server : Server
  unacked : List Delivery

namespace Pushing

def unackedOn (s : Pushing) (ch : ChanRef) : ℕ := s.unacked.countP (·.expectsAck ch)

/-- An ack is for the oldest delivery on its channel that has the tag. -/
def acknowledge (s : Pushing) : PushAction → List Delivery
  | .ack _ ch tag => s.unacked.eraseP fun d => d.expectsAck ch && d.tag == tag
  | _ => s.unacked

end Pushing

def pushStep (s : Pushing) (a : PushAction) : Pushing where
  server := a.perform s.server
  unacked := s.acknowledge a ++ made s.server (a.perform s.server)

/-- Every hand-over of the step goes to a consumer whose channel is open for it: its flow is on, and
if the consumer acknowledges, its channel has fewer unacknowledged deliveries than the prefetch
count, those of the step before this one included. A publish writes neither flow nor limits. -/
def Enforced (s : Pushing) (a : PushAction) : Prop :=
  ∀ l d l', made s.server (a.perform s.server) = l ++ d :: l' →
    s.server.Admits (fun ch => s.unackedOn ch + l.countP (·.expectsAck ch) + 1) d.consumer

/-- How many deliveries on the channel `Deliver` may hand over for the queue: one for each consumer
that acknowledges there, and one for each that is in a group, which selects any of its members. -/
def Server.mayHand (s : Server) (ch : ChanRef) (q : GoString) : ℕ :=
  (s.getConsumers q).countP fun k => k.groupID ≠ [] || k.channel = some ch && !k.autoAck

/-- The queue does not dead-letter what it evicts. -/
def Server.Quiet (s : Server) (q : GoString) : Prop :=
  ∀ y ∈ s.queues.get q, 0 < maxLength y.args → getDeadLetterConfig y.args = none

instance (s : Server) (q : GoString) : Decidable (s.Quiet q) :=
  inferInstanceAs (Decidable (∀ y ∈ s.queues.get q, _))

/-- No queue that the publish selects dead-letters what it evicts, and the channel of every
subscribed consumer is open and has room for what the publish may hand over. -/
def Clear (s : Pushing) : PushAction → Prop
  | .publish p =>
    let qs := s.server.config.deliveries p.message.properties.headers p.exchange p.routingKey
    (∀ q ∈ qs, s.server.Quiet q) ∧
      ∀ k, s.server.Subscribed k →
        s.server.Admits (fun ch => s.unackedOn ch + (qs.map (s.server.mayHand ch)).sum) k
  | _ => True

/-! ## Requests hand nothing over -/

theorem made_of_eq {s s' : Server} (h : s'.delivered = s.delivered) : made s s' = [] := by
  unfold made
  rw [h, drop_length]

section Requests

variable (s : Server)

theorem delivered_reply (ch : ChanRef) (payload : Bytes) :
    (s.reply ch payload).delivered = s.delivered := by
  obtain ⟨k, hk⟩ := s.reply_eq ch payload
  rw [hk]

theorem delivered_exec (env : Env) (ch : ChanRef) (req : Request)
    (h : ∀ u, (perform env ch req u).2.delivered = u.delivered) :
    (exec env ch req s).2.delivered = s.delivered := by
  unfold exec
  split
  · rfl
  · exact h s

theorem delivered_consume (ch : ChanRef) (queue tag : GoString) (noAck exclusive noWait : Bool)
    (args : Table) :
    (s.performConsume ch queue tag noAck exclusive noWait args).2.delivered = s.delivered := by
  refine Server.performConsume_inv (P := fun u => u.delivered = s.delivered) ?_ fun u _ hu => ?_
  · unfold Server.subscribe
    split
    · rfl
    · split <;> rfl
  · unfold Server.replyUnless
    split
    · exact hu
    · exact (delivered_reply u ch _).trans hu

theorem delivered_flow (env : Env) (ch : ChanRef) (payload : Bytes) :
    (handleChannelFlow env ch payload s).2.delivered = s.delivered := by
  unfold handleChannelFlow
  split
  · rfl
  · exact delivered_reply _ ch _

end Requests

/-! ## How many deliveries a publish makes -/

namespace Server

/-- From `s` to `s'` at most `n ch` deliveries were made that expect an ack on `ch`. -/
structure Hands (n : ChanRef → ℕ) (s s' : Server) : Prop where
  byQueue : s'.consumers.byQueue = s.consumers.byQueue
  log : ∃ l, s'.delivered = s.delivered ++ l ∧ ∀ ch, l.countP (·.expectsAck ch) ≤ n ch

namespace Hands

variable {n n' : ChanRef → ℕ} {s s' s'' : Server}

theorem of_eq (hcon : s'.consumers.byQueue = s.consumers.byQueue)
    (hdel : s'.delivered = s.delivered) : Hands n s s' :=
  ⟨hcon, [], by rw [hdel, append_nil], fun _ => Nat.zero_le _⟩

theorem mono (h : Hands n s s') (hle : ∀ ch, n ch ≤ n' ch) : Hands n' s s' := by
  obtain ⟨l, hl, hcount⟩ := h.log
  exact ⟨h.byQueue, l, hl, fun ch => (hcount ch).trans (hle ch)⟩

theorem trans (h : Hands n s s') (h' : Hands n' s' s'') :
    Hands (fun ch => n ch + n' ch) s s'' := by
  obtain ⟨l, hl, hcount⟩ := h.log
  obtain ⟨l', hl', hcount'⟩ := h'.log
  refine ⟨h'.byQueue.trans h.byQueue, l ++ l', by rw [hl', hl, append_assoc], fun ch => ?_⟩
  rw [countP_append]
  exact Nat.add_le_add (hcount ch) (hcount' ch)

theorem after_quiet (h : Hands n s' s'') (hcon : s'.consumers.byQueue = s.consumers.byQueue)
    (hdel : s'.delivered = s.delivered) : Hands n s s'' :=
  ((of_eq (n := fun _ => 0) hcon hdel).trans h).mono fun ch => (Nat.zero_add (n ch)).le

theorem foldl {α : Type} {f : Server → α → Server} (n : α → ChanRef → ℕ) (l : List α)
    (hf : ∀ u, u.consumers.byQueue = s.consumers.byQueue → ∀ a ∈ l, Hands (n a) u (f u a)) :
    Hands (fun ch => (l.map (n · ch)).sum) s (l.foldl f s) := by
  induction l generalizing s with
  | nil => exact of_eq rfl rfl
  | cons a l ih =>
    have ha := hf s rfl a mem_cons_self
    exact ha.trans (ih fun u hu b hb => hf u (hu.trans ha.byQueue) b (mem_cons_of_mem a hb))

end Hands

theorem mayHand_congr {s s' : Server} (h : s'.consumers.byQueue = s.consumers.byQueue) :
    s'.mayHand = s.mayHand := by
  unfold mayHand getConsumers
  rw [h]

section Deliver

variable (s : Server) (m : MsgRef) (q : GoString) (c : UInt16)

theorem hands_deliverTo (k : Consumer) :
    Hands (fun ch => if k.channel = some ch && !k.autoAck then 1 else 0) s
      (s.deliverTo m k q c) := by
  refine ⟨by rw [s.consumers_deliverTo c m k q], _, (s.deliverTo_spec c m k q).2, fun ch => ?_⟩
  rw [countP_singleton]
  rfl

theorem hands_deliverGroup (list : List Consumer) (gid : GoString) :
    Hands (fun _ => 1) s (deliverGroup list m q c s gid) := by
  set key := (s.msgs.read m).routingKey
  have hsel : (s.selectMember list gid key).2.consumers.byQueue = s.consumers.byQueue ∧
      (s.selectMember list gid key).2.delivered = s.delivered := by
    unfold selectMember
    cases s.consumers.groupMgr <;> exact ⟨rfl, rfl⟩
  unfold deliverGroup
  rcases h : s.selectMember list gid key with ⟨_ | k, u⟩ <;> rw [h] at hsel
  · exact .of_eq hsel.1 hsel.2
  · refine ((hands_deliverTo u m q c k).after_quiet hsel.1 hsel.2).mono fun ch => ?_
    split <;> omega

theorem mayHand_eq (ch : ChanRef) :
    s.mayHand ch q = ((s.getConsumers q).map (·.groupID)).countP (· ≠ []) +
      ((s.getConsumers q).filter (·.groupID == [])).countP
        fun k => k.channel = some ch && !k.autoAck := by
  unfold mayHand
  rw [countP_map, countP_filter]
  induction s.getConsumers q with
  | nil => rfl
  | cons k l ih =>
    simp only [countP_cons, ih]
    by_cases hk : k.groupID = [] <;> simp [hk] <;> omega

theorem hands_deliver (env : Env) :
    Hands (fun ch => s.mayHand ch q) s (s.deliver env m q c) := by
  rw [deliver_eq]
  set gids := (((s.getConsumers q).map (·.groupID)).filter (· ≠ [])).dedup
  have hgroups := Hands.foldl (s := s) (fun _ _ => 1) (env.nameOrder gids) fun u _ gid _ =>
    hands_deliverGroup u m q c (s.getConsumers q) gid
  obtain ⟨hcon, hlog⟩ := foldl_deliverTo m q c ((s.getConsumers q).filter (·.groupID == []))
    ((env.nameOrder gids).foldl (deliverGroup (s.getConsumers q) m q c) s)
  refine (hgroups.trans ⟨by rw [hcon], _, hlog, fun ch => le_rfl⟩).mono fun ch => ?_
  have hgids : gids.length ≤ ((s.getConsumers q).map (·.groupID)).countP (· ≠ []) := by
    rw [countP_eq_length_filter]
    exact (dedup_sublist _).length_le
  rw [mayHand_eq, countP_map]
  refine Nat.add_le_add ?_ le_rfl
  simpa [(env.nameOrder_perm gids).length_eq] using hgids

theorem hands_storeAndDeliver (env : Env) (args : Table) :
    Hands (fun ch => s.mayHand ch q) s (storeAndDeliver env m c q args s) := by
  set u := (s.modifyMsg m fun x => x.setEnqueuedAt (some env.now)).storeIn q args m with hu
  have hstore : u.consumers = s.consumers ∧ u.delivered = s.delivered := by
    rw [hu]
    unfold storeIn
    split <;> exact ⟨rfl, rfl⟩
  have hcon : u.consumers.byQueue = s.consumers.byQueue := by rw [hstore.1]
  unfold storeAndDeliver
  dsimp only
  split
  · exact .of_eq hcon hstore.2
  · exact (mayHand_congr hcon ▸ hands_deliver u m q c env).after_quiet hcon hstore.2

end Deliver

section Publish

variable (env : Env) (m : MsgRef) (c : UInt16) {s : Server}

theorem evictOldest_of_quiet {args : Table}
    (h : 0 < maxLength args → getDeadLetterConfig args = none) (q : GoString) :
    s.evictOldest (deadLetter env) q args = s.evictOldest (fun _ _ u => u) q args := by
  unfold evictOldest
  by_cases hfull : 0 < maxLength args ∧ (maxLength args).toInt ≤ (s.ready q).length
  · rw [if_pos hfull, if_pos hfull]
    rcases s.dequeue q with ⟨_ | o, u⟩
    · rfl
    · exact deadLetter_of_none env o (h hfull.1) u
  · rw [if_neg hfull, if_neg hfull]

theorem publishTo_of_quiet {q : GoString} (h : s.Quiet q) :
    publishTo env (deadLetter env) true m c s q = publishTo env (fun _ _ u => u) true m c s q := by
  cases hq : s.queues.get q with
  | none => rw [publishTo_none env _ m c hq, publishTo_none env _ m c hq]
  | some y =>
    rw [publishTo_some env _ m c hq, publishTo_some env _ m c hq, evictOldest_of_quiet env (h y hq)]

theorem foldl_publishTo_of_quiet {qs : List GoString} (h : ∀ q ∈ qs, s.Quiet q) :
    qs.foldl (publishTo env (deadLetter env) true m c) s =
      qs.foldl (publishTo env (fun _ _ u => u) true m c) s := by
  induction qs generalizing s with
  | nil => rw [foldl_nil, foldl_nil]
  | cons q qs ih =>
    have hqueues := (framed_publishTo (framed_deadLetter env) env true m c s q).queues
    rw [foldl_cons, foldl_cons, ← publishTo_of_quiet env m c (h q mem_cons_self)]
    refine ih fun q' hq' y hy => ?_
    rw [hqueues] at hy
    exact h q' (mem_cons_of_mem q hq') y hy

variable (s) in
theorem hands_publishTo (q : GoString) :
    Hands (fun ch => s.mayHand ch q) s (publishTo env (fun _ _ u => u) true m c s q) := by
  cases hq : s.queues.get q with
  | none => rw [publishTo_none env _ m c hq]; exact .of_eq rfl rfl
  | some y =>
    rw [publishTo_some env _ m c hq, if_pos rfl]
    obtain ⟨st, -, heq⟩ := evictOldest_eq (fun _ _ u => u) s q y.args
    have hevict : s.evictOldest (fun _ _ u => u) q y.args = { s with store := st } := by
      rw [heq]
      cases s.overflowing q y.args <;> rfl
    rw [hevict]
    exact (hands_storeAndDeliver { s with store := st } m q c env y.args).after_quiet rfl rfl

theorem hands_publish (ex key : GoString)
    (h : ∀ q ∈ s.config.deliveries (s.headersOf m) ex key, s.Quiet q) :
    Hands (fun ch => ((s.config.deliveries (s.headersOf m) ex key).map (s.mayHand ch)).sum) s
      (s.publish env ex key m c).2 := by
  have hquiet := foldl_publishTo_of_quiet env m c h
  set qs := s.config.deliveries (s.headersOf m) ex key
  -- nothing is marked as a dead letter, so the walk is the loop over the selected queues
  have hfix : (qs.foldl (publishTo env (deadLetter env) true m c) s).headersOf m =
      s.headersOf m := by
    rw [hquiet]
    exact foldlRecOn (motive := fun u => u.headersOf m = s.headersOf m) qs _ rfl
      fun u hu q _ => (congrArg Prod.snd
        (keeps_publishTo stampless_marks (fun _ _ v => .refl v) env true m c u q m)).trans hu
  have hwalk := (follows env m c s.walkFuel ex key [] s (.inr hfix)).1
  have hloop : Hands (fun ch => (qs.map (s.mayHand ch)).sum) s
      (publishInternal env (deadLetter env) true m c s.walkFuel ex key [] s).1 := by
    rw [hwalk]
    exact hquiet ▸ Hands.foldl (fun q ch => s.mayHand ch q) qs fun u hu q _ =>
      mayHand_congr hu ▸ hands_publishTo env m c u q
  unfold publish
  split <;> rename_i heq <;> rw [heq] at hloop
  · exact ⟨hloop.byQueue, hloop.log⟩
  · exact hloop

end Publish

end Server

/-! ## Publishes -/

theorem enforced_publish {s : Pushing} {p : PublishCall} (h : Clear s (.publish p)) :
    Enforced s (.publish p) := by
  obtain ⟨hquiet, hroom⟩ := h
  set u : Server := { s.server with msgs := s.server.msgs.alloc p.message }
  have hheaders : u.headersOf s.server.msgs.next = p.message.properties.headers := by
    simp [u, Server.headersOf]
  obtain ⟨l, hl, -, hd⟩ := (Server.pushes_publish p.env u p.exchange p.routingKey s.server.msgs.next
    p.channelID).log
  obtain ⟨l', hl', hcount⟩ := (Server.hands_publish p.env s.server.msgs.next p.channelID (s := u)
    p.exchange p.routingKey (hheaders ▸ hquiet)).log
  obtain rfl : l = l' := append_cancel_left (hl.symm.trans hl')
  have hmade : made s.server (publishCall s.server p) = l := by
    unfold made publishCall
    rw [hl, drop_left]
  intro before d after heq ch hch
  rw [show made s.server (PushAction.perform s.server (.publish p)) = l from hmade] at heq
  subst heq
  obtain ⟨hflow, hlimit⟩ := hroom d.consumer (hd d (by simp)).1 ch hch
  refine ⟨hflow, fun hack hne => (?_ : _ ≤ _).trans (hlimit hack hne)⟩
  have htotal := hcount ch
  rw [hheaders, countP_append, countP_cons_of_pos (by simp [Delivery.expectsAck, *])]
    at htotal
  have hle : before.countP (·.expectsAck ch) + 1 ≤ _ := le_trans (by omega) htotal
  exact (Nat.add_assoc _ _ 1).trans_le (Nat.add_le_add_left hle _)

theorem enforced_of_clear {s : Pushing} {a : PushAction} (h : Clear s a) : Enforced s a := by
  have hnothing : (a.perform s.server).delivered = s.server.delivered → Enforced s a := by
    intro hsame l d l' hmade
    rw [made_of_eq hsame] at hmade
    simp at hmade
  cases a with
  | qos env ch size count global =>
    exact hnothing (delivered_exec _ env ch _ fun u => delivered_reply _ ch _)
  | flow env ch payload => exact hnothing (delivered_flow _ env ch payload)
  | consume env ch queue tag noLocal noAck exclusive noWait args =>
    exact hnothing (delivered_exec _ env ch _ fun u => delivered_consume u ch _ _ _ _ _ _)
  | publish p => exact enforced_publish h
  | ack env ch tag => exact hnothing (delivered_exec _ env ch _ fun u => u.delivered_ack tag _)

/-- In every run of these requests and publishes, from any state: if every publish finds the
channels of all subscribed consumers open, with room for what it may hand over, then no message is
handed to a consumer whose channel is paused or has reached its prefetch count. -/
theorem enforced_run (s : Pushing) (as : List PushAction) (h : Along pushStep Clear s as) :
    Along pushStep Enforced s as :=
  h.of_inv (I := fun _ => True) (fun _ _ _ _ => trivial) (fun _ _ _ ha => enforced_of_clear ha)
    trivial

def pushChannel : Pushing where
  server :=
    [ProtocolEvent.control default 0 .channelOpen [],
      .request default 0
        (.exchangeDeclare (str "ex") (str "fanout") false false false false true []),
      .request default 0 (.queueDeclare (str "q") false false false false true []),
      .request default 0 (.queueBind (str "q") (str "ex") [] true [])].foldl protocolStep
        { newServer with chans := newServer.chans.alloc (newChannel 1 0) }
  unacked := []

def consumeOne : PushAction := .consume default 0 (str "q") (str "t") false false false true []

def publishFrom (channelID : UInt16) : PushAction :=
  .publish ⟨default, str "ex", [], default, channelID⟩

def receivers (s : Pushing) (a : PushAction) : List (Option ChanRef × Bool) :=
  (made s.server (a.perform s.server)).map fun d => (d.consumer.channel, d.consumer.autoAck)

theorem not_enforced {s : Pushing} {a : PushAction} (ch : ChanRef)
    (h : receivers s a = [(some ch, false)])
    (hbad : s.server.flowing ch = false ∨
      s.server.prefetchCount (s.server.chans.read ch).id ≠ 0 ∧
        s.server.prefetchCount (s.server.chans.read ch).id ≤ s.unackedOn ch) :
    ¬Enforced s a := by
  intro henf
  obtain ⟨d, hd, hk⟩ := map_eq_singleton_iff.mp h
  obtain ⟨hflow, hcount⟩ := henf [] d [] hd ch (congrArg Prod.fst hk)
  rcases hbad with hpaused | ⟨hne, hfull⟩
  · exact absurd hflow (by rw [hpaused]; decide)
  · exact absurd (hcount (congrArg Prod.snd hk) hne) (not_le.mpr (Nat.lt_succ_of_le hfull))

def oneHanded (channelID : UInt16) : Pushing :=
  [.qos default 0 0 1 false, consumeOne, publishFrom channelID].foldl pushStep pushChannel

def paused : Pushing := [consumeOne, .flow default 0 [0]].foldl pushStep pushChannel

/-- With a prefetch count of one the second message is handed over while the first is not
acknowledged, whether the publisher is on the channel of the consumer or on another; and a message
is handed over on a channel that has been paused. -/
theorem handedOver_beyond :
    (∀ c ∈ [(1 : UInt16), 2],
      (oneHanded c).server.prefetchCount 1 = 1 ∧ (oneHanded c).unackedOn 0 = 1 ∧
        receivers (oneHanded c) (publishFrom c) = [(some 0, false)] ∧
        ¬Enforced (oneHanded c) (publishFrom c)) ∧
      paused.server.flowing 0 = false ∧ receivers paused (publishFrom 1) = [(some 0, false)] ∧
      ¬Enforced paused (publishFrom 1) := by
  have hone : ∀ c ∈ [(1 : UInt16), 2],
      (oneHanded c).server.prefetchCount 1 = 1 ∧ (oneHanded c).unackedOn 0 = 1 ∧
        receivers (oneHanded c) (publishFrom c) = [(some 0, false)] ∧
        ((oneHanded c).server.chans.read 0).id = 1 := by
    intro c hc
    rcases mem_pair.mp hc with rfl | rfl <;> decide +kernel
  refine ⟨fun c hc => ?_, by decide +kernel, by decide +kernel,
    not_enforced 0 (by decide +kernel) (.inl (by decide +kernel))⟩
  obtain ⟨hcount, hunacked, hto, hid⟩ := hone c hc
  refine ⟨hcount, hunacked, hto, not_enforced 0 hto (.inr ?_)⟩
  rw [hid, hcount, hunacked]
  exact ⟨one_ne_zero, le_rfl⟩

def theConsumer : Consumer := ⟨str "t", str "q", some 0, false, false, [], []⟩

/-- With a prefetch count of two the first message is within the limits. -/
theorem enforced_firstMessage :
    let as := [.qos default 0 0 2 false, consumeOne, publishFrom 2, .ack default 0 0]
    Along pushStep Clear pushChannel as ∧
      receivers ((as.take 2).foldl pushStep pushChannel) (publishFrom 2) = [(some 0, false)] ∧
      Along pushStep Enforced pushChannel as := by
  intro as
  have hclear : Along pushStep Clear pushChannel as := by
    refine ⟨trivial, trivial, ⟨by decide +kernel, ?_⟩, trivial, trivial⟩
    set u := pushStep (pushStep pushChannel (.qos default 0 0 2 false)) consumeOne
    have hcon : u.server.consumers =
        ⟨(∅ : GoMap GoString (List Consumer)).set (str "q") [theConsumer],
          (∅ : GoMap GoString Consumer).set (str "t") theConsumer,
          some ⟨Heap.empty, ∅, ∅⟩⟩ := rfl
    have hadmits : u.server.Admits (fun ch => u.unackedOn ch +
        ((u.server.config.deliveries [] (str "ex") []).map (u.server.mayHand ch)).sum)
          theConsumer := by
      intro ch hch
      cases hch
      exact ⟨by decide +kernel, fun _ _ => by decide +kernel⟩
    rintro k (⟨q, hk⟩ | ⟨gm, g, hgm, hk⟩)
    · unfold Server.getConsumers at hk
      rw [hcon, GoMap.getD_set] at hk
      split at hk
      · rw [mem_singleton.mp hk]; exact hadmits
      · exact absurd hk not_mem_nil
    · rw [hcon] at hgm
      cases hgm
      exact absurd hk not_mem_nil
  exact ⟨hclear, by decide +kernel, enforced_run pushChannel as hclear⟩

end Gomq.Broker
