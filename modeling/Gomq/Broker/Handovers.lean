import Gomq.Broker.Effects

/-!
# Hand-overs

Beside storing messages a publish makes hand-overs to consumers, one after the other. Each of them
is appended to the history and recorded in the tracker, and nothing else is: the tracker after a
publish is the tracker before with the new deliveries recorded in order (`pushes_publish`). The
consumers are among those that were subscribed before.
-/

namespace Gomq.Broker

open Wire List

def DeliveryTracker.recordAll (t : DeliveryTracker) (l : List Delivery) : DeliveryTracker :=
  l.foldl (fun t d => GoMap.set t d.channelID
    ((GoMap.getD t d.channelID ∅).set d.tag ⟨d.tag, d.msg, d.queueName, d.channelID⟩)) t

theorem DeliveryTracker.recordAll_append (t : DeliveryTracker) (l l' : List Delivery) :
    t.recordAll (l ++ l') = (t.recordAll l).recordAll l' :=
  foldl_append

namespace Server

/-- The consumers that a message can be handed to: those of a queue, and the members of groups. -/
def Subscribed (s : Server) (k : Consumer) : Prop :=
  (∃ q, k ∈ s.getConsumers q) ∨
    ∃ gm g, s.consumers.groupMgr = some gm ∧ k ∈ (gm.heap.read g).members

/-- From `s` to `s'` there were only hand-overs, to subscribed consumers, under tag 0 of channel `c`
or of channel 0. -/
structure Pushes (c : UInt16) (s s' : Server) : Prop where
  subscribed : s'.Subscribed = s.Subscribed
  log : ∃ l, s'.delivered = s.delivered ++ l ∧ s'.tracker = s.tracker.recordAll l ∧
    ∀ d ∈ l, s.Subscribed d.consumer ∧ d.tag = 0 ∧ (d.channelID = c ∨ d.channelID = 0)

namespace Pushes

variable {c : UInt16} {s s' s'' : Server}

theorem of_eq (hcon : s'.consumers = s.consumers) (hdel : s'.delivered = s.delivered)
    (htr : s'.tracker = s.tracker) : Pushes c s s' where
  subscribed := by unfold Subscribed getConsumers; rw [hcon]
  log := ⟨[], by rw [hdel, append_nil], htr, fun _ hd => absurd hd not_mem_nil⟩

theorem refl (c : UInt16) (s : Server) : Pushes c s s := of_eq rfl rfl rfl

theorem trans (h : Pushes c s s') (h' : Pushes c s' s'') : Pushes c s s'' := by
  obtain ⟨l, hl, ht, hd⟩ := h.log
  obtain ⟨l', hl', ht', hd'⟩ := h'.log
  refine ⟨h'.subscribed.trans h.subscribed, l ++ l', ?_, ?_, ?_⟩
  · rw [hl', hl, append_assoc]
  · rw [ht', ht, DeliveryTracker.recordAll_append]
  · intro d hmem
    rcases mem_append.mp hmem with hmem | hmem
    · exact hd d hmem
    · rw [← h.subscribed]
      exact hd' d hmem

theorem of_zero (h : Pushes 0 s s') : Pushes c s s' := by
  obtain ⟨l, hl, ht, hd⟩ := h.log
  exact ⟨h.subscribed, l, hl, ht, fun d hmem =>
    ⟨(hd d hmem).1, (hd d hmem).2.1, .inr ((or_self_iff).mp (hd d hmem).2.2)⟩⟩

theorem foldl {α : Type} {f : Server → α → Server} (l : List α)
    (hf : ∀ u, u.Subscribed = s.Subscribed → ∀ a ∈ l, Pushes c u (f u a)) :
    Pushes c s (l.foldl f s) := by
  refine foldlRecOn l f (refl c s) fun u hu a ha => ?_
  exact hu.trans (hf u hu.subscribed a ha)

end Pushes

end Server

/-! ## Groups -/

theorem Strategy.mem_of_select {st : Strategy} {members : List Consumer} {key : GoString}
    {k : Consumer} (h : (st.select members key).1 = some k) : k ∈ members := by
  unfold Strategy.select at h
  split at h
  · cases h
  · exact mem_of_getElem? h
  · exact mem_of_getElem? h

namespace ConsumerGroupManager

def withStrategy (m : ConsumerGroupManager) (g : GroupRef) (st : Strategy) :
    ConsumerGroupManager :=
  { m with heap := m.heap.modify g fun x => { x with strategy := st } }

section WithStrategy

variable (gm : ConsumerGroupManager) (g g' : GroupRef) (st : Strategy)

theorem read_withStrategy :
    ((gm.withStrategy g st).heap.read g').id = (gm.heap.read g').id ∧
      ((gm.withStrategy g st).heap.read g').queue = (gm.heap.read g').queue ∧
      ((gm.withStrategy g st).heap.read g').members = (gm.heap.read g').members := by
  have hpart : ∀ {β : Type} (part : ConsumerGroup → β),
      (∀ x, part { x with strategy := st } = part x) →
        part ((gm.withStrategy g st).heap.read g') = part (gm.heap.read g') :=
    fun part hp => Heap.part_read_modify part _ hp
  exact ⟨hpart _ fun _ => rfl, hpart _ fun _ => rfl, hpart _ fun _ => rfl⟩

theorem read_withStrategy_ne (h : g' ≠ g) :
    (gm.withStrategy g st).heap.read g' = gm.heap.read g' := by
  simp [withStrategy, h]

end WithStrategy

variable {gm : ConsumerGroupManager} {gid key : GoString}

theorem select_of_get {g : GroupRef} (h : gm.byID.get gid = some g) (key : GoString) :
    gm.select gid key =
      (((gm.heap.read g).strategy.select (gm.heap.read g).members key).1,
        gm.withStrategy g ((gm.heap.read g).strategy.select (gm.heap.read g).members key).2) := by
  unfold select
  rw [h]
  rfl

theorem select_of_none (h : gm.byID.get gid = none) (key : GoString) :
    gm.select gid key = (none, gm) := by
  unfold select
  rw [h]

theorem members_select (gm : ConsumerGroupManager) (gid key : GoString) (r : GroupRef) :
    ((gm.select gid key).2.heap.read r).members = (gm.heap.read r).members := by
  cases hg : gm.byID.get gid with
  | none => rw [select_of_none hg]
  | some g =>
    rw [select_of_get hg]
    exact (gm.read_withStrategy g r _).2.2

theorem mem_of_select {k : Consumer} (h : (gm.select gid key).1 = some k) :
    ∃ g, k ∈ (gm.heap.read g).members := by
  cases hg : gm.byID.get gid with
  | none =>
    rw [select_of_none hg] at h
    cases h
  | some g =>
    rw [select_of_get hg] at h
    exact ⟨g, Strategy.mem_of_select h⟩

end ConsumerGroupManager

/-! ## Delivering -/

namespace Server

section Deliver

variable {c : UInt16} {s : Server}

theorem subscribed_selectMember (s : Server) (list : List Consumer) (gid key : GoString) :
    (s.selectMember list gid key).2.Subscribed = s.Subscribed := by
  unfold selectMember
  cases hgm : s.consumers.groupMgr with
  | none => rfl
  | some gm =>
    funext k
    simp [Subscribed, getConsumers, hgm, ConsumerGroupManager.members_select]

theorem selectMember_subscribed {list : List Consumer} (hlist : ∀ k ∈ list, s.Subscribed k)
    {gid key : GoString} {k : Consumer} (h : (s.selectMember list gid key).1 = some k) :
    s.Subscribed k := by
  unfold selectMember at h
  cases hgm : s.consumers.groupMgr with
  | none =>
    rw [hgm] at h
    exact hlist k (mem_of_find?_eq_some h)
  | some gm =>
    rw [hgm] at h
    obtain ⟨g, hk⟩ := ConsumerGroupManager.mem_of_select h
    exact .inr ⟨gm, g, hgm, hk⟩

theorem pushes_deliverTo {k : Consumer} (hk : s.Subscribed k) (m : MsgRef) (q : GoString) :
    Pushes c s (s.deliverTo m k q c) := by
  have hcon := s.consumers_deliverTo c m k q
  refine ⟨by unfold Subscribed getConsumers; rw [hcon], [⟨k, m, q, 0, c⟩], ?_, ?_, ?_⟩
  · exact (s.deliverTo_spec c m k q).2
  · unfold deliverTo
    cases k.channel <;> rfl
  · intro d hd
    rw [mem_singleton.mp hd]
    exact ⟨hk, rfl, .inl rfl⟩

theorem pushes_deliverGroup {list : List Consumer} (hlist : ∀ k ∈ list, s.Subscribed k)
    (m : MsgRef) (q gid : GoString) : Pushes c s (deliverGroup list m q c s gid) := by
  have hsel : Pushes c s (s.selectMember list gid (s.msgs.read m).routingKey).2 := by
    refine ⟨subscribed_selectMember .., [], ?_, ?_, fun _ hd => absurd hd not_mem_nil⟩
    · unfold selectMember
      cases s.consumers.groupMgr <;> exact (append_nil _).symm
    · unfold selectMember
      cases s.consumers.groupMgr <;> rfl
  unfold deliverGroup
  rcases h : s.selectMember list gid (s.msgs.read m).routingKey with ⟨_ | k, u⟩
  · rw [h] at hsel; exact hsel
  · rw [h] at hsel
    refine hsel.trans (pushes_deliverTo ?_ m q)
    rw [hsel.subscribed]
    exact selectMember_subscribed hlist (congrArg Prod.fst h)

theorem pushes_deliver (env : Env) (s : Server) (m : MsgRef) (q : GoString) :
    Pushes c s (s.deliver env m q c) := by
  have hlist : ∀ k ∈ s.getConsumers q, s.Subscribed k := fun k hk => .inl ⟨q, hk⟩
  rw [deliver_eq]
  have hgroups : Pushes c s ((env.nameOrder (((s.getConsumers q).map (·.groupID)).filter
      (· ≠ [])).dedup).foldl (deliverGroup (s.getConsumers q) m q c) s) :=
    Pushes.foldl _ fun u hu gid _ => pushes_deliverGroup (by rw [hu]; exact hlist) m q gid
  refine hgroups.trans (Pushes.foldl _ fun u hu k hk => pushes_deliverTo ?_ m q)
  rw [hu, hgroups.subscribed]
  exact hlist k (mem_of_mem_filter hk)

theorem pushes_storeAndDeliver (env : Env) (m : MsgRef) (qn : GoString) (args : Table)
    (s : Server) : Pushes c s (storeAndDeliver env m c qn args s) := by
  have hstore : Pushes c s
      ((s.modifyMsg m fun x => x.setEnqueuedAt (some env.now)).storeIn qn args m) := by
    unfold storeIn
    split <;> exact .of_eq rfl rfl rfl
  unfold storeAndDeliver
  dsimp only
  split
  · exact hstore
  · exact hstore.trans (pushes_deliver env _ m qn)

end Deliver

/-! ## Publishing -/

theorem pushes_deadLetter (env : Env) (m : MsgRef) (args : Table) (s : Server) :
    Pushes 0 s (deadLetter env m args s) :=
  deadLetter_inv (.refl 0 s) (fun _ => .of_eq rfl rfl rfl)
    fun qn args u hu => hu.trans (pushes_storeAndDeliver env m qn args u)

theorem pushes_evictOldest (env : Env) (s : Server) (qn : GoString) (args : Table) :
    Pushes 0 s (s.evictOldest (deadLetter env) qn args) := by
  have hdeq : Pushes 0 s (s.dequeue qn).2 := by
    unfold dequeue
    split <;> exact .of_eq rfl rfl rfl
  exact evictOldest_inv (.refl 0 s) hdeq fun o u hu => hu.trans (pushes_deadLetter env o args u)

theorem pushes_publishTo (env : Env) (m : MsgRef) (c : UInt16) (s : Server) (qn : GoString) :
    Pushes c s (publishTo env (deadLetter env) true m c s qn) :=
  publishTo_inv (.refl c s) (fun q _ _ => (pushes_evictOldest env s qn q.args).of_zero)
    fun q _ u hu => hu.trans (pushes_storeAndDeliver env m qn q.args u)

theorem pushes_publish (env : Env) (s : Server) (ex key : GoString) (m : MsgRef) (c : UInt16) :
    Pushes c s (s.publish env ex key m c).2 :=
  publish_inv (.refl c s) (fun u qn hu => hu.trans (pushes_publishTo env m c u qn))
    fun _ _ hu => hu.trans (.of_eq rfl rfl rfl)

end Server

end Gomq.Broker
