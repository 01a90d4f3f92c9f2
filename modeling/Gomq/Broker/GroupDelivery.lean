import Gomq.Broker.Handovers
import Gomq.Broker.Independence
import Gomq.Broker.Registry

/-!
# Which consumers a group delivers to

`Deliver` collects the group ids of the consumers of a queue and asks the group manager for a member
of each. Groups are found by their id alone, and the consumers of any queue may join one, so the
member need not be subscribed to the queue. The registry is in order at all times, so that exactly
one member is found for each group; the message stays on its queue exactly if every member found is
subscribed to it (`groupDelivery_iff`).
-/

namespace Gomq.Broker

open Wire List

/-! ## Selections -/

namespace ConsumerGroupManager

variable {gm : ConsumerGroupManager} {R : Consumer → Prop} {gid gid' key key' : GoString}

theorem Groups.select (h : gm.Groups R) (gid key : GoString) : (gm.select gid key).2.Groups R := by
  cases hg : gm.byID.get gid with
  | none =>
    rw [select_of_none hg]
    exact h
  | some g =>
    rw [select_of_get hg]
    refine ⟨fun id g' hg' => ?_, ?_, ?_⟩
    · obtain ⟨hid, -, hmem⟩ := gm.read_withStrategy g g' _
      rw [hid, hmem]
      exact h.group id g' hg'
    · exact h.members.congr_right (fun _ => Iff.rfl) fun id =>
        members_congr rfl fun g' _ => (gm.read_withStrategy g g' _).2.2
    · exact h.queues.congr (fun g' _ => (gm.read_withStrategy g g' _).1)
        fun g' _ => (gm.read_withStrategy g g' _).2.1

theorem Groups.select_other (h : gm.Groups R) (hne : gid' ≠ gid) :
    ((gm.select gid key).2.select gid' key').1 = (gm.select gid' key').1 := by
  cases hg : gm.byID.get gid with
  | none => rw [select_of_none hg]
  | some g =>
    rw [select_of_get hg]
    set st := ((gm.heap.read g).strategy.select (gm.heap.read g).members key).2
    have hbyID : (gm.withStrategy g st).byID.get gid' = gm.byID.get gid' := rfl
    cases hg' : gm.byID.get gid' with
    | none => rw [select_of_none hg', select_of_none (hbyID.trans hg')]
    | some g' =>
      have hread := gm.read_withStrategy_ne g g' st fun heq => hne (h.byID_inj hg' (heq ▸ hg))
      rw [select_of_get hg', select_of_get (hbyID.trans hg'), hread]

theorem Groups.select_spec (h : gm.Groups R) {k : Consumer} (hk : R k) (key : GoString) :
    ∃ k', (gm.select k.groupID key).1 = some k' ∧ R k' ∧ k'.groupID = k.groupID := by
  have hmem : k ∈ gm.members k.groupID := (h.members.mem _ k).mpr ⟨hk, rfl⟩
  cases hg : gm.byID.get k.groupID with
  | none =>
    rw [members_of_none hg] at hmem
    cases hmem
  | some g =>
    have hsome := (gm.heap.read g).strategy.isSome_select (gm.heap.read g).members key
    have hne : (gm.heap.read g).members.isEmpty = false := by
      rw [isEmpty_eq_false_iff]
      exact (h.group _ g hg).2.2
    rw [hne] at hsome
    obtain ⟨k', hk'⟩ := Option.isSome_iff_exists.mp hsome
    have hmem' : k' ∈ gm.members k.groupID := by
      rw [members_of_get hg]
      exact Strategy.mem_of_select hk'
    rw [select_of_get hg]
    exact ⟨k', hk', (h.members.mem _ k').mp hmem'⟩

end ConsumerGroupManager

namespace Server

def pick (s : Server) (gid key : GoString) : Option Consumer :=
  match s.consumers.groupMgr with
  | some gm => (gm.select gid key).1
  | none => none

def groupsOn (s : Server) (q : GoString) : List GoString :=
  (((s.getConsumers q).map (·.groupID)).filter (· ≠ [])).dedup

def handedTo (env : Env) (s : Server) (msg : MsgRef) (q : GoString) (c : UInt16) :
    List Consumer :=
  ((s.deliver env msg q c).delivered.drop s.delivered.length).map Delivery.consumer

def PicksOnQueue (s : Server) (msg : MsgRef) (q : GoString) : Prop :=
  ∀ k ∈ s.getConsumers q, k.groupID ≠ [] →
    ∀ k', s.pick k.groupID (s.msgs.read msg).routingKey = some k' → k'.queueName = q

def GroupsOnQueue (s : Server) (q : GoString) : Prop :=
  ∀ k ∈ s.getConsumers q, k.groupID ≠ [] →
    ∀ tag k', s.consumers.byTag.get tag = some k' → k'.groupID = k.groupID → k'.queueName = q

/-! ## One delivery -/

section Deliver

variable {s : Server} (m : MsgRef) (q : GoString) (c : UInt16)

theorem pick_eq {gm : ConsumerGroupManager} (h : s.consumers.groupMgr = some gm)
    (gid key : GoString) : s.pick gid key = (gm.select gid key).1 := by
  unfold pick
  rw [h]

theorem mem_groupsOn {gid : GoString} :
    gid ∈ s.groupsOn q ↔ ∃ k ∈ s.getConsumers q, k.groupID ≠ [] ∧ k.groupID = gid := by
  unfold groupsOn
  simp only [mem_dedup, mem_filter, mem_map, decide_eq_true_eq]
  constructor
  · rintro ⟨⟨k, hk, rfl⟩, hne⟩
    exact ⟨k, hk, hne, rfl⟩
  · rintro ⟨k, hk, hne, rfl⟩
    exact ⟨⟨k, hk, rfl⟩, hne⟩

theorem inOrder_of_consumers {u : Server} (h : InOrder s) (hu : u.consumers = s.consumers) :
    InOrder u := by
  unfold InOrder
  rw [hu]
  exact h

def handOver (m : MsgRef) (q : GoString) (c : UInt16) (k : Consumer) : Delivery := ⟨k, m, q, 0, c⟩

theorem delivered_deliverTo (s : Server) (k : Consumer) :
    (s.deliverTo m k q c).delivered = s.delivered ++ [handOver m q c k] :=
  (s.deliverTo_spec c m k q).2

structure GroupStep (s : Server) (gid key : GoString) (u : Server) : Prop where
  inOrder : InOrder u
  byQueue : u.consumers.byQueue = s.consumers.byQueue
  routingKey : (u.msgs.read m).routingKey = (s.msgs.read m).routingKey
  picks : ∀ gid' ≠ gid, ∀ key', u.pick gid' key' = s.pick gid' key'
  delivered : u.delivered = s.delivered ++ (s.pick gid key).toList.map (handOver m q c)

theorem groupStep_deliverGroup (h : InOrder s) (list : List Consumer) (gid : GoString) :
    GroupStep m q c s gid (s.msgs.read m).routingKey (deliverGroup list m q c s gid) := by
  obtain ⟨gm, hgm, hreg⟩ := h
  set key := (s.msgs.read m).routingKey
  set u : Server :=
    { s with consumers := { s.consumers with groupMgr := some (gm.select gid key).2 } } with hu
  have hsel : s.selectMember list gid key = (s.pick gid key, u) := by
    unfold selectMember
    rw [pick_eq hgm, hgm]
  have horder : InOrder u := ⟨_, rfl, ⟨hreg.keyed, hreg.queues, hreg.groups.select gid key⟩⟩
  have hpicks : ∀ gid' ≠ gid, ∀ key', u.pick gid' key' = s.pick gid' key' := by
    intro gid' hne key'
    rw [pick_eq hgm]
    exact hreg.groups.select_other hne
  unfold deliverGroup
  rw [hsel]
  cases hk : s.pick gid key with
  | none => exact ⟨horder, rfl, rfl, hpicks, by rw [hk]; exact (append_nil _).symm⟩
  | some k =>
    have hcon := u.consumers_deliverTo c m k q
    refine ⟨inOrder_of_consumers horder hcon, by rw [hcon], ?_, fun gid' hne key' => ?_, ?_⟩
    · exact congrArg Prod.fst (keeps_deliverTo stampless_marks u m k q c m)
    · rw [← hpicks gid' hne key']
      unfold pick
      rw [hcon]
    · rw [delivered_deliverTo, hk]
      rfl

theorem foldl_deliverGroup (h : InOrder s) (list : List Consumer) {l : List GoString}
    (hl : l.Nodup) :
    InOrder (l.foldl (deliverGroup list m q c) s) ∧
      (l.foldl (deliverGroup list m q c) s).consumers.byQueue = s.consumers.byQueue ∧
      (l.foldl (deliverGroup list m q c) s).delivered = s.delivered ++
        (l.filterMap fun gid => s.pick gid (s.msgs.read m).routingKey).map (handOver m q c) := by
  induction l generalizing s with
  | nil => exact ⟨h, rfl, (append_nil _).symm⟩
  | cons gid l ih =>
    obtain ⟨hnot, hl⟩ := nodup_cons.mp hl
    have hstep := groupStep_deliverGroup m q c h list gid
    obtain ⟨horder, hbyQueue, hdelivered⟩ := ih hstep.inOrder hl
    -- the groups still to come have other ids, so they pick as they would have picked in `s`
    have hsame : (l.filterMap fun gid' =>
          (deliverGroup list m q c s gid).pick gid'
            ((deliverGroup list m q c s gid).msgs.read m).routingKey) =
        l.filterMap fun gid' => s.pick gid' (s.msgs.read m).routingKey := by
      refine filterMap_congr fun gid' hgid' => ?_
      rw [hstep.routingKey]
      exact hstep.picks gid' (fun heq => hnot (heq ▸ hgid')) _
    refine ⟨horder, hbyQueue.trans hstep.byQueue, ?_⟩
    rw [foldl_cons, hdelivered, hstep.delivered, hsame, append_assoc,
      filterMap_cons, ← map_append]
    cases s.pick gid (s.msgs.read m).routingKey with
    | none => rfl
    | some k => rfl

theorem foldl_deliverTo (l : List Consumer) (s : Server) :
    (l.foldl (fun s k => s.deliverTo m k q c) s).consumers = s.consumers ∧
      (l.foldl (fun s k => s.deliverTo m k q c) s).delivered =
        s.delivered ++ l.map (handOver m q c) := by
  induction l generalizing s with
  | nil => exact ⟨rfl, (append_nil _).symm⟩
  | cons k l ih =>
    obtain ⟨hcon, hdelivered⟩ := ih (s.deliverTo m k q c)
    rw [foldl_cons]
    refine ⟨hcon.trans (s.consumers_deliverTo c m k q), ?_⟩
    rw [hdelivered, delivered_deliverTo, append_assoc]
    rfl

variable (env : Env)

theorem deliver_spec (h : InOrder s) :
    InOrder (s.deliver env m q c) ∧
      s.handedTo env m q c =
        ((env.nameOrder (s.groupsOn q)).filterMap fun gid =>
          s.pick gid (s.msgs.read m).routingKey) ++
        (s.getConsumers q).filter fun k => k.groupID == [] := by
  have hnodup : (env.nameOrder (s.groupsOn q)).Nodup :=
    (env.nameOrder_perm _).nodup_iff.mpr (nodup_dedup _)
  obtain ⟨horder, -, hgroups⟩ := foldl_deliverGroup m q c h (s.getConsumers q) hnodup
  obtain ⟨hcon, hrest⟩ := foldl_deliverTo m q c
    ((s.getConsumers q).filter fun k => k.groupID == [])
    ((env.nameOrder (s.groupsOn q)).foldl (deliverGroup (s.getConsumers q) m q c) s)
  have hid : Delivery.consumer ∘ handOver m q c = id := rfl
  refine ⟨inOrder_of_consumers horder hcon, ?_⟩
  unfold handedTo
  rw [deliver_eq]
  unfold groupsOn at hrest hgroups ⊢
  rw [hrest, hgroups, append_assoc, drop_left, ← map_append, map_map, hid,
    map_id]

theorem pick_spec (h : InOrder s) {gid : GoString} (hgid : gid ∈ s.groupsOn q) (key : GoString) :
    ∃ k, s.pick gid key = some k ∧ s.consumers.Registered k ∧ k.groupID = gid := by
  obtain ⟨gm, hgm, hreg⟩ := h
  obtain ⟨k, hk, hne, rfl⟩ := (mem_groupsOn q).mp hgid
  have hk' : s.consumers.Registered k := ((hreg.queues.mem q k).mp hk).1
  obtain ⟨k', hpick, hregistered, hid⟩ := hreg.groups.select_spec ⟨hk', hne⟩ key
  exact ⟨k', (pick_eq hgm _ key).trans hpick, hregistered.1, hid⟩

theorem GroupsOnQueue.picks (h : InOrder s) (hgroups : s.GroupsOnQueue q) :
    s.PicksOnQueue m q := by
  intro k hk hne k' hpick
  obtain ⟨x, hx, hregistered, hid⟩ :=
    pick_spec q h ((mem_groupsOn q).mpr ⟨k, hk, hne, rfl⟩) (s.msgs.read m).routingKey
  obtain rfl : x = k' := Option.some.inj (hx.symm.trans hpick)
  exact hgroups k hk hne x.tag x hregistered hid

theorem count_handedTo (h : InOrder s) {gid : GoString} (hgid : gid ∈ s.groupsOn q) :
    ((s.handedTo env m q c).map Consumer.groupID).count gid = 1 := by
  have hids : ∀ l : List GoString, l ⊆ s.groupsOn q →
      (l.filterMap fun gid => s.pick gid (s.msgs.read m).routingKey).map Consumer.groupID = l := by
    intro l
    induction l with
    | nil => exact fun _ => rfl
    | cons gid l ih =>
      intro hsub
      obtain ⟨k, hpick, -, hid⟩ := pick_spec q h (hsub mem_cons_self)
        (s.msgs.read m).routingKey
      have hl := ih fun a ha => hsub (mem_cons_of_mem gid ha)
      simp only [filterMap_cons, hpick, map_cons, hid, hl]
  have hungrouped : ((s.getConsumers q).filter fun k => k.groupID == []).map Consumer.groupID =
      List.replicate ((s.getConsumers q).filter fun k => k.groupID == []).length [] := by
    refine eq_replicate_iff.mpr ⟨length_map .., fun id hid => ?_⟩
    obtain ⟨k, hk, rfl⟩ := mem_map.mp hid
    exact beq_iff_eq.mp (mem_filter.mp hk).2
  have hne : gid ≠ [] := by
    obtain ⟨k, -, hne, rfl⟩ := (mem_groupsOn q).mp hgid
    exact hne
  rw [(deliver_spec m q c env h).2, map_append, count_append,
    hids _ (env.nameOrder_perm _).subset, (env.nameOrder_perm _).count_eq, hungrouped,
    count_replicate, if_neg (by simpa using hne.symm)]
  exact count_eq_one_of_mem (nodup_dedup _) hgid

theorem handedTo_subset_iff (h : InOrder s) :
    (∀ k ∈ s.handedTo env m q c, k ∈ s.getConsumers q) ↔ s.PicksOnQueue m q := by
  obtain ⟨gm, hgm, hreg⟩ := id h
  rw [(deliver_spec m q c env h).2]
  constructor
  · intro hall k hk hne k' hpick
    have hgid : k.groupID ∈ env.nameOrder (s.groupsOn q) :=
      (env.nameOrder_perm _).mem_iff.mpr ((mem_groupsOn q).mpr ⟨k, hk, hne, rfl⟩)
    have hmem := hall k' (mem_append_left _ (mem_filterMap.mpr ⟨_, hgid, hpick⟩))
    exact ((hreg.queues.mem q k').mp hmem).2
  · intro hpicks k hk
    rcases mem_append.mp hk with hk | hk
    · obtain ⟨gid, hgid, hpick⟩ := mem_filterMap.mp hk
      have hgid := (env.nameOrder_perm _).mem_iff.mp hgid
      obtain ⟨k', hpick', hregistered, -⟩ := pick_spec q h hgid (s.msgs.read m).routingKey
      rw [hpick] at hpick'
      cases hpick'
      obtain ⟨x, hx, hne, rfl⟩ := (mem_groupsOn q).mp hgid
      exact (hreg.queues.mem q k).mpr ⟨hregistered, hpicks x hx hne k hpick⟩
    · exact mem_of_mem_filter hk

end Deliver

end Server

/-! ## Runs -/

inductive GroupOp where
  | manage (op : ConsumerOp)
  | deliver (msg : MsgRef) (queueName : GoString) (channelID : UInt16)

def groupStep (s : Server) : Env × GroupOp → Server
  | (env, .manage op) => consumerStep s (env, op)
  | (env, .deliver msg queueName channelID) => s.deliver env msg queueName channelID

def groupRun (s : Server) (ops : List (Env × GroupOp)) : Server :=
  ops.foldl groupStep { s with consumers := emptyConsumers }

theorem inOrder_groupRun (s : Server) (ops : List (Env × GroupOp)) : InOrder (groupRun s ops) := by
  refine foldlRecOn (motive := InOrder) ops _ (inOrder_empty s) fun u hu op _ => ?_
  obtain ⟨env, op⟩ := op
  cases op with
  | manage op => exact hu.step (env, op)
  | deliver msg queueName channelID => exact (Server.deliver_spec msg queueName channelID env hu).1

/-- After every run of subscriptions, cancellations and deliveries, a delivery for a queue hands the
message to exactly one consumer of each group that has a member on the queue. All consumers that get
the message are subscribed to the queue exactly if the next pick of each of these groups is, which
is so if none of the groups has members on two queues. -/
theorem groupDelivery_iff (s : Server) (ops : List (Env × GroupOp)) (env : Env) (m : MsgRef)
    (q : GoString) (c : UInt16) :
    (∀ k ∈ (groupRun s ops).getConsumers q, k.groupID ≠ [] →
      (((groupRun s ops).handedTo env m q c).map Consumer.groupID).count k.groupID = 1) ∧
    ((∀ k ∈ (groupRun s ops).handedTo env m q c, k ∈ (groupRun s ops).getConsumers q) ↔
      (groupRun s ops).PicksOnQueue m q) ∧
    ((groupRun s ops).GroupsOnQueue q → (groupRun s ops).PicksOnQueue m q) := by
  have horder := inOrder_groupRun s ops
  refine ⟨fun k hk hne => ?_, Server.handedTo_subset_iff m q c env horder,
    fun hgroups => hgroups.picks m q horder⟩
  exact Server.count_handedTo m q c env horder ((Server.mem_groupsOn q).mpr ⟨k, hk, hne, rfl⟩)

/-! ## One group on two queues -/

def inGroup : Table := [(str "x-group-id", .string (str "g"))]

def acrossQueues : Server :=
  groupRun newServer
    [(default, .manage (.subscribe (str "1") (str "a") (some 0) true false inGroup)),
      (default, .manage (.subscribe (str "2") (str "b") (some 0) true false inGroup))]

/-- A message for `b` goes to the consumer of `a`. -/
theorem acrossQueues_leaves_queue :
    (acrossQueues.getConsumers (str "b")).map Consumer.tag = [str "2"] ∧
      (acrossQueues.handedTo default 0 (str "b") 0).map Consumer.tag = [str "1"] ∧
      ¬ ∀ k ∈ acrossQueues.handedTo default 0 (str "b") 0,
        k ∈ acrossQueues.getConsumers (str "b") := by
  have hon : (acrossQueues.getConsumers (str "b")).map Consumer.tag = [str "2"] := by
    decide +kernel
  have hto : (acrossQueues.handedTo default 0 (str "b") 0).map Consumer.tag = [str "1"] := by
    decide +kernel
  refine ⟨hon, hto, fun hall => ?_⟩
  have hmem : str "1" ∈ (acrossQueues.handedTo default 0 (str "b") 0).map Consumer.tag := by
    rw [hto]
    exact mem_cons_self
  obtain ⟨k, hk, htag⟩ := mem_map.mp hmem
  have hback := mem_map_of_mem (f := Consumer.tag) (hall k hk)
  rw [hon, htag] at hback
  exact absurd hback (by decide)

end Gomq.Broker
