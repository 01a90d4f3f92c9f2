import Gomq.Broker.QueueRuns
import Gomq.Broker.PushDelivery

/-!
# Copies that share a record

The queues that a message was routed to and the tracker hold references to one record. What is done
to the copy in one queue is written to that record, and so the copies in the other queues see it.
`Stamped` says what a delivery or a dead letter writes: the time, if a queue is reached, and
delivery tag 0, if a consumer is.
-/

namespace Gomq.Broker

open Wire

/-- The record with the time `now` and with delivery tag 0, each if it is written. -/
def Message.stamp (x : Message) (now : ℕ) (timed tagged : Bool) : Message :=
  { x with
    enqueuedAt := if timed then some now else x.enqueuedAt
    deliveryTag := if tagged then 0 else x.deliveryTag }

theorem Message.stamp_stamp (x : Message) (now : ℕ) (a b a' b' : Bool) :
    (x.stamp now a b).stamp now a' b' = x.stamp now (a || a') (b || b') := by
  cases a <;> cases b <;> cases a' <;> cases b' <;> rfl

/-! ## Consumers -/

theorem Strategy.isSome_select (st : Strategy) (members : List Consumer) (key : GoString) :
    (st.select members key).1.isSome = !members.isEmpty := by
  have hindex : ∀ (i : UInt64) (c : Consumer) (cs : List Consumer),
      (i % UInt64.ofNat (c :: cs).length).toNat < (c :: cs).length := by
    intro i c cs
    rw [UInt64.toNat_mod, UInt64.toNat_ofNat']
    generalize hn : (c :: cs).length = n
    have hpos : 0 < n := by rw [← hn]; simp
    by_cases hzero : n % 2 ^ 64 = 0
    · -- the length wraps to 0, and then the index is the number itself
      have hi := i.toNat_lt
      rw [hzero, Nat.mod_zero]
      omega
    · exact (Nat.mod_lt _ (Nat.pos_of_ne_zero hzero)).trans_le (Nat.mod_le n _)
  cases members with
  | nil => rfl
  | cons c cs => cases st <;> simpa [Strategy.select] using hindex _ c cs

namespace Server

def hasMember (s : Server) (list : List Consumer) (gid : GoString) : Bool :=
  match s.consumers.groupMgr with
  | some gm =>
    match gm.byID.get gid with
    | some g => !(gm.heap.read g).members.isEmpty
    | none => false
  | none => list.any fun c => c.groupID == gid

def hasTaker (s : Server) (q : GoString) : Bool :=
  (s.getConsumers q).any fun k =>
    k.groupID == [] || s.hasMember (s.getConsumers q) k.groupID

section Members

variable (s : Server) (list : List Consumer) (gid key : GoString)

theorem isSome_selectMember : (s.selectMember list gid key).1.isSome = s.hasMember list gid := by
  unfold selectMember hasMember
  cases s.consumers.groupMgr with
  | none =>
    rw [Bool.eq_iff_iff, List.find?_isSome, List.any_eq_true]
  | some gm =>
    dsimp only
    unfold ConsumerGroupManager.select
    cases gm.byID.get gid with
    | none => rfl
    | some g => exact Strategy.isSome_select ..

theorem hasMember_selectMember (list' : List Consumer) (gid' : GoString) :
    (s.selectMember list gid key).2.hasMember list' gid' = s.hasMember list' gid' := by
  unfold selectMember
  cases hgm : s.consumers.groupMgr with
  | none => rfl
  | some gm =>
    unfold hasMember ConsumerGroupManager.select
    rw [hgm]
    dsimp only
    cases gm.byID.get gid with
    | none => rfl
    | some g =>
      dsimp only
      cases gm.byID.get gid' with
      | none => rfl
      | some g' =>
        dsimp only
        rw [Heap.read_modify]
        split <;> simp_all

end Members

/-! ## What is written -/

/-- From `s` to `u` only the record of `m` was written, with the time if `timed` and with delivery
tag 0 if `tagged`; the queues and their consumers are the same. -/
structure Stamped (m : MsgRef) (now : ℕ) (timed tagged : Bool) (s u : Server) : Prop where
  record : u.msgs.read m = (s.msgs.read m).stamp now timed tagged
  others : ∀ m', m' ≠ m → u.msgs.read m' = s.msgs.read m'
  queues : u.queues = s.queues
  byQueue : u.consumers.byQueue = s.consumers.byQueue
  members : ∀ list gid, u.hasMember list gid = s.hasMember list gid

namespace Stamped

variable {m : MsgRef} {now : ℕ} {a b a' b' : Bool} {s u v : Server}

theorem of_eq (hmsgs : u.msgs = s.msgs) (hqueues : u.queues = s.queues)
    (hconsumers : u.consumers = s.consumers) : Stamped m now false false s u where
  record := by rw [hmsgs]; rfl
  others := fun m' _ => by rw [hmsgs]
  queues := hqueues
  byQueue := by rw [hconsumers]
  members := fun list gid => by unfold hasMember; rw [hconsumers]

theorem refl (m : MsgRef) (now : ℕ) (s : Server) : Stamped m now false false s s :=
  of_eq rfl rfl rfl

theorem congr (h : Stamped m now a b s u) (ha : a = a') (hb : b = b') :
    Stamped m now a' b' s u := by
  subst ha hb
  exact h

theorem trans (h : Stamped m now a b s u) (h' : Stamped m now a' b' u v) :
    Stamped m now (a || a') (b || b') s v where
  record := by rw [h'.record, h.record, Message.stamp_stamp]
  others := fun m' hm => (h'.others m' hm).trans (h.others m' hm)
  queues := h'.queues.trans h.queues
  byQueue := h'.byQueue.trans h.byQueue
  members := fun list gid => (h'.members list gid).trans (h.members list gid)

/-- A loop writes what one of its rounds writes. What a round writes is told from a state before
the loop. -/
theorem foldl {α : Type} {f : Server → α → Server} {timed tagged : α → Bool}
    (hf : ∀ u x a b, Stamped m now a b s u → Stamped m now (timed x) (tagged x) u (f u x))
    (l : List α) (h : Stamped m now a b s u) :
    Stamped m now (a || l.any timed) (b || l.any tagged) s (l.foldl f u) := by
  induction l generalizing u a b with
  | nil => simpa using h
  | cons x l ih =>
    have hnext := ih (h.trans (hf u x a b h))
    simpa [Bool.or_assoc] using hnext

theorem hasTaker_eq (h : Stamped m now a b s u) (q : GoString) : u.hasTaker q = s.hasTaker q := by
  unfold hasTaker getConsumers
  rw [h.byQueue]
  simp only [h.members]

end Stamped

section Writes

variable (env : Env) (m : MsgRef) (now : ℕ) (c : UInt16) (q : GoString) (s : Server)

theorem stamped_deliverTo (k : Consumer) :
    Stamped m now false true s (s.deliverTo m k q c) := by
  have hmsgs : (s.deliverTo m k q c).msgs = s.msgs.modify m fun x => x.setDeliveryTag 0 := by
    unfold deliverTo
    cases k.channel <;> rfl
  have hconsumers := s.consumers_deliverTo c m k q
  refine ⟨?_, fun m' hm => ?_, ?_, by rw [hconsumers], fun list gid => ?_⟩
  · rw [hmsgs, Heap.read_modify_self]
    rfl
  · rw [hmsgs, Heap.read_modify_ne hm]
  · exact (delivers_deliverTo c s m k q).queues
  · unfold hasMember
    rw [hconsumers]

theorem stamped_deliverGroup (list : List Consumer) (gid : GoString) :
    Stamped m now false (s.hasMember list gid) s (deliverGroup list m q c s gid) := by
  have hsel : Stamped m now false false s
      (s.selectMember list gid (s.msgs.read m).routingKey).2 := by
    have hmembers := s.hasMember_selectMember list gid (s.msgs.read m).routingKey
    unfold selectMember at hmembers ⊢
    cases hgm : s.consumers.groupMgr with
    | none => exact Stamped.refl m now s
    | some gm =>
      rw [hgm] at hmembers
      exact ⟨rfl, fun _ _ => rfl, rfl, rfl, hmembers⟩
  have hsome := s.isSome_selectMember list gid (s.msgs.read m).routingKey
  unfold deliverGroup
  rcases h : s.selectMember list gid (s.msgs.read m).routingKey with ⟨_ | k, u⟩ <;>
    rw [h] at hsel hsome
  · rw [← hsome]
    exact hsel
  · rw [← hsome]
    exact hsel.trans (stamped_deliverTo m now c q u k)

theorem stamped_deliver : Stamped m now false (s.hasTaker q) s (s.deliver env m q c) := by
  rw [deliver_eq]
  have hgroups := Stamped.foldl (f := deliverGroup (s.getConsumers q) m q c)
    (fun u gid a b hu =>
      (stamped_deliverGroup m now c q u (s.getConsumers q) gid).congr rfl (hu.members _ gid))
    (env.nameOrder (((s.getConsumers q).map (·.groupID)).filter (· ≠ [])).dedup)
    (Stamped.refl m now s)
  have hall := Stamped.foldl (f := fun u k => u.deliverTo m k q c)
    (fun u k a b _ => stamped_deliverTo m now c q u k)
    ((s.getConsumers q).filter fun k => k.groupID == []) hgroups
  refine hall.congr (by simp) ?_
  rw [(env.nameOrder_perm _).any_eq, Bool.eq_iff_iff]
  simp only [hasTaker, List.any_eq_true, Bool.or_eq_true, List.mem_dedup, List.mem_filter,
    List.mem_map, beq_iff_eq, Bool.false_or, and_true]
  constructor
  · rintro (⟨gid, ⟨⟨k, hk, rfl⟩, -⟩, hmember⟩ | ⟨k, hk, hnone⟩)
    · exact ⟨k, hk, Or.inr hmember⟩
    · exact ⟨k, hk, Or.inl hnone⟩
  · rintro ⟨k, hk, hnone | hmember⟩
    · exact Or.inr ⟨k, hk, hnone⟩
    · by_cases hg : k.groupID = []
      · exact Or.inr ⟨k, hk, hg⟩
      · exact Or.inl ⟨k.groupID, ⟨⟨k, hk, rfl⟩, by simpa using hg⟩, hmember⟩

theorem stamped_storeIn (args : Table) (s : Server) (m' : MsgRef) :
    Stamped m now false false s (s.storeIn q args m') := by
  unfold storeIn
  split <;> exact Stamped.of_eq rfl rfl rfl

def isReached (s : Server) (q : GoString) : Bool := (s.queues.get q).isSome

def isTaken (env : Env) (s : Server) (m : MsgRef) (q : GoString) : Bool :=
  match s.queues.get q with
  | none => false
  | some x =>
    !isExpired env.now ((s.msgs.read m).setEnqueuedAt (some env.now)) x.args && s.hasTaker q

theorem stamped_publishTo (dl : MsgRef → Table → Server → Server) :
    Stamped m env.now (s.isReached q) (s.isTaken env m q) s
      (publishTo env dl false m c s q) := by
  unfold isReached isTaken
  cases hq : s.queues.get q with
  | none =>
    rw [publishTo_none env dl m c hq]
    exact Stamped.refl m env.now s
  | some x =>
    rw [publishTo_some env dl m c hq, if_neg (by decide)]
    have htime : Stamped m env.now true false s
        (s.modifyMsg m fun y => y.setEnqueuedAt (some env.now)) :=
      ⟨by rw [modifyMsg, Heap.read_modify_self]; rfl,
        fun m' hm => by rw [modifyMsg, Heap.read_modify_ne hm], rfl, rfl, fun _ _ => rfl⟩
    have hstore := htime.trans (stamped_storeIn m env.now q x.args
      (s.modifyMsg m fun y => y.setEnqueuedAt (some env.now)) m)
    have hread := hstore.record
    unfold storeAndDeliver
    generalize (s.modifyMsg m fun y => y.setEnqueuedAt (some env.now)).storeIn q x.args m = u
      at hstore hread
    dsimp only
    have hexp : isExpired env.now (u.msgs.read m) x.args =
        isExpired env.now ((s.msgs.read m).setEnqueuedAt (some env.now)) x.args := by
      rw [hread]
      exact isExpired_congr rfl rfl
    rw [hexp]
    split
    · rename_i hlate
      rw [hlate]
      exact hstore
    · rename_i hlive
      have hpush := hstore.trans (stamped_deliver env m env.now c q u)
      refine hpush.congr rfl ?_
      rw [hstore.hasTaker_eq]
      simp [hlive]

theorem stamped_letters (dl : MsgRef → Table → Server → Server) (l : List GoString) :
    Stamped m env.now (l.any s.isReached) (l.any (s.isTaken env m)) s
      (l.foldl (publishTo env dl false m c) s) := by
  have hround : ∀ (u : Server) (qn : GoString) (a b : Bool), Stamped m env.now a b s u →
      Stamped m env.now (s.isReached qn) (s.isTaken env m qn) u
        (publishTo env dl false m c u qn) := by
    intro u qn a b hu
    refine (stamped_publishTo env m c qn u dl).congr ?_ ?_
    · unfold isReached
      rw [hu.queues]
    · unfold isTaken
      rw [hu.queues, hu.hasTaker_eq, hu.record]
      rfl
  exact (Stamped.foldl hround l (Stamped.refl m env.now s)).congr rfl rfl

end Writes

/-! ## Copies -/

end Server

/-- What the copies in two states agree on: the time, the headers, the delivery tag, and when they
expire. -/
structure SameCopy (x y : Message) : Prop where
  time : y.enqueuedAt = x.enqueuedAt
  headers : y.properties.headers = x.properties.headers
  tag : y.deliveryTag = x.deliveryTag
  expiry : ∀ now args, isExpired now y args = isExpired now x args

theorem SameCopy.refl (x : Message) : SameCopy x x := ⟨rfl, rfl, rfl, fun _ _ => rfl⟩

theorem sameCopy_iff {x y : Message} (h : y.properties.expiration = x.properties.expiration) :
    SameCopy x y ↔ y.enqueuedAt = x.enqueuedAt ∧ y.properties.headers = x.properties.headers ∧
      y.deliveryTag = x.deliveryTag :=
  ⟨fun hs => ⟨hs.time, hs.headers, hs.tag⟩,
    fun ⟨htime, hheaders, htag⟩ => ⟨htime, hheaders, htag, fun _ _ => isExpired_congr h htime⟩⟩

theorem sameCopy_stamp_iff {x y : Message} {now : ℕ} {timed tagged : Bool}
    (he : y.properties.expiration = x.properties.expiration) (ht : y.enqueuedAt = x.enqueuedAt)
    (hg : y.deliveryTag = x.deliveryTag) :
    SameCopy x (y.stamp now timed tagged) ↔
      y.properties.headers = x.properties.headers ∧ (timed = true → x.enqueuedAt = some now) ∧
        (tagged = true → x.deliveryTag = 0) := by
  rw [sameCopy_iff (by exact he)]
  cases timed <;> cases tagged <;> simp [Message.stamp, ht, hg, eq_comm] <;> grind

namespace Server

def Shared (s : Server) (q : GoString) (m : MsgRef) : Prop :=
  (∃ q', q' ≠ q ∧ m ∈ s.ready q') ∨ ∃ t c d, s.getDelivery t c = some d ∧ d.msg = m

def Independent (q : GoString) (s u : Server) : Prop :=
  ∀ m, s.Shared q m → SameCopy (s.msgs.read m) (u.msgs.read m)

theorem independent_iff_of_one {q : GoString} {s u : Server} {m : MsgRef}
    (h : ∀ m', m' ≠ m → u.msgs.read m' = s.msgs.read m') :
    Independent q s u ↔ (s.Shared q m → SameCopy (s.msgs.read m) (u.msgs.read m)) := by
  refine ⟨fun hall => hall m, fun hone m' hm' => ?_⟩
  by_cases heq : m' = m
  · subst heq
    exact hone hm'
  · rw [h m' heq]
    exact SameCopy.refl _

theorem independent_of_msgs {q : GoString} {s u : Server} (h : u.msgs = s.msgs) :
    Independent q s u := by
  intro m _
  rw [h]
  exact SameCopy.refl _

/-- A dead letter of a queue with these arguments writes nothing new. -/
def LetterSame (env : Env) (s : Server) (m : MsgRef) (args : Table) : Prop :=
  ∀ dlx, getDeadLetterConfig args = some dlx →
    let reached := s.config.deliveries ((s.markLetter m).headersOf m) dlx.exchange
      (dlx.keyFor (s.msgs.read m).routingKey)
    (s.markLetter m).headersOf m = s.headersOf m ∧
      (reached.any s.isReached = true → (s.msgs.read m).enqueuedAt = some env.now) ∧
      (reached.any (s.isTaken env m) = true → (s.msgs.read m).deliveryTag = 0)

theorem deadLetter_writes (env : Env) (m : MsgRef) (args : Table) (s : Server) :
    (∀ m', m' ≠ m → (deadLetter env m args s).msgs.read m' = s.msgs.read m') ∧
      (SameCopy (s.msgs.read m) ((deadLetter env m args s).msgs.read m) ↔
        s.LetterSame env m args) := by
  cases h : getDeadLetterConfig args with
  | none =>
    rw [deadLetter_of_none env m h]
    refine ⟨fun _ _ => rfl, iff_of_true (SameCopy.refl _) fun dlx hdlx => ?_⟩
    rw [h] at hdlx
    cases hdlx
  | some dlx =>
    rw [deadLetter_of_some env m h]
    have hletters := stamped_letters env m 0 (s.markLetter m) (fun _ _ v => v)
      (s.config.deliveries ((s.markLetter m).headersOf m) dlx.exchange
        (dlx.keyFor (s.msgs.read m).routingKey))
    have hothers : ∀ m', m' ≠ m → (s.markLetter m).msgs.read m' = s.msgs.read m' := by
      intro m' hm
      rw [markLetter, modifyMsg, Heap.read_modify_ne hm]
    have hkept : Keeps (fun x => (x.properties.expiration, x.enqueuedAt, x.deliveryTag)) s
        (s.markLetter m) := keeps_modifyMsg s m fun _ => rfl
    obtain ⟨hexpiration, htime, htag⟩ : _ ∧ _ ∧ _ := by simpa only [Prod.mk.injEq] using hkept m
    have htaken : (s.markLetter m).isTaken env m = s.isTaken env m := by
      funext qn
      have hexpired : ∀ args,
          isExpired env.now (((s.markLetter m).msgs.read m).setEnqueuedAt (some env.now)) args =
            isExpired env.now ((s.msgs.read m).setEnqueuedAt (some env.now)) args :=
        fun args => isExpired_congr hexpiration rfl
      unfold isTaken
      simp only [hexpired]
      rfl
    refine ⟨fun m' hm => (hletters.others m' hm).trans (hothers m' hm), ?_⟩
    rw [hletters.record, htaken, sameCopy_stamp_iff hexpiration htime htag]
    refine ⟨fun hsame dlx' hdlx => ?_, fun hsame => hsame dlx h⟩
    obtain rfl : dlx = dlx' := Option.some.inj (h.symm.trans hdlx)
    exact hsame

end Server

/-! ## Actions on one queue -/

/-- What is done to a copy that one queue holds or held: it is dead-lettered after a refusal or its
expiry, it is evicted from the full queue, it is fetched, or it is pushed. -/
inductive CopyAction where
  | deadLetter (env : Env) (msg : MsgRef)
  | overflow (env : Env)
  | get (env : Env) (ch : ChanRef) (noAck : Bool)
  | push (env : Env) (msg : MsgRef) (channelID : UInt16)

def copyStep (q : GoString) (s : Server) : CopyAction → Server
  | .deadLetter env msg => Server.deadLetter env msg (s.queueArgs q) s
  | .overflow env => s.evictOldest (Server.deadLetter env) q (s.queueArgs q)
  | .get env ch noAck => (s.performGet env ch q noAck).2
  | .push env msg channelID => s.deliver env msg q channelID

def CopyAction.copy (q : GoString) (s : Server) : CopyAction → Option MsgRef
  | .deadLetter _ msg => some msg
  | .overflow _ => s.overflowing q (s.queueArgs q)
  | .get env _ _ =>
    ((s.ready q).dropWhile fun m => isExpired env.now (s.msgs.read m) (s.queueArgs q)).head?
  | .push _ msg _ => some msg

def CopyAction.WritesSame (q : GoString) (s : Server) (m : MsgRef) : CopyAction → Prop
  | .deadLetter env _ => s.LetterSame env m (s.queueArgs q)
  | .overflow env => s.LetterSame env m (s.queueArgs q)
  | .get _ _ noAck => noAck = true ∨ (s.msgs.read m).deliveryTag = 1
  | .push _ _ _ => s.hasTaker q = true → (s.msgs.read m).deliveryTag = 0

namespace Server

variable (q : GoString) (s : Server)

theorem independent_overflow_iff (env : Env) (args : Table) :
    Independent q s (s.evictOldest (deadLetter env) q args) ↔
      ∀ m ∈ s.overflowing q args, s.Shared q m → s.LetterSame env m args := by
  obtain ⟨st, -, heq⟩ := evictOldest_eq (deadLetter env) s q args
  rw [heq]
  cases s.overflowing q args with
  | none => exact iff_of_true (independent_of_msgs rfl) (by simp)
  | some o =>
    -- the records are those from before the room was made
    obtain ⟨hothers, hsame⟩ := deadLetter_writes env o args { s with store := st }
    refine (independent_iff_of_one (s := s) (m := o) hothers).trans ?_
    refine (imp_congr_right fun _ => hsame).trans ?_
    simp only [Option.mem_some_iff, forall_eq']
    rfl

theorem independent_get_iff (env : Env) (ch : ChanRef) (noAck : Bool) :
    Independent q s (s.performGet env ch q noAck).2 ↔
      ∀ m ∈ (CopyAction.get env ch noAck).copy q s, s.Shared q m →
        noAck = true ∨ (s.msgs.read m).deliveryTag = 1 := by
  have hhead : (s.fetch env q).1 = (CopyAction.get env ch noAck).copy q s :=
    (s.fetch_ready env q).1
  obtain ⟨st, hst⟩ := getLoop_store env q (s.queueArgs q) ((s.ready q).length + 1) s
  have hfetch : (s.fetch env q).2.msgs = s.msgs := by
    unfold fetch
    rw [hst]
  rw [← hhead]
  rcases h : s.fetch env q with ⟨_ | m, u⟩ <;> rw [h] at hfetch
  · obtain ⟨payload, hp⟩ := performGet_empty ch h noAck
    rw [hp]
    exact iff_of_true (independent_of_msgs ((msgs_reply ..).trans hfetch)) (by simp)
  · cases noAck with
    | true =>
      obtain ⟨payload, hp⟩ := performGet_noAck ch h
      rw [hp]
      exact iff_of_true (independent_of_msgs ((msgs_reply ..).trans hfetch)) (by simp)
    | false =>
      obtain ⟨payload, hp⟩ := performGet_ack ch h
      have hmsgs : (s.performGet env ch q false).2.msgs =
          s.msgs.modify m fun x => x.setDeliveryTag 1 := by
        rw [hp, msgs_reply, ← hfetch]
        rfl
      rw [independent_iff_of_one fun m' hm => by rw [hmsgs, Heap.read_modify_ne hm], hmsgs,
        Heap.read_modify_self, sameCopy_iff (by rfl)]
      simp [Message.setDeliveryTag, eq_comm]

theorem independent_push_iff (env : Env) (m : MsgRef) (c : UInt16) :
    Independent q s (s.deliver env m q c) ↔
      (s.Shared q m → s.hasTaker q = true → (s.msgs.read m).deliveryTag = 0) := by
  have hpush := stamped_deliver env m env.now c q s
  rw [independent_iff_of_one hpush.others, hpush.record, sameCopy_stamp_iff rfl rfl rfl]
  simp

end Server

/-- The copies of a message are independent of an action on one of them exactly if the message has
no other copy, or the action writes nothing to the record that is not there already. -/
theorem independent_iff (q : GoString) (s : Server) (a : CopyAction) :
    Server.Independent q s (copyStep q s a) ↔
      ∀ m ∈ a.copy q s, s.Shared q m → a.WritesSame q s m := by
  cases a with
  | deadLetter env m =>
    obtain ⟨hothers, hsame⟩ := Server.deadLetter_writes env m (s.queueArgs q) s
    refine (Server.independent_iff_of_one hothers).trans ?_
    simp [CopyAction.copy, CopyAction.WritesSame, hsame]
  | overflow env => exact s.independent_overflow_iff q env (s.queueArgs q)
  | get env ch noAck => exact s.independent_get_iff q env ch noAck
  | push env m c =>
    refine (s.independent_push_iff q env m c).trans ?_
    simp [CopyAction.copy, CopyAction.WritesSame]

def looseQueue (name : GoString) (args : Table) : Queue := ⟨name, false, false, false, args, none⟩

/-- A message that was published at time 0 to `a`, with a dead-letter exchange, and to `b`, where it
lives for 10 ms. -/
def sharedServer : Server :=
  ({ newServer with
    queues := ((GoMap.set ∅ (str "a") (looseQueue (str "a")
        [(str "x-dead-letter-exchange", .string (str "amq.direct"))])).set (str "b")
      (looseQueue (str "b") [(str "x-message-ttl", .int32 10)])).set (str "d")
      (looseQueue (str "d") [])
    bindings := (((⟨∅, ∅⟩ : BindingManager).bind (str "amq.fanout") (str "a") [] []).bind
      (str "amq.fanout") (str "b") [] []).bind (str "amq.direct") (str "d") [] []
    msgs := Heap.empty.alloc (newMessage [] {}) }.publish default (str "amq.fanout") [] 0 1).2

def letteredServer : Server :=
  copyStep (str "a") sharedServer (.deadLetter { (default : Env) with now := 5000000 } 0)

/-- The copy in `b` is then still there when its 10 ms are over. -/
theorem letteredServer_rewritten :
    0 ∈ sharedServer.ready (str "a") ∧ 0 ∈ sharedServer.ready (str "b") ∧
      (sharedServer.msgs.read 0).enqueuedAt = some 0 ∧
      (letteredServer.msgs.read 0).enqueuedAt = some 5000000 ∧
      isExpired 10000000 (sharedServer.msgs.read 0) (sharedServer.queueArgs (str "b")) = true ∧
      isExpired 10000000 (letteredServer.msgs.read 0) (letteredServer.queueArgs (str "b")) = false ∧
      ¬ Server.Independent (str "a") sharedServer letteredServer := by
  have hb : 0 ∈ sharedServer.ready (str "b") := by decide +kernel
  have hbefore : (sharedServer.msgs.read 0).enqueuedAt = some 0 := by decide +kernel
  have hafter : (letteredServer.msgs.read 0).enqueuedAt = some 5000000 := by decide +kernel
  refine ⟨by decide +kernel, hb, hbefore, hafter, by decide +kernel, by decide +kernel, fun h => ?_⟩
  have htime := (h 0 (Or.inl ⟨str "b", by decide, hb⟩)).time
  rw [hafter, hbefore] at htime
  exact absurd htime (by decide)

end Gomq.Broker
