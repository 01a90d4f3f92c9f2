import Gomq.Lib.Dfs
import Gomq.Lib.StableOrder
import Gomq.Broker.Handlers

/-!
# What publishing and delivering can change

Three relations say once what the delivery side of the broker may do to a state. `Framed s s'`:
the configuration is the same. `Delivers c s s'`: besides, the store is the same and at most the
tracker slot of tag 0 on channel `c` was written. `Grows c s s'`: as `Delivers`, but messages may
have become ready. Dead-lettering is `Grows 0`; a publish is `Framed`. The walk over exchanges keeps
whatever the body of its queue loop keeps (`publishInternal_inv`). The handlers of publishes,
commits and closes have rules of the same kind (`performPublish_inv`, `txCommit_inv`,
`closeConnection_inv`), and so have those that subscribe and declare.
-/

namespace Gomq.Broker

open Wire List

theorem insertByPriority_eq (priority : MsgRef → UInt8) (msg : MsgRef) (queue : List MsgRef) :
    insertByPriority priority msg queue = insertByKey (fun m => (priority m).toNat) msg queue := by
  induction queue with
  | nil => rfl
  | cons m queue ih =>
    unfold insertByKey at ih ⊢
    rw [insertByPriority, orderedInsert_cons, ih]
    rfl

theorem perm_insertByPriority (priority : MsgRef → UInt8) (msg : MsgRef) (queue : List MsgRef) :
    (insertByPriority priority msg queue).Perm (msg :: queue) := by
  rw [insertByPriority_eq]
  exact perm_orderedInsert _ msg queue

namespace Server

/-! ## Store and tracker -/

theorem ready_set (s : Server) (q : GoString) (l : List MsgRef) :
    ({ s with store := s.store.set q l } : Server).ready q = l := by
  unfold ready
  rw [GoMap.getD_set_self]

theorem ready_set_ne (s : Server) {q q' : GoString} (l : List MsgRef) (h : q' ≠ q) :
    ({ s with store := s.store.set q l } : Server).ready q' = s.ready q' := by
  simp [ready, h]

@[simp] theorem ready_enqueue_self (s : Server) (q : GoString) (m : MsgRef) :
    (s.enqueue q m).ready q = s.ready q ++ [m] := s.ready_set q _

theorem ready_enqueue_ne {s : Server} {q q' : GoString} {m : MsgRef} (h : q' ≠ q) :
    (s.enqueue q m).ready q' = s.ready q' := s.ready_set_ne _ h

theorem ready_enqueue (s : Server) (q q' : GoString) (m : MsgRef) :
    (s.enqueue q m).ready q' = s.ready q' ++ if q' = q then [m] else [] := by
  by_cases h : q' = q
  · subst h; rw [if_pos rfl, ready_enqueue_self]
  · rw [if_neg h, ready_enqueue_ne h, append_nil]

theorem ready_foldl_enqueue {α : Type} (queueName : α → GoString) (msg : α → MsgRef) (l : List α)
    (s : Server) (q : GoString) :
    (l.foldl (fun s a => s.enqueue (queueName a) (msg a)) s).ready q =
      s.ready q ++ (l.filter fun a => queueName a = q).map msg := by
  induction l generalizing s with
  | nil => simp
  | cons a l ih =>
    rw [foldl_cons, ih, ready_enqueue, append_assoc]
    by_cases h : queueName a = q
    · simp [h]
    · simp [h, Ne.symm h]

theorem mem_insertByPriority {p : MsgRef → UInt8} {msg m : MsgRef} {l : List MsgRef} :
    m ∈ insertByPriority p msg l ↔ m = msg ∨ m ∈ l := by
  rw [(perm_insertByPriority p msg l).mem_iff, mem_cons]

theorem mem_ready_storeIn {s : Server} {qn q : GoString} {args : Table} {msg m : MsgRef} :
    m ∈ (s.storeIn qn args msg).ready q ↔ (q = qn ∧ m = msg) ∨ m ∈ s.ready q := by
  unfold storeIn
  by_cases hp : 0 < maxPriority args
  · rw [if_pos hp]
    by_cases h : q = qn
    · subst h
      simp [enqueuePriority, ready, mem_insertByPriority]
    · simp [enqueuePriority, ready, h]
  · rw [if_neg hp, ready_enqueue]
    by_cases h : q = qn
    · simp [h, or_comm]
    · simp [h]

theorem ready_dequeue_ne {s : Server} {q q' : GoString} (h : q' ≠ q) :
    (s.dequeue q).2.ready q' = s.ready q' := by
  unfold dequeue
  cases s.ready q with
  | nil => rfl
  | cons m l => simp [ready, h]

theorem dequeue_store (s : Server) (q : GoString) :
    ∃ st, (s.dequeue q).2 = { s with store := st } := by
  unfold dequeue
  split
  · exact ⟨s.store, rfl⟩
  · exact ⟨_, rfl⟩

theorem getLoop_store (env : Env) (q : GoString) (args : Table) (n : ℕ) (s : Server) :
    ∃ st, (getLoop env q args n s).2 = { s with store := st } := by
  induction n generalizing s with
  | zero => exact ⟨s.store, rfl⟩
  | succ n ih =>
    have hdeq := s.dequeue_store q
    unfold getLoop
    rcases h : s.dequeue q with ⟨_ | m, u⟩
    · rw [h] at hdeq; exact hdeq
    · rw [h] at hdeq
      dsimp only
      split
      · obtain ⟨st, hst⟩ := hdeq
        obtain ⟨st', hst'⟩ := ih u
        exact ⟨st', by rw [hst', show u = _ from hst]⟩
      · exact hdeq

theorem getDelivery_eq (s : Server) (t : UInt64) (c : UInt16) :
    s.getDelivery t c = (s.tracker.getD c ∅).get t := by
  unfold getDelivery GoMap.getD
  cases s.tracker.get c <;> rfl

theorem getDelivery_record (s : Server) (t t' : UInt64) (m : MsgRef) (q : GoString)
    (c c' : UInt16) :
    (s.record t m q c).getDelivery t' c' =
      if t' = t ∧ c' = c then some ⟨t, m, q, c⟩ else s.getDelivery t' c' := by
  rw [getDelivery_eq, getDelivery_eq]
  by_cases hc : c' = c
  · subst hc
    simp [record, GoMap.get_set]
  · simp [record, hc]

/-! ## Replies -/

theorem reply_eq (s : Server) (ch : ChanRef) (payload : Bytes) :
    ∃ k, s.reply ch payload = { s with conns := k } := by
  unfold reply sendMethod sendFrame
  split
  · exact ⟨s.conns, rfl⟩
  · split <;> exact ⟨s.conns, rfl⟩
  · split
    · exact ⟨s.conns, rfl⟩
    · exact ⟨_, rfl⟩

@[simp] theorem chans_reply (s : Server) (ch : ChanRef) (payload : Bytes) :
    (s.reply ch payload).chans = s.chans := by
  obtain ⟨k, hk⟩ := s.reply_eq ch payload
  rw [hk]

@[simp] theorem chans_sendReturn (s : Server) (ch : ChanRef) (ex key : GoString)
    (mandatory : Bool) (routed : ℕ) :
    (s.sendReturn ch ex key mandatory routed).chans = s.chans := by
  unfold sendReturn
  split
  · exact s.chans_reply ch _
  · rfl

/-! ## The frame -/

/-- The parts of the broker that no publish or delivery touches are the same. -/
structure Framed (s s' : Server) : Prop where
  next : s'.msgs.next = s.msgs.next
  chans : s'.chans = s.chans
  conns : s'.conns = s.conns
  exchanges : s'.exchanges = s.exchanges
  queues : s'.queues = s.queues
  bindings : s'.bindings = s.bindings
  e2eBindings : s'.e2eBindings = s.e2eBindings
  prefetch : s'.prefetch = s.prefetch
  paused : s'.paused = s.paused
  aclMgr : s'.aclMgr = s.aclMgr

namespace Framed

variable {s s' s'' : Server}

theorem refl (s : Server) : Framed s s := ⟨rfl, rfl, rfl, rfl, rfl, rfl, rfl, rfl, rfl, rfl⟩

theorem trans (h : Framed s s') (h' : Framed s' s'') : Framed s s'' where
  next := h'.next.trans h.next
  chans := h'.chans.trans h.chans
  conns := h'.conns.trans h.conns
  exchanges := h'.exchanges.trans h.exchanges
  queues := h'.queues.trans h.queues
  bindings := h'.bindings.trans h.bindings
  e2eBindings := h'.e2eBindings.trans h.e2eBindings
  prefetch := h'.prefetch.trans h.prefetch
  paused := h'.paused.trans h.paused
  aclMgr := h'.aclMgr.trans h.aclMgr

end Framed

def Logs (c : UInt16) (s s' : Server) : Prop :=
  ∃ l, s'.delivered = s.delivered ++ l ∧ ∀ d ∈ l, d.channelID = c

theorem Logs.of_eq {c : UInt16} {s s' : Server} (h : s'.delivered = s.delivered) : Logs c s s' :=
  ⟨[], by rw [h, append_nil], fun _ hd => absurd hd not_mem_nil⟩

theorem Logs.trans {c : UInt16} {s s' s'' : Server} (h : Logs c s s') (h' : Logs c s' s'') :
    Logs c s s'' := by
  obtain ⟨l, hl, hc⟩ := h
  obtain ⟨l', hl', hc'⟩ := h'
  refine ⟨l ++ l', by rw [hl', hl, append_assoc], fun d hd => ?_⟩
  rcases mem_append.mp hd with hd | hd
  · exact hc d hd
  · exact hc' d hd

/-- A hand-over: the store is the same, and only slot 0 of channel `c` is written in the
tracker. -/
structure Delivers (c : UInt16) (s s' : Server) : Prop extends Framed s s' where
  store : s'.store = s.store
  tracker : ∀ t c', ¬(t = 0 ∧ c' = c) → s'.getDelivery t c' = s.getDelivery t c'
  logs : Logs c s s'

namespace Delivers

variable {c : UInt16} {s s' s'' : Server}

theorem refl (c : UInt16) (s : Server) : Delivers c s s :=
  ⟨Framed.refl s, rfl, fun _ _ _ => rfl, .of_eq rfl⟩

theorem trans (h : Delivers c s s') (h' : Delivers c s' s'') : Delivers c s s'' where
  toFramed := h.toFramed.trans h'.toFramed
  store := h'.store.trans h.store
  tracker := fun t c' hne => (h'.tracker t c' hne).trans (h.tracker t c' hne)
  logs := h.logs.trans h'.logs

theorem foldl {α : Type} {f : Server → α → Server} (hf : ∀ s a, Delivers c s (f s a))
    (l : List α) (s : Server) : Delivers c s (l.foldl f s) := by
  induction l generalizing s with
  | nil => exact refl c s
  | cons a l ih => exact (hf s a).trans (ih (f s a))

theorem ready (h : Delivers c s s') (q : GoString) : s'.ready q = s.ready q := by
  unfold Server.ready; rw [h.store]

end Delivers

/-- Messages only become ready, and only slot 0 of channel `c` is written in the tracker. -/
structure Grows (c : UInt16) (s s' : Server) : Prop extends Framed s s' where
  ready : ∀ q m, m ∈ s.ready q → m ∈ s'.ready q
  tracker : ∀ t c', ¬(t = 0 ∧ c' = c) → s'.getDelivery t c' = s.getDelivery t c'
  logs : Logs c s s'

namespace Grows

variable {c : UInt16} {s s' s'' : Server}

theorem refl (c : UInt16) (s : Server) : Grows c s s where
  toFramed := Framed.refl s
  ready := fun _ _ h => h
  tracker := fun _ _ _ => rfl
  logs := .of_eq rfl

theorem trans (h : Grows c s s') (h' : Grows c s' s'') : Grows c s s'' where
  toFramed := h.toFramed.trans h'.toFramed
  ready := fun q m hm => h'.ready q m (h.ready q m hm)
  tracker := fun t c' hne => (h'.tracker t c' hne).trans (h.tracker t c' hne)
  logs := h.logs.trans h'.logs

end Grows

theorem Delivers.grows {c : UInt16} {s s' : Server} (h : Delivers c s s') : Grows c s s' where
  toFramed := h.toFramed
  ready := fun q m hm => by rw [h.ready]; exact hm
  tracker := h.tracker
  logs := h.logs

section Primitives

variable (c : UInt16) (s : Server)

theorem delivers_modifyMsg (m : MsgRef) (f : Message → Message) :
    Delivers c s (s.modifyMsg m f) :=
  ⟨⟨rfl, rfl, rfl, rfl, rfl, rfl, rfl, rfl, rfl, rfl⟩, rfl, fun _ _ _ => rfl, .of_eq rfl⟩

theorem grows_storeIn (qn : GoString) (args : Table) (m : MsgRef) :
    Grows c s (s.storeIn qn args m) where
  toFramed := by
    unfold storeIn
    split <;> exact ⟨rfl, rfl, rfl, rfl, rfl, rfl, rfl, rfl, rfl, rfl⟩
  ready := fun _ _ h => mem_ready_storeIn.mpr (Or.inr h)
  tracker := fun t c' _ => by
    unfold storeIn
    split <;> rfl
  logs := .of_eq (by
    unfold storeIn
    split <;> rfl)

theorem delivers_record (m : MsgRef) (q : GoString) : Delivers c s (s.record 0 m q c) where
  toFramed := ⟨rfl, rfl, rfl, rfl, rfl, rfl, rfl, rfl, rfl, rfl⟩
  store := rfl
  tracker := fun t c' hne => by rw [getDelivery_record, if_neg hne]
  logs := .of_eq rfl

theorem delivers_addToBatch (c' : UInt16) (ch : ChanRef) (item : DeliveryItem) :
    Delivers c s (s.addToBatch c' ch item) :=
  ⟨⟨rfl, rfl, rfl, rfl, rfl, rfl, rfl, rfl, rfl, rfl⟩, rfl, fun _ _ _ => rfl, .of_eq rfl⟩

theorem delivers_log (m : MsgRef) (k : Consumer) (q : GoString) :
    Delivers c s { s with delivered := s.delivered ++ [⟨k, m, q, 0, c⟩] } :=
  ⟨⟨rfl, rfl, rfl, rfl, rfl, rfl, rfl, rfl, rfl, rfl⟩, rfl, fun _ _ _ => rfl,
    ⟨_, rfl, fun d hd => by rw [mem_singleton.mp hd]⟩⟩

theorem delivers_deliverTo (m : MsgRef) (k : Consumer) (q : GoString) :
    Delivers c s (s.deliverTo m k q c) := by
  have hmsg := delivers_modifyMsg c s m fun m => m.setDeliveryTag 0
  unfold deliverTo
  cases k.channel with
  | none => exact (hmsg.trans (delivers_log c _ m k q)).trans (delivers_record c _ m q)
  | some ch =>
    have hbatch := hmsg.trans (delivers_addToBatch c _ c ch ⟨m, q, 0⟩)
    exact (hbatch.trans (delivers_log c _ m k q)).trans (delivers_record c _ m q)

theorem consumers_deliverTo (m : MsgRef) (k : Consumer) (q : GoString) :
    (s.deliverTo m k q c).consumers = s.consumers := by
  unfold deliverTo
  cases k.channel <;> rfl

theorem deliverTo_spec (m : MsgRef) (k : Consumer) (q : GoString) :
    (s.deliverTo m k q c).getDelivery 0 c = some ⟨0, m, q, c⟩ ∧
      (s.deliverTo m k q c).delivered = s.delivered ++ [⟨k, m, q, 0, c⟩] := by
  constructor
  · unfold deliverTo
    rw [getDelivery_record, if_pos ⟨rfl, rfl⟩]
  · unfold deliverTo
    cases k.channel <;> rfl

theorem delivers_selectMember (list : List Consumer) (gid key : GoString) :
    Delivers c s (s.selectMember list gid key).2 := by
  unfold selectMember
  cases s.consumers.groupMgr with
  | none => exact Delivers.refl c s
  | some gm =>
    exact ⟨⟨rfl, rfl, rfl, rfl, rfl, rfl, rfl, rfl, rfl, rfl⟩, rfl, fun _ _ _ => rfl, .of_eq rfl⟩

end Primitives

/-! ## Delivering -/

def deliverGroup (list : List Consumer) (msg : MsgRef) (queueName : GoString)
    (channelID : UInt16) (s : Server) (gid : GoString) : Server :=
  match s.selectMember list gid (s.msgs.read msg).routingKey with
  | (some c, s) => s.deliverTo msg c queueName channelID
  | (none, s) => s

theorem delivers_deliverGroup (list : List Consumer) (msg : MsgRef) (q : GoString) (c : UInt16)
    (s : Server) (gid : GoString) : Delivers c s (deliverGroup list msg q c s gid) := by
  have hsel := delivers_selectMember c s list gid (s.msgs.read msg).routingKey
  unfold deliverGroup
  rcases h : s.selectMember list gid (s.msgs.read msg).routingKey with ⟨_ | k, u⟩
  · rw [h] at hsel; exact hsel
  · rw [h] at hsel; exact hsel.trans (delivers_deliverTo c u msg k q)

theorem deliver_eq (env : Env) (s : Server) (msg : MsgRef) (q : GoString) (c : UInt16) :
    s.deliver env msg q c =
      ((s.getConsumers q).filter fun k => k.groupID == []).foldl
        (fun s k => s.deliverTo msg k q c)
        ((env.nameOrder (((s.getConsumers q).map (·.groupID)).filter (· ≠ [])).dedup).foldl
          (deliverGroup (s.getConsumers q) msg q c) s) := rfl

theorem delivers_deliver (env : Env) (s : Server) (msg : MsgRef) (q : GoString) (c : UInt16) :
    Delivers c s (s.deliver env msg q c) := by
  rw [deliver_eq]
  exact (Delivers.foldl (delivers_deliverGroup _ msg q c) _ s).trans
    (Delivers.foldl (fun u k => delivers_deliverTo c u msg k q) _ _)

/-! ## One routed queue -/

section PublishTo

variable (env : Env) (dl : MsgRef → Table → Server → Server) (msg : MsgRef) (c : UInt16)

def storeAndDeliver (env : Env) (msg : MsgRef) (c : UInt16) (qn : GoString) (args : Table)
    (s : Server) : Server :=
  let s := (s.modifyMsg msg fun m => m.setEnqueuedAt (some env.now)).storeIn qn args msg
  if isExpired env.now (s.msgs.read msg) args then s else s.deliver env msg qn c

theorem publishTo_none {s : Server} {qn : GoString} {chk : Bool} (h : s.queues.get qn = none) :
    publishTo env dl chk msg c s qn = s := by
  unfold publishTo; rw [h]

theorem publishTo_some {s : Server} {qn : GoString} {q : Queue} {chk : Bool}
    (h : s.queues.get qn = some q) :
    publishTo env dl chk msg c s qn =
      storeAndDeliver env msg c qn q.args
        (if chk then s.evictOldest dl qn q.args else s) := by
  unfold publishTo; rw [h]; rfl

theorem storeAndDeliver_delivers (qn : GoString) (args : Table) (s : Server) :
    Delivers c ((s.modifyMsg msg fun m => m.setEnqueuedAt (some env.now)).storeIn qn args msg)
      (storeAndDeliver env msg c qn args s) := by
  unfold storeAndDeliver
  dsimp only
  split
  · exact Delivers.refl c _
  · exact delivers_deliver env _ msg qn c

theorem grows_storeAndDeliver (qn : GoString) (args : Table) (s : Server) :
    Grows c s (storeAndDeliver env msg c qn args s) :=
  ((delivers_modifyMsg c s msg _).grows.trans (grows_storeIn c _ qn args msg)).trans
    (storeAndDeliver_delivers env msg c qn args s).grows

theorem mem_ready_storeAndDeliver {qn q : GoString} {args : Table} {s : Server} {m : MsgRef} :
    m ∈ (storeAndDeliver env msg c qn args s).ready q ↔ (q = qn ∧ m = msg) ∨ m ∈ s.ready q := by
  rw [(storeAndDeliver_delivers env msg c qn args s).ready, mem_ready_storeIn]
  rfl

section Rules

variable {env dl msg c} {P : Server → Prop} {s : Server} {qn : GoString}

theorem evictOldest_inv {args : Table} (hs : P s) (hdeq : P (s.dequeue qn).2)
    (hdl : ∀ o u, P u → P (dl o args u)) : P (s.evictOldest dl qn args) := by
  unfold evictOldest
  split
  · rcases h : s.dequeue qn with ⟨_ | o, u⟩ <;> rw [h] at hdeq
    · exact hdeq
    · exact hdl o u hdeq
  · exact hs

theorem publishTo_inv {chk : Bool} (hs : P s)
    (hevict : ∀ q, s.queues.get qn = some q → chk = true → P (s.evictOldest dl qn q.args))
    (hstore : ∀ q, s.queues.get qn = some q → ∀ u, P u →
      P (storeAndDeliver env msg c qn q.args u)) :
    P (publishTo env dl chk msg c s qn) := by
  cases h : s.queues.get qn with
  | none => rw [publishTo_none env dl msg c h]; exact hs
  | some q =>
    rw [publishTo_some env dl msg c h]
    apply hstore q h
    cases chk with
    | false => exact hs
    | true => exact hevict q h rfl

end Rules

theorem grows_publishTo_false (s : Server) (qn : GoString) :
    Grows c s (publishTo env dl false msg c s qn) :=
  publishTo_inv (Grows.refl c s) (fun _ _ h => absurd h (by decide))
    fun q _ u hu => hu.trans (grows_storeAndDeliver env msg c qn q.args u)

end PublishTo

/-! ## The walk over exchanges -/

section Walk

variable {env : Env} {dl : MsgRef → Table → Server → Server} {chk : Bool} {msg : MsgRef}
  {c : UInt16}

/-- One exchange-to-exchange binding of the walk: the state, the visited exchanges and the
number of queues so far. -/
def forward (env : Env) (dl : MsgRef → Table → Server → Server) (chk : Bool) (msg : MsgRef)
    (c : UInt16) (fuel : ℕ) (acc : Server × List GoString × ℕ) (eb : E2EBinding) :
    Server × List GoString × ℕ :=
  match publishInternal env dl chk msg c fuel eb.destination eb.routingKey acc.2.1 acc.1 with
  | (s, visited, .error _) => (s, visited, acc.2.2)
  | (s, visited, .ok n) => (s, visited, acc.2.2 + n)

theorem publishInternal_visited {fuel : ℕ} {ex key : GoString} {vis : List GoString} {s : Server}
    (h : ex ∈ vis) : publishInternal env dl chk msg c (fuel + 1) ex key vis s =
      (s, vis, .error (.exchangeLoop ex)) := by
  unfold publishInternal; rw [if_pos h]

theorem publishInternal_missing {fuel : ℕ} {ex key : GoString} {vis : List GoString} {s : Server}
    (h : ex ∉ vis) (he : s.exchanges.get ex = none) :
    publishInternal env dl chk msg c (fuel + 1) ex key vis s =
      (s, ex :: vis, .error (.exchangeNotFound ex)) := by
  unfold publishInternal; rw [if_neg h]; simp only [he]

def afterQueues (env : Env) (dl : MsgRef → Table → Server → Server) (chk : Bool) (msg : MsgRef)
    (c : UInt16) (x : Exchange) (ex key : GoString) (s : Server) : List GoString × Server :=
  let queues := x.route key (s.msgs.read msg).properties.headers (s.bindings.getBindings ex)
  (queues, queues.foldl (publishTo env dl chk msg c) s)

theorem publishInternal_found {fuel : ℕ} {ex key : GoString} {vis : List GoString} {s : Server}
    {x : Exchange} (h : ex ∉ vis) (he : s.exchanges.get ex = some x) :
    publishInternal env dl chk msg c (fuel + 1) ex key vis s =
      let a := afterQueues env dl chk msg c x ex key s
      let r := (E2EBindingManager.getBindings a.2.e2eBindings ex).foldl
        (forward env dl chk msg c fuel) (a.2, ex :: vis, a.1.length)
      (r.1, r.2.1, .ok r.2.2) := by
  conv_lhs => unfold publishInternal
  rw [if_neg h]
  simp only [he]
  rfl

theorem foldl_publishTo_inv {P : Server → Prop}
    (hP : ∀ s qn, P s → P (publishTo env dl chk msg c s qn)) (l : List GoString) (s : Server)
    (hs : P s) : P (l.foldl (publishTo env dl chk msg c) s) := by
  induction l generalizing s with
  | nil => exact hs
  | cons qn l ih => exact ih _ (hP s qn hs)

theorem foldl_forward_inv {P : Server → Prop} {fuel : ℕ}
    (hP : ∀ ex key vis s, P s → P (publishInternal env dl chk msg c fuel ex key vis s).1)
    (l : List E2EBinding) (acc : Server × List GoString × ℕ) (hacc : P acc.1) :
    P (l.foldl (forward env dl chk msg c fuel) acc).1 := by
  induction l generalizing acc with
  | nil => exact hacc
  | cons eb l ih =>
    apply ih
    have := hP eb.destination eb.routingKey acc.2.1 acc.1 hacc
    unfold forward
    split <;> rename_i heq <;> rw [heq] at this <;> exact this

/-- The walk keeps what the body of its queue loop keeps. -/
theorem publishInternal_inv {P : Server → Prop}
    (hP : ∀ s qn, P s → P (publishTo env dl chk msg c s qn)) :
    ∀ (fuel : ℕ) (ex key : GoString) (vis : List GoString) (s : Server), P s →
      P (publishInternal env dl chk msg c fuel ex key vis s).1 := by
  intro fuel
  induction fuel with
  | zero => exact fun _ _ _ _ hs => hs
  | succ fuel ih =>
    intro ex key vis s hs
    by_cases hv : ex ∈ vis
    · rw [publishInternal_visited hv]; exact hs
    cases he : s.exchanges.get ex with
    | none => rw [publishInternal_missing hv he]; exact hs
    | some x =>
      rw [publishInternal_found hv he]
      exact foldl_forward_inv ih _ (_, _, _) (foldl_publishTo_inv hP _ s hs)

theorem deadLetter_inv {P : Server → Prop} {args : Table} {s : Server} (hs : P s)
    (hmark : ∀ original, P (s.modifyMsg msg fun m =>
      { m with properties :=
        { m.properties with
          headers := m.properties.headers.set (str "x-original-routing-key") original } }))
    (hstore : ∀ qn q u, P u → P (storeAndDeliver env msg 0 qn q u)) :
    P (deadLetter env msg args s) := by
  unfold deadLetter
  split
  · exact hs
  · exact publishInternal_inv (fun u qn hu => publishTo_inv hu (fun _ _ h => absurd h (by decide))
      fun q _ => hstore qn q.args) _ _ _ _ _ (hmark _)

theorem publish_inv {P : Server → Prop} {ex key : GoString} {s : Server} (hs : P s)
    (hP : ∀ u qn, P u → P (publishTo env (deadLetter env) true msg c u qn))
    (hstats : ∀ u n, P u → P (u.recordStats ex n)) : P (s.publish env ex key msg c).2 := by
  have h := publishInternal_inv hP s.walkFuel ex key [] s hs
  unfold publish
  split <;> rename_i heq <;> rw [heq] at h
  · exact hstats _ _ h
  · exact h

theorem publishInternal_subset (env : Env) (dl : MsgRef → Table → Server → Server) (chk : Bool)
    (msg : MsgRef) (c : UInt16) :
    ∀ (fuel : ℕ) (ex key : GoString) (vis : List GoString) (s : Server),
      vis ⊆ (publishInternal env dl chk msg c fuel ex key vis s).2.1 := by
  intro fuel
  induction fuel with
  | zero => exact fun _ _ _ _ => List.Subset.refl _
  | succ fuel ih =>
    intro ex key vis s
    by_cases hv : ex ∈ vis
    · rw [publishInternal_visited hv]; exact List.Subset.refl _
    cases he : s.exchanges.get ex with
    | none => rw [publishInternal_missing hv he]; exact subset_cons_self _ _
    | some x =>
      rw [publishInternal_found hv he]
      have hfold : ∀ (l : List E2EBinding) (acc : Server × List GoString × ℕ),
          acc.2.1 ⊆ (l.foldl (forward env dl chk msg c fuel) acc).2.1 := by
        intro l
        induction l with
        | nil => exact fun _ => List.Subset.refl _
        | cons eb l ihl =>
          intro acc
          have hstep := ih eb.destination eb.routingKey acc.2.1 acc.1
          have hfwd : acc.2.1 ⊆ (forward env dl chk msg c fuel acc eb).2.1 := by
            unfold forward
            split <;> rename_i heq <;> rw [heq] at hstep <;> exact hstep
          exact List.Subset.trans hfwd (ihl _)
      exact List.Subset.trans (subset_cons_self ex vis)
        (hfold _ (_, ex :: vis, _))

/-! ## Fuel -/

def unvisited (s : Server) (vis : List GoString) : ℕ :=
  (s.exchanges.keys.toFinset \ vis.toFinset).card

theorem unvisited_cons_lt {s : Server} {ex : GoString} {vis : List GoString} {x : Exchange}
    (h : ex ∉ vis) (he : s.exchanges.get ex = some x) :
    s.unvisited (ex :: vis) < s.unvisited vis := by
  have hmem : ex ∈ s.exchanges.keys := GoMap.mem_keys_iff.mpr ⟨x, he⟩
  exact Dfs.card_sdiff_cons_lt (mem_toFinset.mpr hmem) h

theorem unvisited_le {s s' : Server} {vis vis' : List GoString}
    (hs : s'.exchanges = s.exchanges) (hv : vis ⊆ vis') : s'.unvisited vis' ≤ s.unvisited vis := by
  unfold unvisited
  rw [hs]
  exact Dfs.card_sdiff_le hv

theorem unvisited_lt_walkFuel (s : Server) : s.unvisited [] < s.walkFuel := by
  have : (s.exchanges.keys.toFinset \ ([] : List GoString).toFinset).card ≤
      s.exchanges.keys.length :=
    (Finset.card_le_card Finset.sdiff_subset).trans (toFinset_card_le _)
  exact Nat.lt_succ_of_le this

section Fuel

variable (hdl : ∀ m args s, Framed s (dl m args s))

include hdl

theorem framed_evictOldest (s : Server) (qn : GoString) (args : Table) :
    Framed s (s.evictOldest dl qn args) := by
  have hdeq : Framed s (s.dequeue qn).2 := by
    unfold dequeue
    split <;> exact ⟨rfl, rfl, rfl, rfl, rfl, rfl, rfl, rfl, rfl, rfl⟩
  exact evictOldest_inv (Framed.refl s) hdeq fun m u hu => hu.trans (hdl m args u)

theorem framed_publishTo (env : Env) (chk : Bool) (msg : MsgRef) (c : UInt16) (s : Server)
    (qn : GoString) : Framed s (publishTo env dl chk msg c s qn) :=
  publishTo_inv (Framed.refl s) (fun q _ _ => framed_evictOldest hdl s qn q.args)
    fun q _ u hu => hu.trans (grows_storeAndDeliver env msg c qn q.args u).toFramed

theorem framed_publishInternal (env : Env) (chk : Bool) (msg : MsgRef) (c : UInt16) (fuel : ℕ)
    (ex key : GoString) (vis : List GoString) (s : Server) :
    Framed s (publishInternal env dl chk msg c fuel ex key vis s).1 :=
  publishInternal_inv (P := Framed s)
    (fun u qn hu => hu.trans (framed_publishTo hdl env chk msg c u qn)) fuel ex key vis s
    (Framed.refl s)

/-- An exchange that is entered is no longer left to visit, whatever its queue loop does. -/
theorem unvisited_afterQueues_lt {ex : GoString} {vis : List GoString} {s : Server} {x : Exchange}
    (hv : ex ∉ vis) (he : s.exchanges.get ex = some x) (key : GoString) :
    (afterQueues env dl chk msg c x ex key s).2.unvisited (ex :: vis) < s.unvisited vis := by
  have hqueues : (afterQueues env dl chk msg c x ex key s).2.exchanges = s.exchanges :=
    (foldl_publishTo_inv
      (fun u qn hu => Framed.trans hu (framed_publishTo hdl env chk msg c u qn)) _ s
      (Framed.refl s)).exchanges
  exact lt_of_le_of_lt (unvisited_le hqueues (List.Subset.refl _)) (unvisited_cons_lt hv he)

end Fuel

end Walk

/-! ## Dead letters and publishes -/

theorem grows_deadLetter (env : Env) (msg : MsgRef) (args : Table) (s : Server) :
    Grows 0 s (deadLetter env msg args s) :=
  deadLetter_inv (Grows.refl 0 s) (fun _ => (delivers_modifyMsg 0 s msg _).grows)
    fun qn args u hu => hu.trans (grows_storeAndDeliver env msg 0 qn args u)

theorem framed_deadLetter (env : Env) (msg : MsgRef) (args : Table) (s : Server) :
    Framed s (deadLetter env msg args s) := (grows_deadLetter env msg args s).toFramed

theorem framed_publish (env : Env) (s : Server) (ex key : GoString) (msg : MsgRef) (c : UInt16) :
    Framed s (s.publish env ex key msg c).2 :=
  publish_inv (Framed.refl s)
    (fun u qn hu => hu.trans (framed_publishTo (framed_deadLetter env) env true msg c u qn))
    fun _ _ hu => hu.trans ⟨rfl, rfl, rfl, rfl, rfl, rfl, rfl, rfl, rfl, rfl⟩

theorem publish_isOk_iff (env : Env) (s : Server) (ex key : GoString) (msg : MsgRef)
    (c : UInt16) :
    (∃ n, (s.publish env ex key msg c).1 = .ok n) ↔ (s.exchanges.get ex).isSome := by
  unfold publish walkFuel
  cases he : s.exchanges.get ex with
  | none =>
    rw [publishInternal_missing (not_mem_nil) he]
    simp
  | some x =>
    rw [publishInternal_found (not_mem_nil) he]
    simp

theorem publish_of_get {env : Env} {s : Server} {ex key : GoString} {msg : MsgRef} {c : UInt16}
    (he : (s.exchanges.get ex).isSome) :
    ∃ n u, s.publish env ex key msg c = (.ok n, u) ∧ u.exchanges = s.exchanges := by
  obtain ⟨n, hn⟩ := (publish_isOk_iff env s ex key msg c).mpr he
  exact ⟨n, _, Prod.ext hn rfl, (framed_publish env s ex key msg c).exchanges⟩

theorem publish_of_missing {env : Env} {s : Server} {ex key : GoString} {msg : MsgRef}
    {c : UInt16} (he : s.exchanges.get ex = none) :
    s.publish env ex key msg c = (.error (.exchangeNotFound ex), s) := by
  unfold publish walkFuel
  rw [publishInternal_missing (not_mem_nil) he]

/-! ## What the handlers of a channel do -/

section Channel

variable {P : Server → Prop} (env : Env) {ch : ChanRef} {s : Server}

theorem performPublish_inv {ex key : GoString} (mandatory : Bool)
    (hstage : (s.chans.read ch).txMode = true →
      P ({ s with msgs := s.msgs.alloc (publishedMessage ex key) }.stageTxPublish ch
        ⟨ex, key, s.msgs.next⟩))
    (hconfirm : (s.chans.read ch).txMode = false →
      P (({ s with msgs := s.msgs.alloc (publishedMessage ex key) }.modifyChan ch
        fun c => { c with deliveryTag := (s.chans.read ch).deliveryTag + 1 }).publish env ex key
          s.msgs.next (s.chans.read ch).id).2)
    (hplain : (s.chans.read ch).txMode = false →
      P ({ s with msgs := s.msgs.alloc (publishedMessage ex key) }.publish env ex key
        s.msgs.next (s.chans.read ch).id).2)
    (hreply : ∀ u payload, P u → P (u.reply ch payload)) :
    P (s.performPublish env ch ex key mandatory).2 := by
  have hreturn : ∀ u routed, P u → P (u.sendReturn ch ex key mandatory routed) := by
    intro u routed hu
    unfold sendReturn
    split
    · exact hreply u _ hu
    · exact hu
  unfold performPublish
  dsimp only
  split <;> rename_i htx
  · exact hreturn _ 0 (hstage htx)
  have hfalse : (s.chans.read ch).txMode = false := by simpa using htx
  split
  · have hpub := hconfirm hfalse
    split <;> rename_i heq <;> rw [heq] at hpub
    · exact hpub
    · exact hreturn _ _ (hreply _ _ hpub)
  · have hpub := hplain hfalse
    split <;> rename_i heq <;> rw [heq] at hpub
    · exact hpub
    · exact hreturn _ _ hpub

theorem txCommit_inv (payload : Bytes)
    (hpub : P (publishEntries env (s.chans.read ch).id (s.chans.read ch).txPending
      (s.modifyChan ch fun c => { c with txPending := [] })).2)
    (hreply : ∀ u, P u → P (u.reply ch (methodPayload 90 21 []))) :
    P (handleTxCommit env ch payload s).2 := by
  unfold handleTxCommit
  dsimp only
  split <;> rename_i heq <;> rw [heq] at hpub
  · exact hpub
  · exact hreply _ hpub

theorem performConsume_inv {q tag : GoString} {noAck exclusive noWait : Bool} {args : Table}
    (hsub : P (s.subscribe tag q (some ch) noAck exclusive args).2)
    (hreply : ∀ u payload, P u → P (u.replyUnless noWait ch payload)) :
    P (s.performConsume ch q tag noAck exclusive noWait args).2 := by
  unfold performConsume
  split <;> rename_i heq <;> rw [heq] at hsub
  · exact hsub
  · exact hreply _ _ hsub

theorem performQueueDeclare_inv {q : GoString} {passive durable exclusive autoDelete noWait : Bool}
    {args : Table} (hpassive : passive = true → P s)
    (hdecl : passive = false → P (s.declareQueue env q durable exclusive autoDelete args).2)
    (hreply : ∀ u payload, P u → P (u.replyUnless noWait ch payload)) :
    P (s.performQueueDeclare env ch q passive durable exclusive autoDelete noWait args).2 := by
  have hdone : P (if passive then (s.queues.get q, s)
      else s.declareQueue env q durable exclusive autoDelete args).2 := by
    cases passive with
    | true => exact hpassive rfl
    | false => exact hdecl rfl
  unfold performQueueDeclare
  dsimp only
  split <;> rename_i heq <;> rw [heq] at hdone
  · exact hdone
  · exact hreply _ _ hdone

theorem performExchangeDeclare_inv {e exType : GoString} {passive noWait : Bool} {args : Table}
    (hpassive : passive = true → P s)
    (hdecl : passive = false →
      P (s.declareExchange e (exchangeTypeOf exType) false false false args).2)
    (hreply : ∀ u payload, P u → P (u.replyUnless noWait ch payload)) :
    P (s.performExchangeDeclare ch e exType passive noWait args).2 := by
  have hdone : P (if passive then (s.exchanges.get e, s)
      else s.declareExchange e (exchangeTypeOf exType) false false false args).2 := by
    cases passive with
    | true => exact hpassive rfl
    | false => exact hdecl rfl
  unfold performExchangeDeclare
  dsimp only
  split <;> rename_i heq <;> rw [heq] at hdone
  · exact hdone
  · exact hreply _ _ hdone

theorem closeConnection_inv {c : ConnRef}
    (hconns : ∀ u f, P u → P { u with conns := u.conns.modify c f })
    (hclose : ∀ u ch, P u → P (u.closeChannel ch)) (hs : P s) : P (s.closeConnection c) := by
  unfold closeConnection
  dsimp only
  split
  · exact hs
  · exact hs
  · apply hconns
    exact foldlRecOn _ _ (hconns s _ hs) fun u hu ch _ => hclose u ch hu

end Channel

end Server

theorem publishEntries_inv {P : Server → Prop} {env : Env} {c : UInt16} {es : List TxEntry}
    (hP : ∀ e ∈ es, ∀ u, P u → P (u.publish env e.exchange e.routingKey e.msg c).2) {s : Server}
    (hs : P s) : P (publishEntries env c es s).2 := by
  induction es generalizing s with
  | nil => exact hs
  | cons e es ih =>
    have hpub := hP e mem_cons_self s hs
    rw [publishEntries]
    split <;> rename_i heq <;> rw [heq] at hpub
    · exact hpub
    · exact ih (fun e' he' => hP e' (mem_cons_of_mem e he')) hpub

theorem framed_publishEntries (env : Env) (c : UInt16) (es : List TxEntry) (s : Server) :
    Server.Framed s (publishEntries env c es s).2 :=
  publishEntries_inv (P := Server.Framed s)
    (fun e _ u hu => hu.trans (Server.framed_publish env u e.exchange e.routingKey e.msg c))
    (Server.Framed.refl s)

end Gomq.Broker
