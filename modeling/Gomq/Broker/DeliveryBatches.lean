import Gomq.Lib.Run
import Gomq.Broker.GroupDelivery

/-!
# Delivery batches

The deliverer keeps one batch for each channel id of a publisher. A batch is created with the
channel of the consumer at hand and keeps it, whoever is served under the id afterwards. Every item
is flushed once, but to the channel of the batch: to the right one for all items exactly if no
consumer of another channel is ever served from a batch (`flushed_run`). The items here carry the
consumer they were added for, which the code forgets (`simulates_deliver`).
-/

namespace Gomq.Broker

open Wire Server List

structure Addressed where
  consumer : Consumer
  item : DeliveryItem

structure AddressedBatch where
  ch : ChanRef
  items : List Addressed

/-- An order in which a range over the batches may run. -/
def BatchOrder : Type := { f : List UInt16 → List UInt16 // ∀ l, (f l).Perm l }

instance : Inhabited BatchOrder := ⟨id, List.Perm.refl⟩

/-- The deliverer, with the items that `flushBatch` was called with and the channels. -/
structure Deliverer where
  maxSize : ℤ
  batches : GoMap UInt16 AddressedBatch
  flushed : List (ChanRef × Addressed)

namespace AddressedBatch

def routes (b : AddressedBatch) : List (ChanRef × Addressed) := b.items.map fun a => (b.ch, a)

def forget (b : AddressedBatch) : DeliveryBatch := ⟨b.ch, b.items.map Addressed.item⟩

end AddressedBatch

namespace Deliverer

def start (maxSize : ℤ) : Deliverer := ⟨maxSize, ∅, []⟩

def getOrCreateBatch (d : Deliverer) (channelID : UInt16) (ch : ChanRef) : AddressedBatch :=
  d.batches.getD channelID ⟨ch, []⟩

def flush (d : Deliverer) (channelID : UInt16) : Deliverer :=
  match d.batches.get channelID with
  | none => d
  | some b =>
    { d with
      batches := d.batches.set channelID { b with items := [] }
      flushed := d.flushed ++ b.routes }

/-- `Add` to the batch under an id, which may fill it. -/
def add (d : Deliverer) (channelID : UInt16) (ch : ChanRef) (a : Addressed) : Deliverer :=
  -- `ch` counts only if the batch is new
  let b := d.getOrCreateBatch channelID ch
  let items := b.items ++ [a]
  let d := { d with batches := d.batches.set channelID { b with items := items } }
  if d.maxSize ≤ (items.length : ℤ) then d.flush channelID else d

def deliverTo (d : Deliverer) (c : Consumer) (item : DeliveryItem) (channelID : UInt16) :
    Deliverer :=
  match c.channel with
  | some ch => d.add channelID ch ⟨c, item⟩
  | none => d

def flushAll (d : Deliverer) (order : BatchOrder) : Deliverer :=
  (order.1 d.batches.keys).foldl flush d

end Deliverer

/-- What happens to a deliverer. A call of `Deliver` is a row of calls of `deliverTo`, and one of
`FlushAll` a row of flushes. -/
inductive DelivererOp where
  | deliverTo (c : Consumer) (item : DeliveryItem) (channelID : UInt16)
  | flush (channelID : UInt16)

def delivererStep (d : Deliverer) : DelivererOp → Deliverer
  | .deliverTo c item channelID => d.deliverTo c item channelID
  | .flush channelID => d.flush channelID

def added (ops : List DelivererOp) : List Addressed :=
  ops.filterMap fun op =>
    match op with
    | .deliverTo c item _ => c.channel.map fun _ => ⟨c, item⟩
    | .flush _ => none

/-- A batch that is there when a consumer is served from it has the channel of the consumer. -/
def SameChannel (d : Deliverer) : DelivererOp → Prop
  | .deliverTo c _ channelID =>
    ∀ ch b, c.channel = some ch → d.batches.get channelID = some b → b.ch = ch
  | .flush _ => True

/-! ## Where the items go -/

namespace Deliverer

variable (d : Deliverer)

def pending : List (ChanRef × Addressed) := d.batches.vals.flatMap AddressedBatch.routes

def routes : List (ChanRef × Addressed) := d.flushed ++ d.pending

def others (channelID : UInt16) : List (ChanRef × Addressed) :=
  (d.batches.del channelID).vals.flatMap AddressedBatch.routes

theorem pending_perm (channelID : UInt16) (ch : ChanRef) :
    d.pending.Perm ((d.getOrCreateBatch channelID ch).routes ++ d.others channelID) := by
  unfold pending others getOrCreateBatch
  cases hget : d.batches.get channelID with
  | none =>
    rw [GoMap.del_of_get_none hget, GoMap.getD_of_none hget]
    exact List.Perm.refl _
  | some b =>
    rw [GoMap.getD_of_get hget]
    exact (GoMap.vals_perm_of_get hget).flatMap_right _

theorem pending_set (channelID : UInt16) (b : AddressedBatch) :
    ({ d with batches := d.batches.set channelID b } : Deliverer).pending =
      b.routes ++ d.others channelID := by
  unfold pending others
  dsimp only
  rw [GoMap.vals_set, flatMap_cons]

theorem routes_flush (channelID : UInt16) : (d.flush channelID).routes.Perm d.routes := by
  unfold flush
  cases hget : d.batches.get channelID with
  | none => exact List.Perm.refl _
  | some b =>
    have hsplit := d.pending_perm channelID b.ch
    unfold getOrCreateBatch at hsplit
    rw [GoMap.getD_of_get hget] at hsplit
    have hset := d.pending_set channelID { b with items := [] }
    unfold routes
    dsimp only
    rw [append_assoc]
    refine List.Perm.append_left _ ?_
    exact (List.Perm.append_left _ (List.Perm.of_eq hset)).trans hsplit.symm

theorem routes_add (channelID : UInt16) (ch : ChanRef) (a : Addressed) :
    (d.add channelID ch a).routes.Perm
      (d.routes ++ [((d.getOrCreateBatch channelID ch).ch, a)]) := by
  set b := d.getOrCreateBatch channelID ch with hb
  set u : Deliverer :=
    { d with batches := d.batches.set channelID { b with items := b.items ++ [a] } } with hu
  have hadd : d.add channelID ch a =
      if d.maxSize ≤ ((b.items ++ [a]).length : ℤ) then u.flush channelID else u := rfl
  have hroutes : u.routes.Perm (d.routes ++ [(b.ch, a)]) := by
    have hset : u.pending = (b.routes ++ [(b.ch, a)]) ++ d.others channelID := by
      rw [hu, pending_set]
      unfold AddressedBatch.routes
      rw [map_append]
      rfl
    -- the new item is last in its batch but not last of all: it moves past the other batches
    have hmove : ((b.routes ++ [(b.ch, a)]) ++ d.others channelID).Perm
        (d.pending ++ [(b.ch, a)]) := by
      rw [append_assoc]
      refine (List.Perm.append_left _ perm_append_comm).trans ?_
      rw [← append_assoc]
      exact (d.pending_perm channelID ch).symm.append_right _
    unfold routes
    rw [hset, append_assoc d.flushed]
    exact hmove.append_left _
  rw [hadd]
  split
  · exact (u.routes_flush channelID).trans hroutes
  · exact hroutes

end Deliverer

def newRoute (d : Deliverer) : DelivererOp → List (ChanRef × Addressed)
  | .deliverTo c item channelID =>
    match c.channel with
    | some ch => [((d.getOrCreateBatch channelID ch).ch, ⟨c, item⟩)]
    | none => []
  | .flush _ => []

theorem routes_step (d : Deliverer) (op : DelivererOp) :
    (delivererStep d op).routes.Perm (d.routes ++ newRoute d op) := by
  cases op with
  | deliverTo c item channelID =>
    unfold delivererStep newRoute Deliverer.deliverTo
    dsimp only
    cases c.channel with
    | none =>
      dsimp only
      rw [append_nil]
    | some ch => exact d.routes_add channelID ch ⟨c, item⟩
  | flush channelID =>
    unfold delivererStep newRoute
    dsimp only
    rw [append_nil]
    exact d.routes_flush channelID

theorem newRoute_snd (d : Deliverer) (op : DelivererOp) :
    (newRoute d op).map Prod.snd = added [op] := by
  cases op with
  | deliverTo c item channelID =>
    unfold newRoute added
    cases hch : c.channel with
    | none => simp [hch]
    | some ch => simp [hch]
  | flush channelID => rfl

def Rightly (p : ChanRef × Addressed) : Prop := p.2.consumer.channel = some p.1

theorem newRoute_rightly (d : Deliverer) (op : DelivererOp) :
    (∀ p ∈ newRoute d op, Rightly p) ↔ SameChannel d op := by
  cases op with
  | deliverTo c item channelID =>
    unfold newRoute SameChannel Rightly
    dsimp only
    cases hch : c.channel with
    | none => simp
    | some ch =>
      simp only [mem_singleton, forall_eq, Option.some_inj, hch]
      unfold Deliverer.getOrCreateBatch
      cases hget : d.batches.get channelID with
      | none => simp [GoMap.getD_of_none hget]
      | some b => simp [GoMap.getD_of_get hget, eq_comm]
  | flush channelID => exact iff_of_true (fun p hp => by cases hp) True.intro

/-! ## Runs -/

theorem routes_run (d : Deliverer) (ops : List DelivererOp) :
    ((ops.foldl delivererStep d).routes.map Prod.snd).Perm
      (d.routes.map Prod.snd ++ added ops) := by
  induction ops generalizing d with
  | nil =>
    unfold added
    rw [filterMap_nil, append_nil]
    exact List.Perm.refl _
  | cons op ops ih =>
    have hadded : added (op :: ops) = added [op] ++ added ops :=
      filterMap_append (l := [op])
    rw [foldl_cons, hadded, ← append_assoc, ← newRoute_snd d op, ← map_append]
    exact (ih (delivererStep d op)).trans (((routes_step d op).map _).append_right _)

theorem rightly_run (d : Deliverer) (ops : List DelivererOp) :
    (∀ p ∈ (ops.foldl delivererStep d).routes, Rightly p) ↔
      (∀ p ∈ d.routes, Rightly p) ∧ Along delivererStep SameChannel d ops := by
  induction ops generalizing d with
  | nil => exact (and_iff_left True.intro).symm
  | cons op ops ih =>
    have hstep : (∀ p ∈ (delivererStep d op).routes, Rightly p) ↔
        (∀ p ∈ d.routes, Rightly p) ∧ SameChannel d op := by
      rw [← newRoute_rightly d op, ← forall_mem_append]
      exact forall_congr' fun p => imp_congr_left (routes_step d op).mem_iff
    rw [foldl_cons, ih, hstep, and_assoc]
    rfl

namespace Deliverer

theorem get_foldl_flush (l : List UInt16) (d : Deliverer) (k : UInt16) :
    (l.foldl flush d).batches.get k =
      (d.batches.get k).map fun b => if k ∈ l then { b with items := [] } else b := by
  induction l generalizing d with
  | nil =>
    cases h : d.batches.get k with
    | none => simp [h]
    | some b => simp [h]
  | cons k' l ih =>
    have hflush : (d.flush k').batches.get k =
        (d.batches.get k).map fun b => if k = k' then { b with items := [] } else b := by
      unfold flush
      by_cases hk : k = k'
      · subst hk
        cases h : d.batches.get k with
        | none => simp [h]
        | some b => simp
      · cases h : d.batches.get k' with
        | none => simp [hk]
        | some b => simp [hk]
    rw [foldl_cons, ih, hflush, Option.map_map]
    congr 1
    funext b
    by_cases hk : k = k'
    · simp [hk]
    · simp [hk]

theorem pending_flushAll (d : Deliverer) (order : BatchOrder) :
    (d.flushAll order).pending = [] := by
  unfold pending flushAll
  rw [flatMap_eq_nil_iff]
  intro b hb
  obtain ⟨k, hk⟩ := GoMap.mem_vals_iff.mp hb
  rw [get_foldl_flush, Option.map_eq_some_iff] at hk
  obtain ⟨b', hb', rfl⟩ := hk
  have hmem : k ∈ order.1 d.batches.keys :=
    (order.2 _).mem_iff.mpr (GoMap.mem_keys_iff.mpr ⟨b', hb'⟩)
  rw [if_pos hmem]
  rfl

theorem flushed_flushAll (d : Deliverer) (order : BatchOrder) :
    (d.flushAll order).flushed.Perm d.routes := by
  have hroutes : (d.flushAll order).routes.Perm d.routes := by
    refine foldlRecOn (motive := fun u : Deliverer => u.routes.Perm d.routes) _ _
      (List.Perm.refl _) fun u hu k _ => ?_
    exact (u.routes_flush k).trans hu
  unfold routes at hroutes
  rwa [pending_flushAll, append_nil] at hroutes

end Deliverer

/-- After every run of hand-overs and flushes that ends with `FlushAll`, for every batch size, each
item that was added for a consumer has been flushed exactly once. All of them have gone to the
channels on which their consumers subscribed exactly if no consumer was served from a batch of
another channel. -/
theorem flushed_run (maxSize : ℤ) (ops : List DelivererOp) (order : BatchOrder) :
    ((((ops.foldl delivererStep (.start maxSize)).flushAll order).flushed.map Prod.snd).Perm
        (added ops)) ∧
      ((∀ p ∈ ((ops.foldl delivererStep (.start maxSize)).flushAll order).flushed, Rightly p) ↔
        Along delivererStep SameChannel (.start maxSize) ops) := by
  have hflushed := Deliverer.flushed_flushAll (ops.foldl delivererStep (.start maxSize)) order
  have hstart : (Deliverer.start maxSize).routes = [] := rfl
  constructor
  · have hrun := routes_run (.start maxSize) ops
    rw [hstart] at hrun
    exact (hflushed.map _).trans hrun
  · have hrun := rightly_run (.start maxSize) ops
    rw [hstart, and_iff_right (forall_mem_nil _)] at hrun
    exact (forall_congr' fun p => imp_congr_left hflushed.mem_iff).trans hrun

/-! ## The batches of the server -/

/-- The server has the batches of the deliverer, without the consumers. -/
structure Simulates (d : Deliverer) (s : Server) : Prop where
  maxSize : d.maxSize = batchMaxSize
  batches : ∀ k, s.batches.get k = (d.batches.get k).map AddressedBatch.forget

/-- The calls of `deliverTo` that a call of `Deliver` makes. -/
def deliverOps (env : Env) (s : Server) (m : MsgRef) (q : GoString) (c : UInt16) :
    List DelivererOp :=
  (s.handedTo env m q c).map fun k => .deliverTo k ⟨m, q, 0⟩ c

namespace Deliverer

theorem maxSize_flush (d : Deliverer) (k : UInt16) : (d.flush k).maxSize = d.maxSize := by
  unfold flush
  split <;> rfl

theorem maxSize_add (d : Deliverer) (k : UInt16) (ch : ChanRef) (a : Addressed) :
    (d.add k ch a).maxSize = d.maxSize := by
  unfold add
  dsimp only
  split
  · exact maxSize_flush _ k
  · rfl

theorem get_add (d : Deliverer) (k k' : UInt16) (ch : ChanRef) (a : Addressed) :
    (d.add k ch a).batches.get k' =
      if k' = k then
        some ⟨(d.getOrCreateBatch k ch).ch,
          if d.maxSize ≤ ((d.getOrCreateBatch k ch).items.length : ℤ) + 1 then []
          else (d.getOrCreateBatch k ch).items ++ [a]⟩
      else d.batches.get k' := by
  unfold add
  simp only [length_append, length_cons, length_nil, Nat.zero_add, Nat.cast_add,
    Nat.cast_one]
  split
  · unfold flush
    simp only [GoMap.get_set_self]
    by_cases hk : k' = k
    · simp [hk]
    · simp [hk]
  · rw [GoMap.get_set]

end Deliverer

section Simulation

variable {d : Deliverer} {s : Server} (m : MsgRef) (q : GoString) (c : UInt16)

theorem Simulates.of_batches (h : Simulates d s) {u : Server} (hu : u.batches = s.batches) :
    Simulates d u := by
  refine ⟨h.maxSize, fun k => ?_⟩
  rw [hu, h.batches]

theorem Simulates.getD (h : Simulates d s) (k : UInt16) (ch : ChanRef) :
    s.batches.getD k ⟨ch, []⟩ = (d.getOrCreateBatch k ch).forget := by
  unfold Deliverer.getOrCreateBatch GoMap.getD
  rw [h.batches]
  cases d.batches.get k <;> rfl

theorem Simulates.addToBatch (h : Simulates d s) (ch : ChanRef) (a : Addressed) :
    Simulates (d.add c ch a) (s.addToBatch c ch a.item) := by
  refine ⟨(d.maxSize_add c ch a).trans h.maxSize, fun k => ?_⟩
  unfold Server.addToBatch
  dsimp only
  rw [GoMap.get_set, d.get_add, h.getD, h.maxSize]
  by_cases hk : k = c
  · rw [if_pos hk, if_pos hk]
    unfold AddressedBatch.forget
    simp only [length_append, length_map, length_cons, length_nil,
      Nat.zero_add, Option.map_some]
    by_cases hfull : batchMaxSize ≤ (d.getOrCreateBatch c ch).items.length + 1
    · rw [if_pos hfull, if_pos (by exact_mod_cast hfull), map_nil]
    · rw [if_neg hfull, if_neg (by exact_mod_cast hfull), map_append]
      rfl
  · rw [if_neg hk, if_neg hk, h.batches]

theorem Simulates.deliverTo (h : Simulates d s) (k : Consumer) :
    Simulates (d.deliverTo k ⟨m, q, 0⟩ c) (s.deliverTo m k q c) := by
  have hmsg : Simulates d (s.modifyMsg m fun x => x.setDeliveryTag 0) := h.of_batches rfl
  unfold Deliverer.deliverTo Server.deliverTo
  cases k.channel with
  | none => exact hmsg.of_batches rfl
  | some ch => exact (hmsg.addToBatch c ch ⟨k, m, q, 0⟩).of_batches rfl

def HandedOver (d : Deliverer) (s u : Server) : Prop :=
  ∃ l : List Consumer, u.delivered = s.delivered ++ l.map (Server.handOver m q c) ∧
    Simulates (l.foldl (fun d k => d.deliverTo k ⟨m, q, 0⟩ c) d) u

variable {u : Server}

theorem HandedOver.deliverTo (h : HandedOver m q c d s u) (k : Consumer) :
    HandedOver m q c d s (u.deliverTo m k q c) := by
  obtain ⟨l, hl, hsim⟩ := h
  refine ⟨l ++ [k], ?_, ?_⟩
  · rw [delivered_deliverTo, hl, map_append, append_assoc]
    rfl
  · rw [foldl_append]
    exact hsim.deliverTo m q c k

theorem HandedOver.deliverGroup (h : HandedOver m q c d s u) (list : List Consumer)
    (gid : GoString) : HandedOver m q c d s (deliverGroup list m q c u gid) := by
  have hsel : HandedOver m q c d s (u.selectMember list gid (u.msgs.read m).routingKey).2 := by
    obtain ⟨l, hl, hsim⟩ := h
    unfold selectMember
    cases u.consumers.groupMgr with
    | none => exact ⟨l, hl, hsim⟩
    | some gm => exact ⟨l, hl, hsim.of_batches rfl⟩
  unfold Server.deliverGroup
  rcases hm : u.selectMember list gid (u.msgs.read m).routingKey with ⟨_ | k, v⟩
  · rw [hm] at hsel
    exact hsel
  · rw [hm] at hsel
    exact hsel.deliverTo m q c k

/-- A call of `Deliver` does to the batches of the server what its calls of `deliverTo` do to those
of the deliverer. -/
theorem simulates_deliver (h : Simulates d s) (env : Env) :
    Simulates ((deliverOps env s m q c).foldl delivererStep d) (s.deliver env m q c) := by
  have hall : HandedOver m q c d s (s.deliver env m q c) := by
    rw [deliver_eq]
    refine foldlRecOn (motive := HandedOver m q c d s) _ _ ?_ fun u hu k _ =>
      hu.deliverTo m q c k
    refine foldlRecOn (motive := HandedOver m q c d s) _ _ ?_ fun u hu gid _ =>
      hu.deliverGroup m q c _ gid
    exact ⟨[], (append_nil _).symm, h⟩
  obtain ⟨l, hl, hsim⟩ := hall
  have hto : s.handedTo env m q c = l := by
    unfold handedTo
    rw [hl, drop_left, map_map]
    exact map_id l
  unfold deliverOps
  rw [hto, foldl_map]
  exact hsim

end Simulation

/-! ## Two channels under one id -/

def twoChannels : Server :=
  [(default, ConsumerOp.subscribe (str "1") (str "q") (some 1) true false []),
    (default, .subscribe (str "2") (str "q") (some 2) true false [])].foldl consumerStep
      { newServer with consumers := emptyConsumers }

/-- One message for the queue is flushed twice to the first channel and never to the second. -/
theorem twoChannels_flushed :
    (((((deliverOps default twoChannels 0 (str "q") 5).foldl delivererStep
        (.start batchMaxSize)).flushAll default).flushed.map
          fun p => (p.1, p.2.consumer.tag, p.2.consumer.channel)) =
        [(1, str "1", some 1), (1, str "2", some 2)]) ∧
      ¬ ∀ p ∈ (((deliverOps default twoChannels 0 (str "q") 5).foldl delivererStep
        (.start batchMaxSize)).flushAll default).flushed, Rightly p := by
  set l := (((deliverOps default twoChannels 0 (str "q") 5).foldl delivererStep
    (.start batchMaxSize)).flushAll default).flushed with hl
  have hlist : (l.map fun p => (p.1, p.2.consumer.tag, p.2.consumer.channel)) =
      [(1, str "1", some 1), (1, str "2", some 2)] := by
    rw [hl]
    decide +kernel
  refine ⟨hlist, fun hall => ?_⟩
  have hmem : (1, str "2", some 2) ∈
      l.map fun p => (p.1, p.2.consumer.tag, p.2.consumer.channel) := by
    rw [hlist]
    exact mem_cons_of_mem _ mem_cons_self
  obtain ⟨p, hp, heq⟩ := mem_map.mp hmem
  have hright : p.2.consumer.channel = some p.1 := hall p hp
  simp only [Prod.mk.injEq] at heq
  rw [heq.1, heq.2.2] at hright
  exact absurd hright (by decide)

end Gomq.Broker
