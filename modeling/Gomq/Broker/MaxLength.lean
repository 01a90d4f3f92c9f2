import Gomq.Broker.QueueRuns

/-!
# Queues with a length limit

Only the publisher's queue loop makes room in a full queue before it stores a message. A dead
letter is stored without the check, and a requeue does not look at the arguments of the queue at
all. `perm_deadLetter` says what a dead letter adds; a publish adds to a full queue only by way
of what the queues it reaches spill (`Server.Spills`).
-/

namespace Gomq.Broker

open Wire

/-! ## The limit -/

theorem truncFloat_natCast (n : ℕ) : truncFloat (n : ℚ) = n := by
  unfold truncFloat
  simp

theorem asInt64_of_asRat {v : Value} {n : ℕ} (hv : asRat v = some (n : ℚ)) (hn : n < 2 ^ 63) :
    ∃ w, asInt64 v = some w ∧ w.toInt = n := by
  have hsigned : ∀ {i : ℤ}, some (i : ℚ) = some (n : ℚ) → i = n := by
    intro i hi
    exact_mod_cast Option.some.inj hi
  have hunsigned : ∀ w : UInt64, some (w.toNat : ℚ) = some (n : ℚ) → w.toInt64.toInt = n := by
    intro w hw
    have hnat : w.toNat = n := by exact_mod_cast Option.some.inj hw
    rw [toInt64_eq_ofInt, hnat]
    apply Int64.toInt_ofInt_of_le <;> omega
  have hfloat : ∀ r : ℚ, some r = some (n : ℚ) → (Int64.ofInt (truncFloat r)).toInt = n := by
    intro r hr
    rw [Option.some.inj hr, truncFloat_natCast]
    apply Int64.toInt_ofInt_of_le <;> omega
  cases v with
  | int w => exact ⟨w, rfl, hsigned hv⟩
  | int64 w => exact ⟨w, rfl, hsigned hv⟩
  | int8 w => exact ⟨_, rfl, (Int8.toInt_toInt64 w).trans (hsigned hv)⟩
  | int16 w => exact ⟨_, rfl, (Int16.toInt_toInt64 w).trans (hsigned hv)⟩
  | int32 w => exact ⟨_, rfl, (Int32.toInt_toInt64 w).trans (hsigned hv)⟩
  | uint w => exact ⟨_, rfl, hunsigned w hv⟩
  | uint64 w => exact ⟨_, rfl, hunsigned w hv⟩
  | uint8 w => exact ⟨_, rfl, hunsigned w.toUInt64 (by rw [UInt8.toNat_toUInt64]; exact hv)⟩
  | uint16 w => exact ⟨_, rfl, hunsigned w.toUInt64 (by rw [UInt16.toNat_toUInt64]; exact hv)⟩
  | uint32 w => exact ⟨_, rfl, hunsigned w.toUInt64 (by rw [UInt32.toNat_toUInt64]; exact hv)⟩
  | float32 r => exact ⟨_, rfl, hfloat r hv⟩
  | float64 r => exact ⟨_, rfl, hfloat r hv⟩
  | _ => simp [asRat] at hv

def Limits (args : Table) (n : ℕ) : Prop :=
  0 < n ∧ ∃ v, args.get (str "x-max-length") = some v ∧ asRat v = some (n : ℚ)

theorem Limits.toInt_maxLength {args : Table} {n : ℕ} (h : Limits args n) (hn : n < 2 ^ 63) :
    (maxLength args).toInt = n := by
  obtain ⟨-, v, hget, hv⟩ := h
  obtain ⟨w, hw, hint⟩ := asInt64_of_asRat hv hn
  unfold maxLength
  rw [hget]
  dsimp only
  rw [hw]
  exact hint

theorem Limits.maxLength_pos {args : Table} {n : ℕ} (h : Limits args n) (hn : n < 2 ^ 63) :
    0 < maxLength args := by
  rw [Int64.lt_iff_toInt_lt, h.toInt_maxLength hn]
  have hpos := h.1
  simp only [Int64.toInt_zero]
  omega

theorem Limits.length_makeRoom {args : Table} {n : ℕ} (h : Limits args n) (hn : n < 2 ^ 63)
    {l : List MsgRef} (hl : l.length ≤ n) : (makeRoom args l).length + 1 ≤ n := by
  have hpos := h.1
  unfold makeRoom
  rw [h.toInt_maxLength hn]
  split
  · rw [List.length_tail]
    omega
  · rename_i hfull
    have hlt : ¬ (n : ℤ) ≤ l.length := fun hle => hfull ⟨h.maxLength_pos hn, hle⟩
    omega

/-! ## Dead letters -/

/-- A dead letter of a queue with these arguments can come into `q`. -/
def Config.LeadsInto (cfg : Config) (args : Table) (q : GoString) : Prop :=
  ∃ dlx, getDeadLetterConfig args = some dlx ∧
    ∃ headers original, q ∈ cfg.deliveries headers dlx.exchange (dlx.keyFor original)

namespace Server

def lettersInto (s : Server) (m : MsgRef) (args : Table) (q : GoString) : ℕ :=
  match getDeadLetterConfig args with
  | none => 0
  | some dlx =>
    (s.config.deliveries ((s.markLetter m).headersOf m) dlx.exchange
      (dlx.keyFor (s.msgs.read m).routingKey)).count q

theorem lettersInto_of_not_leads {s : Server} {args : Table} {q : GoString}
    (h : ¬ s.config.LeadsInto args q) (m : MsgRef) : s.lettersInto m args q = 0 := by
  unfold lettersInto
  split
  · rfl
  · rename_i dlx hdlx
    exact List.count_eq_zero.mpr fun hmem => h ⟨dlx, hdlx, _, _, hmem⟩

section DeadLetter

variable (env : Env) (m : MsgRef) {q : GoString} {x : Queue} {s : Server}

theorem ready_publishTo_unchecked (dl : MsgRef → Table → Server → Server) (c : UInt16)
    (hq : s.queues.get q = some x) (qn : GoString) :
    (publishTo env dl false m c s qn).ready q =
      if qn = q then place s.priorityOf x.args m (s.ready q) else s.ready q := by
  by_cases hqn : qn = q
  · subst hqn
    rw [publishTo_some env dl m c hq, if_neg (by decide), ready_storeAndDeliver, if_pos rfl]
  · rw [if_neg hqn]
    cases hy : s.queues.get qn with
    | none => rw [publishTo_none env dl m c hy]
    | some y =>
      rw [publishTo_some env dl m c hy, if_neg (by decide), ready_storeAndDeliver,
        if_neg (Ne.symm hqn)]

theorem perm_foldl_unchecked (dl : MsgRef → Table → Server → Server) (c : UInt16)
    (hq : s.queues.get q = some x) (l : List GoString) :
    ((l.foldl (publishTo env dl false m c) s).ready q).Perm
      (s.ready q ++ List.replicate (l.count q) m) := by
  induction l generalizing s with
  | nil => simp
  | cons qn l ih =>
    have hframe := (grows_publishTo_false env dl m c s qn).toFramed
    refine (ih (by rw [hframe.queues]; exact hq)).trans ?_
    rw [ready_publishTo_unchecked env m dl c hq, List.count_cons]
    by_cases hqn : qn = q
    · rw [if_pos hqn, if_pos (by simpa using hqn), List.replicate_succ]
      exact ((perm_place ..).append_right _).trans List.perm_middle.symm
    · rw [if_neg hqn, if_neg (by simpa using hqn), Nat.add_zero]

theorem perm_deadLetter (args : Table) (hq : s.queues.get q = some x) :
    ((deadLetter env m args s).ready q).Perm
      (s.ready q ++ List.replicate (s.lettersInto m args q) m) := by
  unfold lettersInto
  cases h : getDeadLetterConfig args with
  | none => rw [deadLetter_of_none env m h]; simp
  | some dlx =>
    have hq' : (s.markLetter m).queues.get q = some x := hq
    rw [deadLetter_of_some env m h]
    exact perm_foldl_unchecked env m _ 0 hq' _

theorem length_deadLetter (args : Table) (hq : s.queues.get q = some x) :
    ((deadLetter env m args s).ready q).length = (s.ready q).length + s.lettersInto m args q := by
  simpa using (perm_deadLetter env m args hq).length_eq

end DeadLetter

/-! ## Publishes -/

/-- What a publish to `ex` evicts from a queue it can reach can come into `q`. -/
def Spills (s : Server) (ex key q : GoString) : Prop :=
  ∃ headers qn y, qn ∈ s.config.deliveries headers ex key ∧ s.queues.get qn = some y ∧
    0 < maxLength y.args ∧ s.config.LeadsInto y.args q

structure AtMost (q : GoString) (x : Queue) (n : ℕ) (s : Server) : Prop where
  queue : s.queues.get q = some x
  length : (s.ready q).length ≤ n

variable {q : GoString} {x : Queue} {n : ℕ} {s : Server} (env : Env)

theorem length_evictOldest {args : Table} (hq : s.queues.get q = some x) (qn : GoString)
    (hleads : 0 < maxLength args → ¬ s.config.LeadsInto args q) :
    ((s.evictOldest (deadLetter env) qn args).ready q).length =
      (if q = qn then makeRoom args (s.ready q) else s.ready q).length := by
  obtain ⟨st, hready, heq⟩ := evictOldest_eq (deadLetter env) s qn args
  rw [heq]
  cases hover : s.overflowing qn args with
  | none => rw [hready]
  | some o =>
    have hq' : ({ s with store := st } : Server).queues.get q = some x := hq
    have hnone := lettersInto_of_not_leads (s := { s with store := st })
      (hleads (of_overflowing hover).1) o
    rw [length_deadLetter env o args hq', hnone, hready, Nat.add_zero]

namespace AtMost

theorem publishTo (h : AtMost q x n s) (hlimit : Limits x.args n) (hn : n < 2 ^ 63) (m : MsgRef)
    (c : UInt16) (qn : GoString)
    (hleads : ∀ y, s.queues.get qn = some y → 0 < maxLength y.args →
      ¬ s.config.LeadsInto y.args q) :
    AtMost q x n (publishTo env (deadLetter env) true m c s qn) := by
  refine ⟨?_, ?_⟩
  · rw [(framed_publishTo (framed_deadLetter env) env true m c s qn).queues]
    exact h.queue
  cases hy : s.queues.get qn with
  | none =>
    rw [publishTo_none env _ m c hy]
    exact h.length
  | some y =>
    have hevict := length_evictOldest env h.queue qn (hleads y hy)
    rw [publishTo_some env _ m c hy, if_pos rfl, ready_storeAndDeliver]
    by_cases hqn : q = qn
    · subst hqn
      obtain rfl : x = y := Option.some.inj (h.queue.symm.trans hy)
      rw [if_pos rfl] at hevict ⊢
      rw [length_place, hevict]
      exact hlimit.length_makeRoom hn h.length
    · rw [if_neg hqn] at hevict ⊢
      rw [hevict]
      exact h.length

theorem publish (h : AtMost q x n s) (hlimit : Limits x.args n) (hn : n < 2 ^ 63) (m : MsgRef)
    (c : UInt16) (ex key : GoString) (hspill : ¬ s.Spills ex key q) :
    ((s.publish env ex key m c).2.ready q).length ≤ n := by
  have hwalk : (publishInternal env (deadLetter env) true m c s.walkFuel ex key [] s).1 = _ :=
    (publishInternal_visits (framed_deadLetter env) s.walkFuel ex key [] s).1
  have hready : (s.publish env ex key m c).2.ready q =
      (publishInternal env (deadLetter env) true m c s.walkFuel ex key [] s).1.ready q := by
    unfold ready
    rw [(publish_snd env m c s ex key).1]
  rw [hready, hwalk]
  have hvisits : AtMost q x n ((s.config.visits ex key).foldl
      (visit (Server.publishTo env (deadLetter env) true m c) s.config m) s) ∧ _ = s.config :=
    foldl_visit_inv (P := fun u => AtMost q x n u ∧ u.config = s.config)
      (fun u headers qn hqn hu => ⟨hu.1.publishTo env hlimit hn m c qn fun y hy hpos hleads =>
        hspill ⟨headers, qn, y, hqn, by rw [← hy]; exact congrArg (·.queues.get qn) hu.2.symm, hpos,
          by rw [← hu.2]; exact hleads⟩, (config_publishTo env m c u qn).trans hu.2⟩) ⟨h, rfl⟩
  exact hvisits.1.length

theorem scanAll (h : AtMost q x n s) (hleads : ∀ qn, ¬ s.config.LeadsInto (s.queueArgs qn) q) :
    ((s.scanAll env).ready q).length ≤ n := by
  have hscan : AtMost q x n (s.scanAll env) ∧ _ = s.config :=
    scanAll_inv (P := fun u => AtMost q x n u ∧ u.config = s.config) ?_ ?_ ⟨h, rfl⟩
  · exact hscan.1.length
  · rintro u qn l ⟨hu, hconfig⟩ hsub
    refine ⟨⟨hu.queue, ?_⟩, hconfig⟩
    by_cases hqn : q = qn
    · subst hqn
      simpa [ready] using hsub.length_le.trans hu.length
    · simpa [ready, hqn] using hu.length
  · rintro v u m qn - ⟨-, hv⟩ ⟨hu, hconfig⟩
    have hargs : v.queueArgs qn = s.queueArgs qn := by
      unfold queueArgs
      rw [show v.queues = s.queues from congrArg Config.queues hv]
    have hframe := framed_deadLetter env m (v.queueArgs qn) u
    refine ⟨⟨by rw [hframe.queues]; exact hu.queue, ?_⟩, hframe.config.trans hconfig⟩
    rw [length_deadLetter env m _ hu.queue, lettersInto_of_not_leads, Nat.add_zero]
    · exact hu.length
    · rw [hconfig, hargs]
      exact hleads qn

end AtMost

/-! ## Refusals -/

/-- How many messages the refusal of a delivery puts into `q`: it requeues the message, or
dead-letters it as the queue of the delivery says. -/
def refusedInto (s : Server) (tag : UInt64) (channelID : UInt16) (requeue : Bool) (q : GoString) :
    ℕ :=
  if requeue then (s.requeuedInto tag channelID q).length
  else
    match s.getDelivery tag channelID with
    | none => 0
    | some d => s.lettersInto d.msg (s.queueArgs d.queueName) q

theorem length_performNack (hq : s.queues.get q = some x) (ch : ChanRef) (tag : UInt64)
    (requeue : Bool) :
    ((s.performNack env ch tag requeue).2.ready q).length =
      (s.ready q).length + s.refusedInto tag (s.chans.read ch).id requeue q := by
  cases requeue with
  | true =>
    show ((s.nack tag (s.chans.read ch).id true).2.ready q).length = _
    rw [ready_nack_requeue, List.length_append]
    rfl
  | false =>
    show ((deadLetterRefused env (s.getDelivery tag (s.chans.read ch).id) false
      (s.nack tag (s.chans.read ch).id false).2).ready q).length = _
    unfold deadLetterRefused refusedInto
    rw [if_neg (by decide)]
    cases hd : s.getDelivery tag (s.chans.read ch).id with
    | none =>
      rw [nack_of_none hd]
      rfl
    | some d =>
      rw [nack_of_some hd, if_neg (by decide)]
      dsimp only
      have hqueues : (s.untrack tag (s.chans.read ch).id).queues = s.queues := rfl
      unfold queueArgs
      rw [hqueues]
      cases s.queues.get d.queueName with
      | none => rfl
      | some y => exact length_deadLetter env d.msg y.args hq

end Server

/-! ## Runs -/

/-- The step leaves room: what a requeue, a recovery or a dead letter adds to `q` fits, and a
publish or a scan does not spill into it. A limit that does not fit in an `int` is never met. -/
def RoomFor (q : GoString) (n : ℕ) (s : Server) : QueueAction → Prop
  | .publish _ exchange routingKey _ _ => n < 2 ^ 63 ∧ ¬ s.Spills exchange routingKey q
  | .deadLetter _ msg args => (s.ready q).length + s.lettersInto msg args q ≤ n
  | .settle _ ch (.nack tag requeue) =>
    (s.ready q).length + s.refusedInto tag (s.chans.read ch).id requeue q ≤ n
  | .settle _ ch (.reject tag requeue) =>
    (s.ready q).length + s.refusedInto tag (s.chans.read ch).id requeue q ≤ n
  | .settle env ch (.recover true) =>
    (s.ready q).length + (s.recoveredInto env (s.chans.read ch).id q).length ≤ n
  | .scan _ => ∀ qn, ¬ s.config.LeadsInto (s.queueArgs qn) q
  | _ => True

section Runs

variable {q : GoString} {x : Queue} {n : ℕ} {s : Server} (h : s.AtMost q x n)

include h

theorem length_settle_iff (env : Env) (ch : ChanRef) (req : SettleRequest) :
    ((queueStep s (.settle env ch req)).ready q).length ≤ n ↔
      RoomFor q n s (.settle env ch req) := by
  cases req with
  | ack tag =>
    rw [ready_settle_ack]
    exact iff_of_true h.length True.intro
  | nack tag requeue =>
    show ((s.performNack env ch tag requeue).2.ready q).length ≤ n ↔ _
    rw [Server.length_performNack env h.queue]
    rfl
  | reject tag requeue =>
    show ((s.performNack env ch tag requeue).2.ready q).length ≤ n ↔ _
    rw [Server.length_performNack env h.queue]
    rfl
  | recover requeue =>
    rw [ready_settle_recover, List.length_append]
    cases requeue with
    | true => rfl
    | false => exact iff_of_true h.length True.intro
  | get queue noAck =>
    have hsub := ready_settle_get s env ch q queue noAck
    exact iff_of_true (hsub.length_le.trans h.length) True.intro

theorem length_queueStep (hlimit : Limits x.args n) (a : QueueAction) (ha : RoomFor q n s a) :
    ((queueStep s a).ready q).length ≤ n := by
  cases a with
  | publish env ex key m c => exact h.publish env hlimit ha.1 m c ex key ha.2
  | deadLetter env m args =>
    show ((Server.deadLetter env m args s).ready q).length ≤ n
    rw [Server.length_deadLetter env m args h.queue]
    exact ha
  | settle env ch req => exact (length_settle_iff h env ch req).mpr ha
  | scan env => exact h.scanAll env ha

end Runs

/-- A queue with the limit `n` never holds more than `n` messages in a run whose steps leave
room. -/
theorem length_le_along (q : GoString) (x : Queue) (n : ℕ) (s : Server) (as : List QueueAction)
    (hq : s.queues.get q = some x) (hlimit : Limits x.args n) (hstart : (s.ready q).length ≤ n)
    (hroom : Along queueStep (RoomFor q n) s as) :
    Along queueStep (fun s a => ((queueStep s a).ready q).length ≤ n) s as := by
  refine Along.of_inv (I := Server.AtMost q x n) ?_ ?_ ⟨hq, hstart⟩ hroom
  · intro u a hu ha
    refine ⟨?_, length_queueStep hu hlimit a ha⟩
    rw [← hu.queue]
    exact congrArg (fun c : Config => c.queues.get q) (config_queueStep u a)
  · intro u a hu ha
    exact length_queueStep hu hlimit a ha

def limitedQueue : Queue := ⟨str "q", false, false, false, [(str "x-max-length", .int32 1)], none⟩

def limitedServer : Server :=
  { newServer with
    queues := GoMap.set ∅ (str "q") limitedQueue
    bindings := (⟨∅, ∅⟩ : BindingManager).bind (str "amq.fanout") (str "q") [] []
    msgs := (Heap.empty.alloc (newMessage [] {})).alloc (newMessage [] {})
    conns := Heap.empty.alloc (newConnection .up)
    chans := Heap.empty.alloc (newChannel 1 0) }

theorem limits_limitedQueue : Limits limitedQueue.args 1 :=
  ⟨by decide, .int32 1, rfl, by decide +kernel⟩

theorem not_spills_limitedServer (ex key : GoString) : ¬ limitedServer.Spills ex key (str "q") := by
  rintro ⟨headers, qn, y, -, hy, -, dlx, hdlx, -⟩
  have hget : limitedServer.queues.get qn = if qn = str "q" then some limitedQueue else none :=
    GoMap.get_set ..
  rw [hget] at hy
  split at hy
  · obtain rfl : limitedQueue = y := Option.some.inj hy
    exact absurd hdlx (by simp [show getDeadLetterConfig limitedQueue.args = none from rfl])
  · cases hy

/-- A message is published, fetched and requeued. -/
theorem limitedServer_requeues :
    limitedServer.queues.get (str "q") = some limitedQueue ∧ Limits limitedQueue.args 1 ∧
      limitedServer.ready (str "q") = [] ∧
      Along queueStep (fun s a => ((queueStep s a).ready (str "q")).length ≤ 1) limitedServer
        [.publish default (str "amq.fanout") [] 0 1, .settle default 0 (.get (str "q") false),
          .settle default 0 (.nack 1 true)] := by
  have hq : limitedServer.queues.get (str "q") = some limitedQueue := rfl
  refine ⟨hq, limits_limitedQueue, rfl, ?_⟩
  apply length_le_along (str "q") limitedQueue 1 limitedServer _ hq limits_limitedQueue
    (Nat.zero_le 1)
  refine ⟨⟨by decide, not_spills_limitedServer _ _⟩, True.intro, ?_, True.intro⟩
  unfold RoomFor
  decide +kernel

def refillAndRequeue : List QueueAction :=
  [.publish default (str "amq.fanout") [] 0 1, .settle default 0 (.get (str "q") false),
    .publish default (str "amq.fanout") [] 1 1, .settle default 0 (.nack 1 true)]

theorem refillAndRequeue_exceeds :
    limitedServer.ready (str "q") = [] ∧ Limits limitedQueue.args 1 ∧
      (refillAndRequeue.foldl queueStep limitedServer).ready (str "q") = [1, 0] ∧
      ¬ Along queueStep (fun s a => ((queueStep s a).ready (str "q")).length ≤ 1) limitedServer
        refillAndRequeue :=
  ⟨rfl, limits_limitedQueue, by decide +kernel, by decide +kernel⟩

end Gomq.Broker
