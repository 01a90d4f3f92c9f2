import Gomq.Broker.MaxLength

/-!
# The two paths of expired messages

The scan of the expiration manager and the loop of `Basic.Get` both take expired messages out of a
queue. The scan hands each of them to the dead-letter exchange of the queue; the loop drops them.
The two run concurrently, so the system here takes the steps that hold the lock of the store: a
removal of the scan, a call of its callback, and one round of the loop. A scan or a request that
runs alone is what the code computes (`scan_alone`, `get_alone`).

Each message that leaves a queue because it has expired reaches the dead-letter exchange once
exactly if no round of `Basic.Get` meets an expired message (`routedOnce_iff`).
-/

namespace Gomq.Broker

open Wire Server List

/-! ## Steps -/

theorem Server.onExpired_eq (env : Env) (args : Table) (s : Server) (m : MsgRef) :
    onExpired env args s m = deadLetter env m args s := by
  unfold onExpired shouldDeadLetter
  cases h : getDeadLetterConfig args with
  | none => rw [deadLetter_of_none env m h]; rfl
  | some dlx => rfl

structure Callback where
  queueName : GoString
  queueArgs : Table
  msg : MsgRef

def Callback.entry (c : Callback) : GoString × MsgRef := (c.queueName, c.msg)

/-- A callback that was called, with the broker before and after the call. -/
structure Routing extends Callback where
  before : Server
  after : Server

/-- The broker and the callbacks of the running scan. The last two fields are history, which no step
reads: the messages that left a queue because they had expired, and the calls of callbacks. -/
structure Expiring where
  server : Server
  pending : List Callback
  expired : List (GoString × MsgRef)
  called : List Routing

namespace Expiring

def start (server : Server) : Expiring := ⟨server, [], [], []⟩

/-- The locked part of `RemoveExpired`. The manager has one goroutine, which comes to the next queue
when all callbacks have returned. -/
def scan (env : Env) (q : GoString) (s : Expiring) : Expiring :=
  match s.pending with
  | _ :: _ => s
  | [] =>
    let args := s.server.queueArgs q
    let isExpired := fun m => isExpired env.now (s.server.msgs.read m) args
    let gone := (s.server.ready q).filter isExpired
    { s with
      server :=
        if s.server.ready q = [] then s.server
        else { s.server with
          store := s.server.store.set q ((s.server.ready q).filter fun m => !isExpired m) }
      pending := gone.map fun m => ⟨q, args, m⟩
      expired := s.expired ++ gone.map fun m => (q, m) }

def callback (env : Env) (s : Expiring) : Expiring :=
  match s.pending with
  | [] => s
  | c :: pending =>
    let server := onExpired env c.queueArgs s.server c.msg
    { s with
      server := server
      pending := pending
      called := s.called ++ [⟨c, s.server, server⟩] }

/-- The end of `Get`: the delivery is tracked under the first tag of its pull consumer. -/
def track (autoAck : Bool) (q : GoString) (channelID : UInt16) (msg : MsgRef) (server : Server) :
    Server :=
  if autoAck then server
  else (server.modifyMsg msg fun m => m.setDeliveryTag 1).record 1 msg q channelID

/-- One round of the loop of `Get`. A message that has not expired ends the loop. -/
def get (env : Env) (q : GoString) (autoAck : Bool) (channelID : UInt16) (s : Expiring) :
    Expiring :=
  match s.server.dequeue q with
  | (none, _) => s
  | (some msg, server) =>
    if isExpired env.now (server.msgs.read msg) (s.server.queueArgs q) then
      { s with server := server, expired := s.expired ++ [(q, msg)] }
    else { s with server := track autoAck q channelID msg server }

end Expiring

inductive ExpiringAction where
  | scan (env : Env) (q : GoString)
  | callback (env : Env)
  | get (env : Env) (q : GoString) (autoAck : Bool) (channelID : UInt16)

namespace Expiring

def step (s : Expiring) : ExpiringAction → Expiring
  | .scan env q => s.scan env q
  | .callback env => s.callback env
  | .get env q autoAck channelID => s.get env q autoAck channelID

/-! ## Scans and requests that run alone -/

theorem callbacks_alone (env : Env) (s : Expiring) :
    ((List.replicate s.pending.length (.callback env)).foldl step s).server =
      s.pending.foldl (fun u c => onExpired env c.queueArgs u c.msg) s.server := by
  obtain ⟨server, pending, expired, called⟩ := s
  induction pending generalizing server called with
  | nil => rfl
  | cons c pending ih => exact ih _ _

theorem scan_alone (env : Env) (q : GoString) {s : Expiring} (h : s.pending = []) :
    ((List.replicate (s.scan env q).pending.length (.callback env)).foldl step
        (s.scan env q)).server = s.server.scanQueue env q := by
  rw [callbacks_alone]
  unfold scan scanQueue removeExpired
  rw [h]
  cases hq : s.server.ready q with
  | nil => rfl
  | cons m l => simp [foldl_map]

theorem get_of_nil (env : Env) {q : GoString} (autoAck : Bool) (channelID : UInt16) {s : Expiring}
    (h : s.server.ready q = []) : s.get env q autoAck channelID = s := by
  unfold get dequeue
  rw [h]

theorem get_of_cons (env : Env) {q : GoString} (autoAck : Bool) (channelID : UInt16) {s : Expiring}
    {m : MsgRef} {l : List MsgRef} (h : s.server.ready q = m :: l) :
    s.get env q autoAck channelID =
      if isExpired env.now (s.server.msgs.read m) (s.server.queueArgs q) then
        { s with
          server := { s.server with store := s.server.store.set q l }
          expired := s.expired ++ [(q, m)] }
      else
        { s with
          server := track autoAck q channelID m
            { s.server with store := s.server.store.set q l } } := by
  unfold get dequeue
  rw [h]

theorem get_keeps (env : Env) (q : GoString) (autoAck : Bool) (channelID : UInt16) (s : Expiring) :
    (s.get env q autoAck channelID).pending = s.pending ∧
      (s.get env q autoAck channelID).called = s.called := by
  cases hq : s.server.ready q with
  | nil => rw [get_of_nil env autoAck channelID hq]; exact ⟨rfl, rfl⟩
  | cons m l =>
    rw [get_of_cons env autoAck channelID hq]
    split <;> exact ⟨rfl, rfl⟩

theorem getLoop_alone (env : Env) (q : GoString) (autoAck : Bool) (channelID : UInt16) (n : ℕ)
    (s : Expiring) (hn : (s.server.ready q).length < n) :
    ∃ k, ((List.replicate k (.get env q autoAck channelID)).foldl step s).server =
      match getLoop env q (s.server.queueArgs q) n s.server with
      | (none, u) => u
      | (some msg, u) => track autoAck q channelID msg u := by
  induction n generalizing s with
  | zero => exact absurd hn (Nat.not_lt_zero _)
  | succ n ih =>
    unfold getLoop dequeue
    cases hq : s.server.ready q with
    | nil => exact ⟨0, rfl⟩
    | cons m l =>
      have hget := get_of_cons env autoAck channelID hq
      dsimp only
      by_cases hexp : isExpired env.now (s.server.msgs.read m) (s.server.queueArgs q) = true
      · rw [if_pos hexp] at hget ⊢
        have hlen : ((s.get env q autoAck channelID).server.ready q).length < n := by
          rw [hq] at hn
          rw [hget]
          simpa [ready] using hn
        obtain ⟨k, hk⟩ := ih (s.get env q autoAck channelID) hlen
        refine ⟨k + 1, hk.trans ?_⟩
        rw [hget]
        rfl
      · rw [if_neg hexp] at hget ⊢
        exact ⟨1, congrArg server hget⟩

theorem get_alone (env : Env) (q : GoString) (autoAck : Bool) (channelID : UInt16) (s : Expiring) :
    ∃ k, ((List.replicate k (.get env q autoAck channelID)).foldl step s).server =
      (newPullConsumer.get env q autoAck channelID s.server).2.2 := by
  obtain ⟨k, hk⟩ := getLoop_alone env q autoAck channelID _ s (Nat.lt_succ_self _)
  refine ⟨k, hk.trans ?_⟩
  unfold PullConsumer.get
  rcases getLoop env q (s.server.queueArgs q) ((s.server.ready q).length + 1) s.server with
    ⟨_ | msg, u⟩
  · rfl
  · cases autoAck <;> rfl

/-! ## Every message once -/

def ofQueue (q : GoString) (l : List (GoString × MsgRef)) : List MsgRef :=
  (l.filter fun p => p.1 = q).map Prod.snd

def routed (s : Expiring) : List (GoString × MsgRef) := s.called.map fun r => r.entry

def awaiting (s : Expiring) : List (GoString × MsgRef) := s.pending.map Callback.entry

/-- The arguments name a dead-letter exchange, and it is declared. -/
def HasDeadLetterExchange (server : Server) (args : Table) : Prop :=
  ∃ dlx ∈ getDeadLetterConfig args, (server.exchanges.get dlx.exchange).isSome

instance (server : Server) (args : Table) : Decidable (HasDeadLetterExchange server args) :=
  inferInstanceAs (Decidable (∃ dlx ∈ getDeadLetterConfig args, _))

/-- The call has published its message to the dead-letter exchange: every queue holds what it held,
and the message as often as the bindings lead to the queue from there. -/
structure Arrived (r : Routing) : Prop where
  exchange : HasDeadLetterExchange r.before r.queueArgs
  queues : ∀ d x, r.before.queues.get d = some x →
    (r.after.ready d).Perm
      (r.before.ready d ++ List.replicate (r.before.lettersInto r.msg r.queueArgs d) r.msg)

/-- Every message that left the queue because it had expired was routed to the dead-letter exchange
once, or will be by the running scan; no other was. -/
structure RoutedOnce (q : GoString) (s : Expiring) : Prop where
  once : (ofQueue q s.expired).Perm (ofQueue q s.routed ++ ofQueue q s.awaiting)
  arrived : ∀ r ∈ s.called, r.queueName = q → Arrived r

/-- The step is a round of `Basic.Get` on the queue that meets an expired message. -/
def Drops (q : GoString) (s : Expiring) : ExpiringAction → Prop
  | .get env q' _ _ =>
    q' = q ∧ ∃ m ∈ (s.server.ready q).head?,
      isExpired env.now (s.server.msgs.read m) (s.server.queueArgs q) = true
  | _ => False

/-- The queue has a dead-letter exchange, and so for the callbacks of the scan. -/
structure DeadLetters (q : GoString) (s : Expiring) : Prop where
  queue : HasDeadLetterExchange s.server (s.server.queueArgs q)
  callbacks : ∀ c ∈ s.pending, c.queueName = q → HasDeadLetterExchange s.server c.queueArgs

section OfQueue

variable (q : GoString)

@[simp] theorem ofQueue_nil : ofQueue q [] = [] := rfl

@[simp] theorem ofQueue_cons (p : GoString × MsgRef) (l : List (GoString × MsgRef)) :
    ofQueue q (p :: l) = if p.1 = q then p.2 :: ofQueue q l else ofQueue q l := by
  by_cases h : p.1 = q <;> simp [ofQueue, h]

@[simp] theorem ofQueue_append (l l' : List (GoString × MsgRef)) :
    ofQueue q (l ++ l') = ofQueue q l ++ ofQueue q l' := by
  simp [ofQueue]

end OfQueue

section Steps

variable {q : GoString} {s : Expiring}

theorem arrived_onExpired (env : Env) (c : Callback) {u : Server}
    (h : HasDeadLetterExchange u c.queueArgs) :
    Arrived ⟨c, u, onExpired env c.queueArgs u c.msg⟩ := by
  refine ⟨h, fun d x hd => ?_⟩
  rw [onExpired_eq]
  exact perm_deadLetter env c.msg c.queueArgs hd

theorem config_track (autoAck : Bool) (q : GoString) (channelID : UInt16) (m : MsgRef)
    (u : Server) : (track autoAck q channelID m u).config = u.config := by
  cases autoAck <;> rfl

theorem config_step (a : ExpiringAction) : (s.step a).server.config = s.server.config := by
  cases a with
  | scan env q =>
    simp only [step, scan]
    split
    · rfl
    · dsimp only
      split <;> rfl
  | callback env =>
    simp only [step, callback]
    split
    · rfl
    · dsimp only
      rw [onExpired_eq]
      exact (framed_deadLetter ..).config
  | get env q autoAck channelID =>
    simp only [step]
    cases hq : s.server.ready q with
    | nil => rw [get_of_nil env autoAck channelID hq]
    | cons m l =>
      rw [get_of_cons env autoAck channelID hq]
      split
      · rfl
      · exact config_track ..

theorem queueArgs_step (a : ExpiringAction) :
    (s.step a).server.queueArgs q = s.server.queueArgs q := by
  unfold queueArgs
  rw [show (s.step a).server.queues = s.server.queues from congrArg Config.queues (config_step a)]

theorem HasDeadLetterExchange.step {args : Table} (h : HasDeadLetterExchange s.server args)
    (a : ExpiringAction) : HasDeadLetterExchange (s.step a).server args := by
  unfold HasDeadLetterExchange
  rw [show (s.step a).server.exchanges = _ from congrArg Config.exchanges (config_step a)]
  exact h

theorem DeadLetters.step (h : DeadLetters q s) (a : ExpiringAction) : DeadLetters q (s.step a) := by
  refine ⟨by rw [queueArgs_step]; exact h.queue.step a, fun c hc hcq => ?_⟩
  refine HasDeadLetterExchange.step ?_ a
  cases a with
  | scan env q' =>
    simp only [Expiring.step, scan] at hc
    split at hc
    · exact h.callbacks c hc hcq
    · obtain ⟨m, -, rfl⟩ := mem_map.mp hc
      subst hcq
      exact h.queue
  | callback env =>
    simp only [Expiring.step, callback] at hc
    split at hc
    · exact h.callbacks c hc hcq
    · rename_i c' pending heq
      exact h.callbacks c (heq ▸ mem_cons_of_mem c' hc) hcq
  | get env q' autoAck channelID =>
    exact h.callbacks c ((get_keeps env q' autoAck channelID s).1 ▸ hc) hcq

theorem arrived_step (h : DeadLetters q s) (hr : ∀ r ∈ s.called, r.queueName = q → Arrived r)
    (a : ExpiringAction) : ∀ r ∈ (s.step a).called, r.queueName = q → Arrived r := by
  cases a with
  | scan env q' =>
    simp only [step, scan]
    split <;> exact hr
  | callback env =>
    simp only [step, callback]
    split
    · exact hr
    · rename_i c pending heq
      intro r hmem hrq
      rcases mem_append.mp hmem with hmem | hmem
      · exact hr r hmem hrq
      · obtain rfl := mem_singleton.mp hmem
        exact arrived_onExpired env c (h.callbacks c (heq ▸ mem_cons_self ..) hrq)
  | get env q' autoAck channelID =>
    exact (get_keeps env q' autoAck channelID s).2 ▸ hr

theorem step_of_drops {a : ExpiringAction} (hd : Drops q s a) :
    (∃ m, ofQueue q (s.step a).expired = ofQueue q s.expired ++ [m]) ∧
      (s.step a).routed = s.routed ∧ (s.step a).awaiting = s.awaiting := by
  cases a with
  | scan env q' => exact hd.elim
  | callback env => exact hd.elim
  | get env q' autoAck channelID =>
    obtain ⟨rfl, m, hm, hexp⟩ := hd
    obtain ⟨l, hq⟩ := List.head?_eq_some_iff.mp hm
    simp only [step]
    rw [get_of_cons env autoAck channelID hq, if_pos hexp]
    exact ⟨⟨m, by simp⟩, rfl, rfl⟩

theorem step_of_not_drops {a : ExpiringAction} (hd : ¬Drops q s a) :
    ∃ l, ofQueue q (s.step a).expired = ofQueue q s.expired ++ l ∧
      ofQueue q (s.step a).routed ++ ofQueue q (s.step a).awaiting =
        ofQueue q s.routed ++ ofQueue q s.awaiting ++ l := by
  cases a with
  | scan env q' =>
    cases hp : s.pending with
    | cons c pending =>
      refine ⟨[], ?_⟩
      simp [step, scan, hp]
    | nil =>
      refine ⟨ofQueue q (s.scan env q').awaiting, ?_⟩
      have hnone : s.awaiting = [] := by simp [awaiting, hp]
      have hgone : (s.scan env q').expired = s.expired ++ (s.scan env q').awaiting := by
        simp [scan, awaiting, Callback.entry, hp, Function.comp_def]
      have hrouted : (s.scan env q').routed = s.routed := by simp [scan, routed, hp]
      simp [step, hgone, hrouted, hnone]
  | callback env =>
    refine ⟨[], ?_⟩
    cases hp : s.pending with
    | nil => simp [step, callback, hp]
    | cons c pending =>
      simp only [step, callback, routed, awaiting, hp, map_append, map_cons]
      by_cases hc : c.queueName = q <;> simp [Callback.entry, hc]
  | get env q' autoAck channelID =>
    refine ⟨[], ?_⟩
    simp only [step]
    cases hq : s.server.ready q' with
    | nil => simp [get_of_nil env autoAck channelID hq]
    | cons m l =>
      rw [get_of_cons env autoAck channelID hq]
      split
      · rename_i hexp
        have hne : q' ≠ q := by
          rintro rfl
          exact hd ⟨rfl, m, by simp [hq], hexp⟩
        simp [hne, routed, awaiting]
      · simp [routed, awaiting]

/-- More messages have left than are routed or wait for it. -/
def Behind (q : GoString) (s : Expiring) : Prop :=
  (ofQueue q s.routed ++ ofQueue q s.awaiting).length < (ofQueue q s.expired).length

theorem Behind.step (hb : Behind q s) (a : ExpiringAction) : Behind q (s.step a) := by
  unfold Behind at hb ⊢
  by_cases hd : Drops q s a
  · obtain ⟨⟨m, hexp⟩, hrouted, hawait⟩ := step_of_drops hd
    rw [hexp, hrouted, hawait]
    exact hb.trans_le (by simp)
  · obtain ⟨l, hexp, hroute⟩ := step_of_not_drops hd
    rw [hexp, hroute]
    simp only [length_append] at hb ⊢
    omega

theorem RoutedOnce.step (hr : RoutedOnce q s) (h : DeadLetters q s) {a : ExpiringAction}
    (hd : ¬Drops q s a) : RoutedOnce q (s.step a) := by
  obtain ⟨l, hexp, hroute⟩ := step_of_not_drops hd
  refine ⟨?_, arrived_step h hr.arrived a⟩
  rw [hexp, hroute]
  exact hr.once.append_right l

theorem RoutedOnce.behind_step (hr : RoutedOnce q s) {a : ExpiringAction} (hd : Drops q s a) :
    Behind q (s.step a) := by
  obtain ⟨⟨m, hexp⟩, hrouted, hawait⟩ := step_of_drops hd
  unfold Behind
  rw [hexp, hrouted, hawait, ← hr.once.length_eq]
  simp

end Steps

theorem routedOnce_run_iff {q : GoString} (as : List ExpiringAction) {s : Expiring}
    (hr : RoutedOnce q s) (h : DeadLetters q s) :
    RoutedOnce q (as.foldl step s) ↔ Along step (fun s a => ¬Drops q s a) s as := by
  induction as generalizing s with
  | nil => exact iff_of_true hr trivial
  | cons a as ih =>
    rw [foldl_cons]
    by_cases hd : Drops q s a
    · -- what was dropped is never made up for
      refine iff_of_false (fun hr' => ?_) fun hall => hall.1 hd
      have hb : Behind q (as.foldl step (s.step a)) :=
        foldlRecOn as step (hr.behind_step hd) fun _ hs a _ => hs.step a
      exact absurd hr'.once.length_eq hb.ne'
    · rw [ih (hr.step h hd) (h.step a)]
      exact ⟨fun hall => ⟨hd, hall⟩, fun hall => hall.2⟩

/-- For every queue with a dead-letter exchange, every state of the broker and every schedule of
scans and requests: the expired messages that left the queue have come to the exchange once each, or
will by the running scan, exactly if no round of `Basic.Get` on the queue met an expired message. -/
theorem routedOnce_iff (server : Server) (q : GoString)
    (hdlx : HasDeadLetterExchange server (server.queueArgs q)) (as : List ExpiringAction) :
    RoutedOnce q (as.foldl step (start server)) ↔
      Along step (fun s a => ¬Drops q s a) (start server) as :=
  routedOnce_run_iff as ⟨.rfl, by simp [start]⟩ ⟨hdlx, by simp [start]⟩

def afterMs (ms : ℕ) : Env := { (default : Env) with now := ms * 1000000 }

/-- Messages of `q` live for five milliseconds and then go to `d` through `dlx`. Message `0` was
published at the start, message `1` four milliseconds later. -/
def twoMessages : Server :=
  let s := [ProtocolEvent.request default 0 (.queueDeclare (str "q") false false false false true
      [(str "x-message-ttl", .int32 5), (str "x-dead-letter-exchange", .string (str "dlx"))]),
    .request default 0 (.queueDeclare (str "d") false false false false true []),
    .request default 0 (.exchangeDeclare (str "ex") (str "fanout") false false false false true []),
    .request default 0
      (.exchangeDeclare (str "dlx") (str "fanout") false false false false true []),
    .request default 0 (.queueBind (str "q") (str "ex") [] true []),
    .request default 0 (.queueBind (str "d") (str "dlx") [] true [])].foldl protocolStep newServer
  ((s.publish (afterMs 0) (str "ex") [] 0 0).2.publish (afterMs 4) (str "ex") [] 1 0).2

/-- Six milliseconds after the start a request drops message `0` and returns message `1`. A scan at
that time routes message `0` to `d`. -/
theorem get_drops_expired :
    HasDeadLetterExchange twoMessages (twoMessages.queueArgs (str "q")) ∧
      twoMessages.ready (str "q") = [0, 1] ∧
      (newPullConsumer.get (afterMs 6) (str "q") true 1 twoMessages).1 = some 1 ∧
      (newPullConsumer.get (afterMs 6) (str "q") true 1 twoMessages).2.2.ready (str "d") = [] ∧
      (twoMessages.scanQueue (afterMs 6) (str "q")).ready (str "d") = [0] ∧
      (let s := [.get (afterMs 6) (str "q") true 1, .get (afterMs 6) (str "q") true 1].foldl step
        (start twoMessages)
      s.expired = [(str "q", 0)] ∧ s.pending.length = 0 ∧ s.called.length = 0 ∧
        s.server.ready (str "q") = []) := by
  decide +kernel

theorem routedOnce_scanFirst :
    HasDeadLetterExchange twoMessages (twoMessages.queueArgs (str "q")) ∧
      (let s := [.scan (afterMs 6) (str "q"), .callback (afterMs 6),
          .get (afterMs 6) (str "q") true 1].foldl step (start twoMessages)
      s.expired = [(str "q", 0)] ∧ s.routed = [(str "q", 0)] ∧
        s.server.ready (str "d") = [0] ∧ RoutedOnce (str "q") s) := by
  refine ⟨by decide +kernel, by decide +kernel, by decide +kernel, by decide +kernel, ?_⟩
  refine (routedOnce_iff twoMessages (str "q") (by decide +kernel) _).mpr ⟨id, id, ?_, trivial⟩
  rintro ⟨-, h⟩
  revert h
  decide +kernel

end Expiring

end Gomq.Broker
