import Gomq.Broker.Expired

/-!
# The callbacks of an expiry scan

`RemoveExpired` splits its queue under the lock of the store and calls back after it has released
it. A callback may therefore put messages into any queue, the scanned one included, as a dead letter
does. `removeExpired_accounts` says what each part does: the callbacks get the messages that had
expired, once each and in order, and the queue has the others, followed by what was put in. The scan
of the broker is one of these (`server_removeExpired`).
-/

namespace Gomq.Broker

open Wire Expiring

/-! ## Calls of `Enqueue` -/

namespace Server

def enqueueCalls (s : Server) (calls : List (GoString × MsgRef)) : Server :=
  calls.foldl (fun s c => s.enqueue c.1 c.2) s

theorem ready_enqueueCalls (s : Server) (calls : List (GoString × MsgRef)) (q : GoString) :
    (s.enqueueCalls calls).ready q = s.ready q ++ ofQueue q calls :=
  ready_foldl_enqueue Prod.fst Prod.snd calls s q

end Server

/-- A closure to be passed as `onExpired`. Beside the broker it has the variables that it captured.
It writes the store by calls of `Enqueue` only, which are `enqueues`. -/
structure EnqueueCallback (σ : Type) where
  run : σ → Server → MsgRef → σ × Server
  enqueues : σ → Server → MsgRef → List (GoString × MsgRef)
  store_run : ∀ vars s msg, (run vars s msg).2.store = (s.enqueueCalls (enqueues vars s msg)).store

namespace EnqueueCallback

variable {σ : Type} (callback : EnqueueCallback σ)

/-- The variables and the broker after one call for each message. -/
def runAll (l : List MsgRef) (p : σ × Server) : σ × Server :=
  l.foldl (fun p msg => callback.run p.1 p.2 msg) p

def enqueuesAll : List MsgRef → σ × Server → List (GoString × MsgRef)
  | [], _ => []
  | msg :: l, p => callback.enqueues p.1 p.2 msg ++ enqueuesAll l (callback.run p.1 p.2 msg)

end EnqueueCallback

/-! ## The scan of a queue -/

/-- A scan with a callback. The last two fields are history, which no step reads: the messages that
were passed to the callback, and its calls of `Enqueue`. -/
structure Scan (σ : Type) where
  vars : σ
  server : Server
  passed : List MsgRef
  enqueued : List (GoString × MsgRef)

/-- The loop that is under the lock: the messages alive and those expired. -/
def splitExpired (isExpired : MsgRef → Bool) (queue : List MsgRef) : List MsgRef × List MsgRef :=
  queue.foldl (fun (alive, expired) msg =>
    if isExpired msg then (alive, expired ++ [msg]) else (alive ++ [msg], expired)) ([], [])

namespace Scan

variable {σ : Type}

def start (vars : σ) (server : Server) : Scan σ := ⟨vars, server, [], []⟩

def call (callback : EnqueueCallback σ) (s : Scan σ) (msg : MsgRef) : Scan σ :=
  let r := callback.run s.vars s.server msg
  { vars := r.1
    server := r.2
    passed := s.passed ++ [msg]
    enqueued := s.enqueued ++ callback.enqueues s.vars s.server msg }

/-- `RemoveExpired`, as in `Server.removeExpired` but for a callback with variables of its own, and
with a predicate that may tell apart two messages with the same contents. -/
def removeExpired (callback : EnqueueCallback σ) (queueName : GoString)
    (isExpired : MsgRef → Bool) (s : Scan σ) : Scan σ :=
  match s.server.ready queueName with
  | [] => s
  | q =>
    let (alive, expired) := splitExpired isExpired q
    expired.foldl (call callback)
      { s with server := { s.server with store := s.server.store.set queueName alive } }

end Scan

/-! ## What the loops do -/

theorem splitExpired_eq (isExpired : MsgRef → Bool) (queue : List MsgRef) :
    splitExpired isExpired queue =
      (queue.filter fun m => !isExpired m, queue.filter isExpired) := by
  have hloop : ∀ (l alive expired : List MsgRef),
      l.foldl (fun (alive, expired) msg =>
        if isExpired msg then (alive, expired ++ [msg]) else (alive ++ [msg], expired))
        (alive, expired) =
      (alive ++ l.filter fun m => !isExpired m, expired ++ l.filter isExpired) := by
    intro l
    induction l with
    | nil => simp
    | cons m l ih =>
      intro alive expired
      rw [List.foldl_cons]
      by_cases h : isExpired m = true <;> simp [h, ih]
  exact hloop queue [] []

namespace Scan

variable {σ : Type}

/-- The queues of `server` have grown by what the callbacks enqueued. -/
def Accounts (server : Server) (s : Scan σ) : Prop :=
  ∀ q, s.server.ready q = server.ready q ++ ofQueue q s.enqueued

variable (callback : EnqueueCallback σ)

theorem Accounts.call {server : Server} {s : Scan σ} (h : Accounts server s) (msg : MsgRef) :
    Accounts server (s.call callback msg) := by
  intro q
  have hready : (s.call callback msg).server.ready q =
      s.server.ready q ++ ofQueue q (callback.enqueues s.vars s.server msg) := by
    rw [← Server.ready_enqueueCalls]
    unfold Server.ready
    rw [← callback.store_run]
    rfl
  rw [hready, h q, List.append_assoc, ← ofQueue_append]
  rfl

theorem accounts_calls {server : Server} {s : Scan σ} (h : Accounts server s) (l : List MsgRef) :
    Accounts server (l.foldl (Scan.call callback) s) :=
  List.foldlRecOn l _ h fun _ hu m _ => hu.call callback m

theorem foldl_call (l : List MsgRef) (s : Scan σ) :
    l.foldl (Scan.call callback) s =
      ⟨(callback.runAll l (s.vars, s.server)).1, (callback.runAll l (s.vars, s.server)).2,
        s.passed ++ l, s.enqueued ++ callback.enqueuesAll l (s.vars, s.server)⟩ := by
  induction l generalizing s with
  | nil => simp [EnqueueCallback.runAll, EnqueueCallback.enqueuesAll]
  | cons m l ih =>
    rw [List.foldl_cons, ih]
    simp [Scan.call, EnqueueCallback.runAll, EnqueueCallback.enqueuesAll]

theorem removeExpired_eq (q : GoString) (isExpired : MsgRef → Bool) (s : Scan σ) :
    s.removeExpired callback q isExpired =
      if s.server.ready q = [] then s
      else ((s.server.ready q).filter isExpired).foldl (Scan.call callback)
        { s with server :=
          { s.server with store :=
            s.server.store.set q ((s.server.ready q).filter fun m => !isExpired m) } } := by
  unfold removeExpired
  split
  · next h => rw [if_pos h]
  · next h => rw [if_neg h, splitExpired_eq]

/-- A callback that has no use for variables of its own makes the scan of the broker. -/
theorem server_removeExpired {onExpired : Server → MsgRef → Server}
    (hrun : ∀ vars s msg, (callback.run vars s msg).2 = onExpired s msg) (vars : σ)
    (server : Server) (q : GoString) (isExpired : Message → Bool) :
    ((start vars server).removeExpired callback q fun m => isExpired (server.msgs.read m)).server =
      server.removeExpired q isExpired onExpired := by
  have hcalls : ∀ (l : List MsgRef) (s : Scan σ),
      (l.foldl (Scan.call callback) s).server = l.foldl onExpired s.server := fun l s =>
    (List.foldl_hom Scan.server fun u m => (hrun u.vars u.server m).symm).symm
  unfold removeExpired Server.removeExpired start
  cases server.ready q with
  | nil => rfl
  | cons m l =>
    dsimp only
    rw [splitExpired_eq]
    exact hcalls _ _

/-- For every broker, queue, predicate and callback, in a scan that runs alone: the messages in the
queue for which the predicate holds are passed to the callback once each and in order, and the queue
then has the others, in order, followed by those that the callbacks put in. The other queues have
what they had, followed by what was put into them. The callbacks start from the broker with the
queue cut, and nothing but their calls has written the variables or the broker since. -/
theorem removeExpired_accounts (vars : σ) (server : Server) (queueName : GoString)
    (isExpired : MsgRef → Bool) :
    let s := (start vars server).removeExpired callback queueName isExpired
    let alive := (server.ready queueName).filter fun m => !isExpired m
    let cut : Server :=
      if server.ready queueName = [] then server
      else { server with store := server.store.set queueName alive }
    s.passed = (server.ready queueName).filter isExpired ∧
      s.server.ready queueName = alive ++ ofQueue queueName s.enqueued ∧
      (∀ q, q ≠ queueName → s.server.ready q = server.ready q ++ ofQueue q s.enqueued) ∧
      (s.vars, s.server) = callback.runAll s.passed (vars, cut) ∧
      s.enqueued = callback.enqueuesAll s.passed (vars, cut) := by
  dsimp only
  rw [removeExpired_eq]
  by_cases hempty : server.ready queueName = []
  · simp [start, hempty, EnqueueCallback.runAll, EnqueueCallback.enqueuesAll]
  · rw [if_neg (show (start vars server).server.ready queueName ≠ [] from hempty), if_neg hempty]
    set alive := (server.ready queueName).filter fun m => !isExpired m
    set cut : Server := { server with store := server.store.set queueName alive }
    have hcut : Accounts cut (start vars cut) := fun q => (List.append_nil _).symm
    have hall := accounts_calls callback hcut ((server.ready queueName).filter isExpired)
    have hcalls := foldl_call callback ((server.ready queueName).filter isExpired) (start vars cut)
    refine ⟨congrArg passed hcalls, ?_, fun q hq => ?_, ?_, ?_⟩
    · rw [← server.ready_set queueName alive]
      exact hall queueName
    · rw [← server.ready_set_ne alive hq]
      exact hall q
    · exact hcalls ▸ rfl
    · exact hcalls ▸ rfl

/-- Puts every message back into `q`, and counts them. -/
def requeueTo (q : GoString) : EnqueueCallback ℕ where
  run := fun n s msg => (n + 1, s.enqueue q msg)
  enqueues := fun _ _ msg => [(q, msg)]
  store_run := fun _ _ _ => rfl

example :
    let server := newServer.enqueueCalls [(str "q", 0), (str "q", 1), (str "q", 2)]
    let s := (start 0 server).removeExpired (requeueTo (str "q")) (str "q") (· ≠ 1)
    s.passed = [0, 2] ∧ s.server.ready (str "q") = [1, 0, 2] ∧ s.vars = 2 := by
  decide

end Scan

end Gomq.Broker
