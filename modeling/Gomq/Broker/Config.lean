import Gomq.Broker.Effects
import Gomq.Broker.Metadata

/-!
# The configuration of a broker

Exchanges, queues and the two kinds of bindings make up the configuration. `configure` says what a
request does to it, and `config_step` that the handlers do just that: every other method, publishing
and delivering included, leaves it alone. An invariant of the configuration is then one of
`configure` (`config_inv`).
-/

namespace Gomq.Broker

open Wire Server

structure Config where
  exchanges : GoMap GoString Exchange
  queues : GoMap GoString Queue
  bindings : BindingManager
  e2eBindings : E2EBindingManager

def Server.config (s : Server) : Config := ⟨s.exchanges, s.queues, s.bindings, s.e2eBindings⟩

def Request.configure : Request → Config → Config
  | .queueDeclare q passive durable exclusive autoDelete _ args, c =>
    if passive then c
    else { c with queues := c.queues.setNew q ⟨q, durable, exclusive, autoDelete, args, none⟩ }
  | .queueBind q e key _ args, c => { c with bindings := c.bindings.bind e q key args }
  | .queueDelete q _ _ _, c => { c with queues := c.queues.del q }
  | .queueUnbind q e key _, c => { c with bindings := c.bindings.unbind e q key }
  | .exchangeDeclare e exType passive _ _ _ _ args, c =>
    if passive then c
    else
      { c with exchanges :=
          c.exchanges.setNew e ⟨e, exchangeTypeOf exType, false, false, false, args⟩ }
  | .exchangeDelete e _ _, c =>
    { c with
      exchanges := c.exchanges.del e
      e2eBindings := c.e2eBindings.unbindAllForExchange e }
  | .exchangeBind dst src key _ args, c =>
    if c.e2eBindings.hasCycle src dst then c
    else { c with e2eBindings := E2EBindingManager.bind c.e2eBindings src dst key args }
  | .exchangeUnbind dst src key _, c =>
    { c with e2eBindings := E2EBindingManager.unbind c.e2eBindings src dst key }
  | _, c => c

/-! ## Protocol events -/

/-- The methods whose handlers do not decode a request. -/
inductive ControlMethod where
  | channelOpen
  | channelRecover
  | channelFlow
  | channelClose
  | channelCloseOk
  | connectionClose
  | connectionCloseOk
  | txSelect
  | txCommit
  | txRollback
  deriving DecidableEq

namespace ControlMethod

def ids : ControlMethod → UInt16 × UInt16
  | channelOpen => (20, 10)
  | channelRecover => (20, 100)
  | channelFlow => (20, 20)
  | channelClose => (20, 40)
  | channelCloseOk => (20, 41)
  | connectionClose => (10, 50)
  | connectionCloseOk => (10, 51)
  | txSelect => (90, 10)
  | txCommit => (90, 20)
  | txRollback => (90, 30)

def handler : ControlMethod → MethodHandler
  | channelOpen => handleChannelOpen
  | channelRecover => handleChannelRecover
  | channelFlow => handleChannelFlow
  | channelClose => handleChannelClose
  | channelCloseOk => handleChannelCloseOk
  | connectionClose => handleConnectionClose
  | connectionCloseOk => handleConnectionCloseOk
  | txSelect => handleTxSelect
  | txCommit => handleTxCommit
  | txRollback => handleTxRollback

end ControlMethod

/-- A request of a client on a channel: a method on its argument values, or one of the methods
without a request. -/
inductive ProtocolEvent where
  | request (env : Env) (ch : ChanRef) (req : Request)
  | control (env : Env) (ch : ChanRef) (m : ControlMethod) (payload : Bytes)

def protocolStep (s : Server) : ProtocolEvent → Server
  | .request env ch req => (exec env ch req s).2
  | .control env ch m payload => (m.handler env ch payload s).2

/-! ## What leaves the configuration alone -/

namespace Server

theorem Framed.config {s s' : Server} (h : Framed s s') : s'.config = s.config := by
  unfold Server.config
  rw [h.exchanges, h.queues, h.bindings, h.e2eBindings]

section Frame

variable (s : Server)

@[simp] theorem config_reply (ch : ChanRef) (payload : Bytes) :
    (s.reply ch payload).config = s.config := by
  obtain ⟨k, hk⟩ := s.reply_eq ch payload
  rw [hk]
  rfl

@[simp] theorem config_replyUnless (noWait : Bool) (ch : ChanRef) (payload : Bytes) :
    (s.replyUnless noWait ch payload).config = s.config := by
  unfold replyUnless
  split
  · rfl
  · exact s.config_reply ch payload

theorem config_subscribe (tag q : GoString) (ch : Option ChanRef) (autoAck exclusive : Bool)
    (args : Table) :
    (s.subscribe tag q ch autoAck exclusive args).2.config = s.config := by
  unfold subscribe
  split
  · rfl
  · split <;> rfl

theorem config_unsubscribe (env : Env) (tag : GoString) :
    (s.unsubscribe env tag).config = s.config := by
  unfold unsubscribe
  split <;> rfl

theorem config_getLoop (env : Env) (q : GoString) (args : Table) (n : ℕ) :
    (getLoop env q args n s).2.config = s.config := by
  obtain ⟨st, hst⟩ := getLoop_store env q args n s
  rw [hst]
  rfl

theorem config_performGet (env : Env) (ch : ChanRef) (q : GoString) (noAck : Bool) :
    (s.performGet env ch q noAck).2.config = s.config := by
  have hloop := s.config_getLoop env q (s.queueArgs q) ((s.ready q).length + 1)
  unfold performGet PullConsumer.get
  rcases h : getLoop env q (s.queueArgs q) ((s.ready q).length + 1) s with ⟨_ | m, u⟩
  · rw [h] at hloop
    simpa using hloop
  · rw [h] at hloop
    cases noAck with
    | true => simpa using hloop
    | false =>
      simp only [Bool.false_eq_true, if_false, config_reply]
      exact hloop

theorem config_ack (tag : UInt64) (c : UInt16) : (s.ack tag c).2.config = s.config := by
  unfold ack
  split
  · rfl
  · split <;> rfl

theorem config_nack (tag : UInt64) (c : UInt16) (requeue : Bool) :
    (s.nack tag c requeue).2.config = s.config := by
  unfold nack
  split
  · rfl
  · split
    · rfl
    · cases requeue <;> rfl

theorem config_deadLetterRefused (env : Env) (d : Option TrackedDelivery) (requeue : Bool) :
    (deadLetterRefused env d requeue s).config = s.config := by
  unfold deadLetterRefused
  split
  · split
    · exact (framed_deadLetter env _ _ s).config
    · rfl
  · rfl

theorem config_recoverAll (env : Env) (c : UInt16) (requeue : Bool) :
    (s.recoverAll env c requeue).2.config = s.config := by
  have hfold : ∀ (l : List TrackedDelivery) (u : Server),
      (l.foldl (fun s d => s.enqueue d.queueName d.msg) u).config = u.config := by
    intro l
    induction l with
    | nil => exact fun _ => rfl
    | cons d l ih => exact fun u => ih (u.enqueue d.queueName d.msg)
  unfold recoverAll
  split
  · rfl
  · cases requeue with
    | false => rfl
    | true => exact hfold _ s

theorem config_performPublish (env : Env) (ch : ChanRef) (ex key : GoString) (mandatory : Bool) :
    (s.performPublish env ch ex key mandatory).2.config = s.config := by
  refine performPublish_inv (P := fun u => u.config = s.config) env mandatory ?_ ?_ ?_ ?_
  · exact fun _ => rfl
  · exact fun _ => (framed_publish ..).config
  · exact fun _ => (framed_publish ..).config
  · exact fun u payload hu => (u.config_reply ch payload).trans hu

theorem config_performConsume (ch : ChanRef) (q tag : GoString) (noAck exclusive noWait : Bool)
    (args : Table) :
    (s.performConsume ch q tag noAck exclusive noWait args).2.config = s.config :=
  performConsume_inv (P := fun u => u.config = s.config)
    (s.config_subscribe tag q (some ch) noAck exclusive args)
    fun u payload hu => (u.config_replyUnless noWait ch payload).trans hu

theorem config_performQueueDeclare (env : Env) (ch : ChanRef) (q : GoString)
    (passive durable exclusive autoDelete noWait : Bool) (args : Table) :
    (s.performQueueDeclare env ch q passive durable exclusive autoDelete noWait args).2.config =
      (Request.queueDeclare q passive durable exclusive autoDelete noWait args).configure
        s.config := by
  refine performQueueDeclare_inv (P := fun u => u.config = (Request.queueDeclare q passive durable
    exclusive autoDelete noWait args).configure s.config) env ?_ ?_ ?_
  · rintro rfl
    rfl
  · rintro rfl
    exact congrArg config
      (declareQueue_eq env s ⟨q, durable, exclusive, autoDelete, args⟩)
  · exact fun u payload hu => (u.config_replyUnless noWait ch payload).trans hu

theorem config_performExchangeDeclare (ch : ChanRef) (e exType : GoString)
    (passive durable autoDelete internal noWait : Bool) (args : Table) :
    (s.performExchangeDeclare ch e exType passive noWait args).2.config =
      (Request.exchangeDeclare e exType passive durable autoDelete internal noWait args).configure
        s.config := by
  refine performExchangeDeclare_inv (P := fun u => u.config = (Request.exchangeDeclare e exType
    passive durable autoDelete internal noWait args).configure s.config) ?_ ?_ ?_
  · rintro rfl
    rfl
  · rintro rfl
    exact congrArg config
      (s.declareExchange_eq ⟨e, exchangeTypeOf exType, false, false, false, args⟩)
  · exact fun u payload hu => (u.config_replyUnless noWait ch payload).trans hu

end Frame

end Server

theorem config_perform (env : Env) (ch : ChanRef) (req : Request) (s : Server) :
    (perform env ch req s).2.config = req.configure s.config := by
  cases req with
  | qos size count global => exact config_reply _ ch _
  | consume q tag nl na ex nw args => exact s.config_performConsume ch q tag na ex nw args
  | cancel tag nw =>
    exact (config_replyUnless _ nw ch _).trans (s.config_unsubscribe env tag)
  | publish ex key mandatory immediate => exact s.config_performPublish env ch ex key mandatory
  | get q noAck => exact s.config_performGet env ch q noAck
  | ack tag => exact s.config_ack tag _
  | reject tag requeue | nack tag requeue =>
    exact (config_deadLetterRefused _ env _ requeue).trans (s.config_nack tag _ requeue)
  | recover requeue => exact (config_reply _ ch _).trans (s.config_recoverAll env _ requeue)
  | queueDeclare q p d e a n args => exact s.config_performQueueDeclare env ch q p d e a n args
  | queueUnbind q e key args => exact config_reply _ ch _
  | exchangeDeclare e ty p d a i n args =>
    exact s.config_performExchangeDeclare ch e ty p d a i n args
  | exchangeBind dst src key nw args =>
    dsimp only [perform, performExchangeBind, Request.configure, config]
    split
    · rfl
    · exact config_replyUnless _ nw ch _
  | queueBind _ _ _ nw | queuePurge _ nw | queueDelete _ _ _ nw | exchangeDelete _ _ nw
  | exchangeUnbind _ _ _ nw | confirmSelect nw => exact config_replyUnless _ nw ch _

theorem config_closeConnection (s : Server) (c : ConnRef) :
    (s.closeConnection c).config = s.config :=
  closeConnection_inv (P := fun u => u.config = s.config) (fun _ _ hu => hu)
    (fun _ _ hu => hu) rfl

theorem config_control (env : Env) (ch : ChanRef) (m : ControlMethod) (payload : Bytes)
    (s : Server) : (m.handler env ch payload s).2.config = s.config := by
  cases m with
  | channelOpen => exact config_reply _ ch _
  | channelRecover =>
    show (handleChannelRecover env ch payload s).2.config = _
    unfold handleChannelRecover
    split
    · rfl
    · exact (config_reply _ ch _).trans (s.config_recoverAll env _ _)
  | channelFlow =>
    show (handleChannelFlow env ch payload s).2.config = _
    unfold handleChannelFlow
    split
    · rfl
    · exact config_reply _ ch _
  | channelClose => exact config_reply s ch _
  | channelCloseOk => rfl
  | connectionClose => exact (config_closeConnection _ _).trans (s.config_reply ch _)
  | connectionCloseOk => rfl
  | txSelect =>
    show (handleTxSelect env ch payload s).2.config = _
    unfold handleTxSelect
    split
    · exact config_reply s ch _
    · exact config_reply _ ch _
  | txCommit =>
    exact txCommit_inv (P := fun u => u.config = s.config) env payload
      (framed_publishEntries ..).config fun u hu => (u.config_reply ch _).trans hu
  | txRollback => exact config_reply _ ch _

/-- An event leaves the configuration alone or does to it what its request says. -/
theorem config_step (s : Server) (ev : ProtocolEvent) :
    (protocolStep s ev).config = s.config ∨
      ∃ req : Request, (protocolStep s ev).config = req.configure s.config := by
  cases ev with
  | request env ch req =>
    have hexec : (exec env ch req s).2 = s ∨ (exec env ch req s).2 = (perform env ch req s).2 := by
      unfold exec
      split
      · exact Or.inl rfl
      · exact Or.inr rfl
    rcases hexec with heq | heq
    · exact Or.inl (congrArg config heq)
    · exact Or.inr ⟨req, (congrArg config heq).trans (config_perform env ch req s)⟩
  | control env ch m payload => exact Or.inl (config_control env ch m payload s)

theorem config_inv {I : Config → Prop} (hI : ∀ req c, I c → I (Request.configure req c))
    {s : Server} (h : I s.config) (ev : ProtocolEvent) : I (protocolStep s ev).config := by
  rcases config_step s ev with heq | ⟨req, heq⟩ <;> rw [heq]
  · exact h
  · exact hI req s.config h

end Gomq.Broker
