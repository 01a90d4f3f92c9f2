import Gomq.Broker.Connection
import Gomq.Broker.Metadata
import Gomq.Broker.Settle

/-!
# The limit of a channel manager

`NewConnection` makes a channel manager for 2048 channels. No handler, no event of the frame loop
and no creation of a channel writes that number, so every connection of every run has it
(`run_allows2048`), and a channel number is refused for its size exactly if it is above 2048.
-/

namespace Gomq.Broker

open Wire Server

def Allows2048 (s : Server) : Prop := ∀ c, (s.conns.read c).maxCh = 2048

namespace Allows2048

variable {s s' : Server}

theorem of_conns (h : Allows2048 s) (heq : s'.conns = s.conns) : Allows2048 s' := by
  unfold Allows2048
  rw [heq]
  exact h

theorem modify (h : Allows2048 s) (c : ConnRef) {f : Connection → Connection}
    (hf : ∀ k, (f k).maxCh = k.maxCh) : Allows2048 { s with conns := s.conns.modify c f } := by
  intro c'
  exact (Heap.part_read_modify Connection.maxCh f hf).trans (h c')

theorem sendFrame (h : Allows2048 s) (c : ConnRef) (f : Frame) :
    Allows2048 (s.sendFrame c f).2 := by
  unfold Server.sendFrame
  split
  · exact h
  · split <;> exact h
  · split
    · exact h
    · exact h.modify c fun _ => rfl

theorem reply (h : Allows2048 s) {ch : ChanRef} {payload : Bytes} (heq : s'.conns = s.conns) :
    Allows2048 (s'.reply ch payload) := (h.of_conns heq).sendFrame _ _

theorem replyUnless (h : Allows2048 s) {noWait : Bool} {ch : ChanRef} {payload : Bytes}
    (heq : s'.conns = s.conns) : Allows2048 (s'.replyUnless noWait ch payload) := by
  unfold Server.replyUnless
  split
  · exact h.of_conns heq
  · exact h.reply heq

theorem closeConnection (h : Allows2048 s) (c : ConnRef) : Allows2048 (s.closeConnection c) := by
  unfold Server.closeConnection
  split
  · exact h
  · exact h
  · refine modify ?_ c fun _ => rfl
    exact List.foldlRecOn (motive := Allows2048) _ _ (h.modify c fun _ => rfl)
      fun u hu _ _ => hu.of_conns rfl

/-! ## Requests -/

section Requests

variable (env : Env) (ch : ChanRef)

theorem performPublish (h : Allows2048 s) (ex key : GoString) (mandatory : Bool) :
    Allows2048 (s.performPublish env ch ex key mandatory).2 := by
  refine performPublish_inv (P := Allows2048) env mandatory ?_ ?_ ?_ ?_
  · exact fun _ => h.of_conns rfl
  · exact fun _ => h.of_conns (framed_publish ..).conns
  · exact fun _ => h.of_conns (framed_publish ..).conns
  · exact fun _ _ hu => hu.reply rfl

theorem performGet (h : Allows2048 s) (q : GoString) (noAck : Bool) :
    Allows2048 (s.performGet env ch q noAck).2 := by
  obtain ⟨st, hst⟩ := getLoop_store env q (s.queueArgs q) ((s.ready q).length + 1) s
  have hfetch : (s.fetch env q).2 = { s with store := st } := hst
  rcases hq : s.fetch env q with ⟨_ | m, u⟩ <;> rw [hq] at hfetch <;>
    obtain rfl : u = { s with store := st } := hfetch
  · obtain ⟨payload, hget⟩ := performGet_empty ch hq noAck
    rw [hget]
    exact h.reply rfl
  cases noAck with
  | true =>
    obtain ⟨payload, hget⟩ := performGet_noAck ch hq
    rw [hget]
    exact h.reply rfl
  | false =>
    obtain ⟨payload, hget⟩ := performGet_ack ch hq
    rw [hget]
    exact h.reply rfl

theorem ack (h : Allows2048 s) (tag : UInt64) (c : UInt16) : Allows2048 (s.ack tag c).2 := by
  unfold Server.ack
  split
  · exact h
  · split
    · exact h
    · exact h.of_conns rfl

theorem refuse (h : Allows2048 s) (tag : UInt64) (c : UInt16) (d : Option TrackedDelivery)
    (requeue : Bool) :
    Allows2048 (deadLetterRefused env d requeue (s.nack tag c requeue).2) := by
  obtain ⟨st, tr, heq⟩ := s.nack_eq tag c requeue
  rw [heq]
  have hnack : Allows2048 { s with store := st, tracker := tr } := h.of_conns rfl
  unfold deadLetterRefused
  split
  · split
    · exact hnack.of_conns (framed_deadLetter ..).conns
    · exact hnack
  · exact hnack

theorem recoverAll (h : Allows2048 s) (c : UInt16) (requeue : Bool) :
    Allows2048 (s.recoverAll env c requeue).2 := by
  obtain ⟨st, tr, heq⟩ := s.recoverAll_eq env c requeue
  rw [heq]
  exact h.of_conns rfl

theorem performConsume (h : Allows2048 s) (q tag : GoString) (noAck exclusive noWait : Bool)
    (args : Table) : Allows2048 (s.performConsume ch q tag noAck exclusive noWait args).2 := by
  have hsub : Allows2048 (s.subscribe tag q (some ch) noAck exclusive args).2 := by
    unfold subscribe
    split
    · exact h
    · split
      · exact h
      · exact h.of_conns rfl
  exact performConsume_inv hsub fun _ _ hu => hu.replyUnless rfl

theorem performCancel (h : Allows2048 s) (tag : GoString) (noWait : Bool) :
    Allows2048 (s.performCancel env ch tag noWait).2 := by
  refine h.replyUnless ?_
  unfold unsubscribe
  split <;> rfl

theorem performQueueDeclare (h : Allows2048 s) (q : GoString)
    (passive durable exclusive autoDelete noWait : Bool) (args : Table) :
    Allows2048 (s.performQueueDeclare env ch q passive durable exclusive autoDelete noWait
      args).2 := by
  refine performQueueDeclare_inv env (fun _ => h) (fun _ => ?_) fun _ _ hu =>
    hu.replyUnless rfl
  rw [declareQueue_eq env s ⟨q, durable, exclusive, autoDelete, args⟩]
  exact h.of_conns rfl

theorem performExchangeDeclare (h : Allows2048 s) (e exType : GoString) (passive noWait : Bool)
    (args : Table) : Allows2048 (s.performExchangeDeclare ch e exType passive noWait args).2 := by
  refine performExchangeDeclare_inv (fun _ => h) (fun _ => ?_) fun _ _ hu =>
    hu.replyUnless rfl
  rw [s.declareExchange_eq ⟨e, exchangeTypeOf exType, false, false, false, args⟩]
  exact h.of_conns rfl

theorem performExchangeBind (h : Allows2048 s) (dst src key : GoString) (noWait : Bool)
    (args : Table) : Allows2048 (s.performExchangeBind ch dst src key noWait args).2 := by
  unfold Server.performExchangeBind
  split
  · exact h
  · exact h.replyUnless rfl

theorem perform (h : Allows2048 s) (req : Request) : Allows2048 (perform env ch req s).2 := by
  cases req with
  | qos size count global => exact h.reply rfl
  | consume q tag nl na ex nw args => exact h.performConsume ch q tag na ex nw args
  | cancel tag nw => exact h.performCancel env ch tag nw
  | publish ex key mandatory immediate => exact h.performPublish env ch ex key mandatory
  | get q noAck => exact h.performGet env ch q noAck
  | ack tag => exact h.ack tag _
  | reject tag requeue => exact h.refuse env tag _ _ requeue
  | recover requeue => exact (h.recoverAll env _ requeue).reply rfl
  | nack tag requeue => exact h.refuse env tag _ _ requeue
  | queueDeclare q p d e a n args => exact h.performQueueDeclare env ch q p d e a n args
  | queueBind q e key nw args => exact h.replyUnless rfl
  | queuePurge q nw => exact h.replyUnless rfl
  | queueDelete q u e nw => exact h.replyUnless rfl
  | queueUnbind q e key args => exact h.reply rfl
  | exchangeDeclare e ty p d a i n args => exact h.performExchangeDeclare ch e ty p n args
  | exchangeDelete e u nw => exact h.replyUnless rfl
  | exchangeBind dst src key nw args => exact h.performExchangeBind ch dst src key nw args
  | exchangeUnbind dst src key nw => exact h.replyUnless rfl
  | confirmSelect nw => exact h.replyUnless rfl

theorem handleWith (h : Allows2048 s) (decode : Check → Decoder Request) (payload : Bytes) :
    Allows2048 (handleWith decode env ch payload s).2 := by
  unfold Broker.handleWith
  split
  · exact h
  · exact h.perform env ch _

/-! ## The other methods -/

theorem channelRecover (h : Allows2048 s) (payload : Bytes) :
    Allows2048 (handleChannelRecover env ch payload s).2 := by
  unfold handleChannelRecover
  split
  · exact h
  · exact (h.recoverAll env _ _).reply rfl

theorem channelFlow (h : Allows2048 s) (payload : Bytes) :
    Allows2048 (handleChannelFlow env ch payload s).2 := by
  unfold handleChannelFlow
  split
  · exact h
  · exact h.reply rfl

theorem txSelect (h : Allows2048 s) (payload : Bytes) :
    Allows2048 (handleTxSelect env ch payload s).2 := by
  unfold handleTxSelect
  split
  · exact (h.reply rfl).of_conns rfl
  · exact h.reply rfl

theorem txCommit (h : Allows2048 s) (payload : Bytes) :
    Allows2048 (handleTxCommit env ch payload s).2 :=
  txCommit_inv (P := Allows2048) env payload
    (h.of_conns (framed_publishEntries ..).conns) fun _ hu => hu.reply rfl

theorem registry (h : Allows2048 s) (payload : Bytes) :
    ∀ p ∈ registry, Allows2048 (p.2 env ch payload s).2 := by
  have hwith := fun decode => h.handleWith env ch decode payload
  simp only [Broker.registry, List.forall_mem_cons]
  exact ⟨h.reply rfl, h.channelRecover env ch payload,
    (h.reply rfl).closeConnection _, h, h.channelFlow env ch payload,
    (h.reply rfl).of_conns rfl, h, hwith _, hwith _, hwith _, hwith _, hwith _, hwith _, hwith _,
    hwith _, hwith _, hwith _, hwith _, hwith _, hwith _, hwith _, hwith _, hwith _, hwith _,
    hwith _, hwith _, h.txSelect env ch payload, h.txCommit env ch payload,
    h.reply rfl, List.forall_mem_nil _⟩

theorem dispatch (h : Allows2048 s) (f : Frame) : Allows2048 (dispatch env ch f s).2 := by
  unfold Broker.dispatch
  split
  · exact h
  · split
    · exact h
    · split
      · exact h
      · split
        · exact h
        · rename_i handler hlookup
          obtain ⟨l₁, l₂, hsplit, -⟩ := List.lookup_eq_some_iff.mp hlookup
          have hall := h.registry env ch f.payload
          rw [hsplit] at hall
          exact hall _ (List.mem_append_right _ List.mem_cons_self)

end Requests

/-! ## Runs -/

theorem serveStep (h : Allows2048 s) (c : ConnRef) (ev : ConnEvent) :
    Allows2048 (serveStep c s ev) := by
  have hfinish : ∀ r : Outcome, Allows2048 r.2 → Allows2048 (finish c r) := by
    rintro ⟨_ | e, u⟩ hu
    · exact hu
    · exact closeConnection hu c
  unfold Broker.serveStep
  split
  · exact h
  · cases ev with
    | frame env f =>
      dsimp only
      split
      · refine hfinish _ ?_
        unfold handleConnectionFrame
        split
        · exact h
        · dsimp only
          split
          · exact h.closeConnection c
          · exact h
      · refine hfinish _ ?_
        unfold handleChannelFrame
        split
        · exact h
        · exact h.dispatch env _ f
    | readError => exact h.closeConnection c
    | tick silent =>
      cases silent with
      | true => exact h.closeConnection c
      | false => exact h.sendFrame c _

theorem systemStep (h : Allows2048 s) (ev : SystemEvent) : Allows2048 (systemStep s ev) := by
  cases ev with
  | accept username vhost =>
    intro c
    show ((s.conns.alloc (negotiated username vhost)).read c).maxCh = 2048
    by_cases hc : c = s.conns.next
    · rw [hc, Heap.read_alloc_self]; rfl
    · rw [Heap.read_alloc_ne hc]; exact h c
  | on c ev => exact h.serveStep c ev

theorem createChannel (h : Allows2048 s) {c : ConnRef} {id : UInt16}
    (hok : s.createChannel c id = .ok s') : Allows2048 s' := by
  unfold Server.createChannel at hok
  dsimp only at hok
  split at hok
  · cases hok
  · split at hok
    · cases hok
    · split at hok
      · cases hok
      · cases hok
        exact modify (s := { s with chans := _ }) (h.of_conns rfl) c fun _ => rfl

end Allows2048

inductive ManagedEvent where
  | system (ev : SystemEvent)
  | create (c : ConnRef) (id : UInt16)

def managedStep (s : Server) : ManagedEvent → Server
  | .system ev => systemStep s ev
  | .create c id =>
    match s.createChannel c id with
    | .ok s' => s'
    | .error _ => s

theorem Allows2048.managedStep {s : Server} (h : Allows2048 s) (ev : ManagedEvent) :
    Allows2048 (managedStep s ev) := by
  cases ev with
  | system ev => exact h.systemStep ev
  | create c id =>
    unfold Broker.managedStep
    dsimp only
    split
    · rename_i s' hok
      exact h.createChannel hok
    · exact h

theorem run_allows2048 {s : Server} (h : Allows2048 s) (evs : List ManagedEvent) :
    Allows2048 (evs.foldl managedStep s) :=
  List.foldlRecOn (motive := Allows2048) evs managedStep h fun _ hu ev _ => hu.managedStep ev

theorem createChannel_le {s s' : Server} {c : ConnRef} {id : UInt16}
    (h : s.createChannel c id = .ok s') : id ≤ (s.conns.read c).maxCh := by
  unfold createChannel at h
  dsimp only at h
  split at h
  · cases h
  · split at h
    · cases h
    · exact UInt16.not_lt.mp (by assumption)

end Gomq.Broker
