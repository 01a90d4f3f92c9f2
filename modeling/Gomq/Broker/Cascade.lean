import Gomq.Lib.Run
import Gomq.Broker.Config

/-!
# What a deletion leaves behind

`Queue.Delete` takes the queue out of the queue manager and leaves its bindings and its messages
where they are. `Exchange.Delete` takes the exchange and its exchange-to-exchange bindings, and
leaves the queue bindings. So a queue that is declared again finds its old messages and bindings,
and an exchange its old bindings, unless there were none when it was deleted (`deletesCleanly_iff`).

The exchange-to-exchange bindings do go, since each is filed under its own source (`Sourced`), which
every request keeps (`sourced_step`).
-/

namespace Gomq.Broker

open Wire Server

/-! ## What is left of a name -/

structure BindingManager.ForgetsQueue (m : BindingManager) (q : GoString) : Prop where
  own : m.byQueue.getD q [] = []
  byExchange : ∀ k, ∀ b ∈ m.byExchange.getD k [], b.queueName ≠ q
  byQueue : ∀ k, ∀ b ∈ m.byQueue.getD k [], b.queueName ≠ q

structure BindingManager.ForgetsExchange (m : BindingManager) (e : GoString) : Prop where
  own : m.byExchange.getD e [] = []
  byExchange : ∀ k, ∀ b ∈ m.byExchange.getD k [], b.exchangeName ≠ e
  byQueue : ∀ k, ∀ b ∈ m.byQueue.getD k [], b.exchangeName ≠ e

namespace E2EBindingManager

structure Forgets (m : E2EBindingManager) (e : GoString) : Prop where
  own : m.getBindings e = []
  ends : ∀ k, ∀ b ∈ m.getBindings k, b.source ≠ e ∧ b.destination ≠ e

def Sourced (m : E2EBindingManager) : Prop := ∀ k, ∀ b ∈ m.getBindings k, b.source = k

end E2EBindingManager

namespace Server

structure QueueGone (s : Server) (q : GoString) : Prop where
  bindings : s.bindings.ForgetsQueue q
  messages : s.ready q = []

structure ExchangeGone (s : Server) (e : GoString) : Prop where
  bindings : s.bindings.ForgetsExchange e
  e2e : E2EBindingManager.Forgets s.e2eBindings e

theorem QueueGone.declare {s : Server} {q : GoString} (h : s.QueueGone q) (env : Env)
    (durable exclusive autoDelete : Bool) (args : Table) :
    (s.declareQueue env q durable exclusive autoDelete args).2.QueueGone q := by
  unfold declareQueue
  split
  · split <;> exact h
  · exact ⟨h.bindings, h.messages⟩

theorem ExchangeGone.publish {s : Server} {e : GoString} (h : s.ExchangeGone e) (env : Env)
    (exType : ExchangeType) (durable autoDelete internal : Bool) (args : Table)
    (hfree : s.exchanges.get e = none) (key : GoString) (msg : MsgRef) (c : UInt16) :
    ((s.declareExchange e exType durable autoDelete internal args).2.publish env e key msg c).1 =
      .ok 0 := by
  unfold declareExchange
  simp only [hfree]
  unfold Server.publish walkFuel
  rw [publishInternal_found List.not_mem_nil (GoMap.get_set_self _ _ _)]
  generalize (⟨e, exType, durable, autoDelete, internal, args⟩ : Exchange) = x
  have hnone : afterQueues env (deadLetter env) true msg c x e key
      { s with exchanges := s.exchanges.set e x } =
        ([], { s with exchanges := s.exchanges.set e x }) := by
    unfold afterQueues BindingManager.getBindings Exchange.route
    rw [h.bindings.own]
    rfl
  rw [hnone]
  dsimp only
  rw [h.e2e.own]
  rfl

end Server

/-! ## Exchange-to-exchange bindings -/

namespace E2EBindingManager

theorem getD_foldl_set (l : List GoString) (g : GoString → List E2EBinding)
    (m : E2EBindingManager) (k : GoString) :
    GoMap.getD (l.foldl (fun acc src => GoMap.set acc src (g src)) m) k [] =
      if k ∈ l then g k else GoMap.getD m k [] := by
  induction l generalizing m with
  | nil => rfl
  | cons a l ih =>
    rw [List.foldl_cons, ih, GoMap.getD_set]
    by_cases hl : k ∈ l
    · simp [hl]
    · by_cases ha : k = a
      · subst ha; simp [hl]
      · simp [hl, ha]

theorem getBindings_unbindAllForExchange (m : E2EBindingManager) (e k : GoString) :
    (m.unbindAllForExchange e).getBindings k =
      if k = e then [] else (m.getBindings k).filter fun b => b.destination != e := by
  unfold unbindAllForExchange getBindings
  dsimp only
  rw [getD_foldl_set (GoMap.del m e).keys
    fun src => (GoMap.getD (GoMap.del m e) src []).filter fun b => b.destination != e]
  by_cases hk : k = e
  · subst hk
    have hmem : k ∉ (GoMap.del m k).keys := by
      rw [GoMap.mem_keys_iff, GoMap.get_del_self]
      simp
    rw [if_neg hmem, if_pos rfl, GoMap.getD_of_none (GoMap.get_del_self m k)]
  · have hget : GoMap.getD (GoMap.del m e) k [] = GoMap.getD m k [] := by
      unfold GoMap.getD
      rw [GoMap.get_del_ne hk]
    rw [if_neg hk, hget]
    split
    · rfl
    · -- a source that is not there has no bindings to filter
      rename_i hmem
      have hnone : GoMap.getD m k [] = [] := by
        rw [← hget]
        apply GoMap.getD_of_none
        by_contra hne
        exact hmem (GoMap.mem_keys_iff.mpr (Option.ne_none_iff_exists'.mp hne))
      rw [hnone]
      rfl

theorem Sourced.forgets {m : E2EBindingManager} (h : m.Sourced) (e : GoString) :
    (m.unbindAllForExchange e).Forgets e where
  own := by rw [getBindings_unbindAllForExchange, if_pos rfl]
  ends := by
    intro k b hb
    rw [getBindings_unbindAllForExchange] at hb
    split at hb
    · exact absurd hb List.not_mem_nil
    · rename_i hk
      obtain ⟨hmem, hdest⟩ := List.mem_filter.mp hb
      refine ⟨?_, by simpa using hdest⟩
      rw [h k b hmem]
      exact hk

theorem Sourced.unbindAllForExchange {m : E2EBindingManager} (h : m.Sourced) (e : GoString) :
    (m.unbindAllForExchange e).Sourced := by
  intro k b hb
  rw [getBindings_unbindAllForExchange] at hb
  split at hb
  · exact absurd hb List.not_mem_nil
  · exact h k b (List.mem_filter.mp hb).1

theorem Sourced.bind {m : E2EBindingManager} (h : m.Sourced) (src dst key : GoString)
    (args : Table) : (E2EBindingManager.bind m src dst key args).Sourced := by
  intro k b hb
  unfold E2EBindingManager.bind at hb
  dsimp only at hb
  split at hb
  · exact h k b hb
  · unfold getBindings at hb
    rw [GoMap.getD_set] at hb
    split at hb
    · rename_i hk
      rcases List.mem_append.mp hb with hb | hb
      · rw [hk]; exact h src b hb
      · rw [List.mem_singleton.mp hb, hk]
    · exact h k b hb

theorem Sourced.unbind {m : E2EBindingManager} (h : m.Sourced) (src dst key : GoString) :
    (E2EBindingManager.unbind m src dst key).Sourced := by
  intro k b hb
  unfold E2EBindingManager.unbind at hb
  dsimp only at hb
  split at hb
  · unfold getBindings at hb
    rw [GoMap.getD_set] at hb
    split at hb
    · rename_i hk
      rw [hk]
      exact h src b (List.mem_of_mem_eraseP hb)
    · exact h k b hb
  · exact h k b hb

end E2EBindingManager

theorem sourced_configure (req : Request) (c : Config)
    (h : E2EBindingManager.Sourced c.e2eBindings) :
    E2EBindingManager.Sourced (req.configure c).e2eBindings := by
  cases req with
  | queueDeclare q p d e a n args =>
    dsimp only [Request.configure]
    split <;> exact h
  | exchangeDeclare e ty p d a i n args =>
    dsimp only [Request.configure]
    split <;> exact h
  | exchangeDelete e u nw => exact h.unbindAllForExchange e
  | exchangeBind dst src key nw args =>
    dsimp only [Request.configure]
    split
    · exact h
    · exact h.bind src dst key args
  | exchangeUnbind dst src key nw => exact h.unbind src dst key
  | _ => exact h

theorem sourced_step {s : Server} (h : E2EBindingManager.Sourced s.e2eBindings)
    (ev : ProtocolEvent) : E2EBindingManager.Sourced (protocolStep s ev).e2eBindings :=
  config_inv (I := fun c => E2EBindingManager.Sourced c.e2eBindings) sourced_configure h ev

/-! ## Deletions in a run -/

/-- A deletion that is let through and finds its queue or exchange leaves nothing of it behind. -/
def DeletesCleanly (s : Server) : ProtocolEvent → Prop
  | .request env ch (.queueDelete q ifUnused ifEmpty noWait) =>
    s.permits ch (.queueDelete q ifUnused ifEmpty noWait) = .ok () → (s.queues.get q).isSome →
      (protocolStep s (.request env ch (.queueDelete q ifUnused ifEmpty noWait))).QueueGone q
  | .request env ch (.exchangeDelete e ifUnused noWait) =>
    s.permits ch (.exchangeDelete e ifUnused noWait) = .ok () → (s.exchanges.get e).isSome →
      (protocolStep s (.request env ch (.exchangeDelete e ifUnused noWait))).ExchangeGone e
  | _ => True

/-- A queue is deleted only when it has no binding and no message, an exchange only when no queue is
bound to it. -/
def DeletesUnused (s : Server) : ProtocolEvent → Prop
  | .request _ ch (.queueDelete q ifUnused ifEmpty noWait) =>
    s.permits ch (.queueDelete q ifUnused ifEmpty noWait) = .ok () → (s.queues.get q).isSome →
      s.QueueGone q
  | .request _ ch (.exchangeDelete e ifUnused noWait) =>
    s.permits ch (.exchangeDelete e ifUnused noWait) = .ok () → (s.exchanges.get e).isSome →
      s.bindings.ForgetsExchange e
  | _ => True

section Delete

variable {s : Server} (env : Env) {ch : ChanRef}

theorem queueGone_delete_iff {q : GoString} {ifUnused ifEmpty noWait : Bool}
    (hp : s.permits ch (.queueDelete q ifUnused ifEmpty noWait) = .ok ()) :
    (protocolStep s (.request env ch (.queueDelete q ifUnused ifEmpty noWait))).QueueGone q ↔
      s.QueueGone q := by
  have hstep : ∃ k, protocolStep s (.request env ch (.queueDelete q ifUnused ifEmpty noWait)) =
      { s with queues := s.queues.del q, conns := k } := by
    show ∃ k, (exec env ch _ s).2 = _
    unfold exec
    rw [hp]
    dsimp only [perform, performQueueDelete, replyUnless]
    split
    · exact ⟨s.conns, rfl⟩
    · exact reply_eq _ ch _
  obtain ⟨k, hk⟩ := hstep
  rw [hk]
  exact ⟨fun h => ⟨h.bindings, h.messages⟩, fun h => ⟨h.bindings, h.messages⟩⟩

theorem exchangeGone_delete_iff (hs : E2EBindingManager.Sourced s.e2eBindings) {e : GoString}
    {ifUnused noWait : Bool} (hp : s.permits ch (.exchangeDelete e ifUnused noWait) = .ok ()) :
    (protocolStep s (.request env ch (.exchangeDelete e ifUnused noWait))).ExchangeGone e ↔
      s.bindings.ForgetsExchange e := by
  have hstep : ∃ k, protocolStep s (.request env ch (.exchangeDelete e ifUnused noWait)) =
      { s with
        exchanges := s.exchanges.del e
        e2eBindings := s.e2eBindings.unbindAllForExchange e
        conns := k } := by
    show ∃ k, (exec env ch _ s).2 = _
    unfold exec
    rw [hp]
    dsimp only [perform, performExchangeDelete, replyUnless]
    split
    · exact ⟨s.conns, rfl⟩
    · exact reply_eq _ ch _
  obtain ⟨k, hk⟩ := hstep
  rw [hk]
  exact ⟨fun h => h.bindings, fun h => ⟨h, hs.forgets e⟩⟩

end Delete

theorem deletesCleanly_step_iff {s : Server} (hs : E2EBindingManager.Sourced s.e2eBindings)
    (ev : ProtocolEvent) : DeletesCleanly s ev ↔ DeletesUnused s ev := by
  cases ev with
  | control env ch m payload => exact Iff.rfl
  | request env ch req =>
    cases req with
    | queueDelete q ifUnused ifEmpty noWait =>
      exact forall_congr' fun hp => imp_congr_right fun _ => queueGone_delete_iff env hp
    | exchangeDelete e ifUnused noWait =>
      exact forall_congr' fun hp => imp_congr_right fun _ => exchangeGone_delete_iff env hs hp
    | _ => exact Iff.rfl

def Server.fresh (conns : Heap Connection) (chans : Heap Channel) (acl : Option (List Rule)) :
    Server :=
  { newServer with conns := conns, chans := chans, aclMgr := acl }

/-- In every run from a new server, the deletions cascade exactly if there is nothing to cascade
to but exchange-to-exchange bindings. -/
theorem deletesCleanly_iff (conns : Heap Connection) (chans : Heap Channel)
    (acl : Option (List Rule)) (evs : List ProtocolEvent) :
    Along protocolStep DeletesCleanly (fresh conns chans acl) evs ↔
      Along protocolStep DeletesUnused (fresh conns chans acl) evs :=
  Along.iff_of_kept (I := fun s => E2EBindingManager.Sourced s.e2eBindings)
    (fun _ ev h _ => sourced_step h ev) (fun _ ev h => deletesCleanly_step_iff h ev)
    fun _ _ hb => absurd hb List.not_mem_nil

/-! ## A queue that comes back with its messages -/

/-- Queue `q` is declared, bound to the fanout exchange and published to, then deleted and declared
again. -/
def deleteAndRedeclare : List ProtocolEvent :=
  [.request default 0 (.queueDeclare (str "q") false false false false true []),
    .request default 0 (.queueBind (str "q") (str "amq.fanout") [] true []),
    .request default 0 (.publish (str "amq.fanout") [] false false),
    .request default 0 (.queueDelete (str "q") false false true),
    .request default 0 (.queueDeclare (str "q") false false false false true [])]

/-- The queue that was declared again has the old message and the old binding. -/
theorem deleteAndRedeclare_not_clean :
    (deleteAndRedeclare.foldl protocolStep newServer).ready (str "q") = [0] ∧
      ((deleteAndRedeclare.foldl protocolStep newServer).bindings.getBindings
        (str "amq.fanout")).map Binding.queueName = [str "q"] ∧
      ¬ Along protocolStep DeletesCleanly newServer deleteAndRedeclare := by
  refine ⟨by decide +kernel, by decide +kernel, fun h => ?_⟩
  -- the fourth event is the deletion
  have hgone := h.2.2.2.1 rfl (by decide +kernel)
  have hready : ((deleteAndRedeclare.take 4).foldl protocolStep newServer).ready (str "q") =
    [0] := by decide +kernel
  exact absurd (hready.symm.trans hgone.messages) (by decide)

def exchangeComesBack : List ProtocolEvent :=
  [.request default 0 (.exchangeDeclare (str "e") (str "fanout") false false false false true []),
    .request default 0 (.queueBind (str "q") (str "e") [] true []),
    .request default 0 (.exchangeDelete (str "e") false true),
    .request default 0 (.exchangeDeclare (str "e") (str "fanout") false false false false true [])]

example :
    ((exchangeComesBack.foldl protocolStep newServer).bindings.getBindings (str "e")).map
      Binding.queueName = [str "q"] := by decide +kernel

end Gomq.Broker
