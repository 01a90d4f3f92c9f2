import Gomq.Lib.Run
import Gomq.Broker.Cascade

/-!
# What a close releases

`CancelByChannel`, `NackAll` and `RemoveExclusive` are there to clean up behind a channel or a
connection, and no close calls them; besides, a queue is declared without an owner. A close changes
the states of channels and connection only (`AsideOnly`), so consumers, deliveries and exclusive
queues survive it, and it leaves nothing behind exactly if there was nothing (`closeReleases_iff`).
-/

namespace Gomq.Broker

open Wire Server

/-! ## The requests of one connection -/

/-- What arrives on a connection: a method on one of its channels, or its end. -/
inductive LinkEvent where
  | request (env : Env) (n : UInt16) (req : Request)
  | control (env : Env) (n : UInt16) (m : ControlMethod) (payload : Bytes)
  /-- `Connection.Close`, on channel 0 or by the loop that serves the connection. -/
  | close

/-- The channel manager of the connection finds the channel; without one the frame is dropped. -/
def linkStep (c : ConnRef) (s : Server) : LinkEvent → Server
  | .request env n req =>
    match (s.conns.read c).channels.get n with
    | none => s
    | some ch => protocolStep s (.request env ch req)
  | .control env n m payload =>
    match (s.conns.read c).channels.get n with
    | none => s
    | some ch => protocolStep s (.control env ch m payload)
  | .close => s.closeConnection c

theorem linkStep_control {c : ConnRef} {s : Server} {n : UInt16} {ch : ChanRef}
    (hn : (s.conns.read c).channels.get n = some ch) (env : Env) (m : ControlMethod)
    (payload : Bytes) :
    linkStep c s (.control env n m payload) = (m.handler env ch payload s).2 := by
  simp only [linkStep, hn]
  rfl

/-! ## What is released -/

def Consumer.Stays (k : Consumer) : Prop :=
  k.args.get (str "x-cancel-on-ha-failover") = some (.bool false)

namespace Server

/-- The consumer manager has the consumer under its queue, under its tag or in a group. -/
def Registered (s : Server) (k : Consumer) : Prop :=
  (∃ q, k ∈ s.getConsumers q) ∨ (∃ tag, s.consumers.byTag.get tag = some k) ∨
    ∃ gm id g, s.consumers.groupMgr = some gm ∧ gm.byID.get id = some g ∧
      k ∈ (gm.heap.read g).members

/-- The channel has no consumer that does not want to stay, and no delivery that waits. -/
structure HoldsNothing (s : Server) (ch : ChanRef) : Prop where
  consumers : ∀ k, s.Registered k → k.channel = some ch → k.Stays
  deliveries : ∀ t, s.getDelivery t (s.chans.read ch).id = none

/-- Between `s` and `s'` the channel gave back all it held, its messages to their queues. -/
structure ChannelReleased (s s' : Server) (ch : ChanRef) : Prop where
  consumers : ∀ k, s'.Registered k → k.channel = some ch → k.Stays
  deliveries : ∀ t, s'.getDelivery t (s.chans.read ch).id = none
  requeued : ∀ t d, s.getDelivery t (s.chans.read ch).id = some d → d.msg ∈ s'.ready d.queueName

/-- All channels of the connection gave back what they held, and no exclusive queue is left. In the
runs of one connection from a new server on, every queue was declared by that connection. -/
structure ConnectionReleased (c : ConnRef) (s s' : Server) : Prop where
  channels : ∀ n ch, (s.conns.read c).channels.get n = some ch → ChannelReleased s s' ch
  queues : ∀ q x, s'.queues.get q = some x → x.exclusive = false

structure ConnectionIdle (c : ConnRef) (s : Server) : Prop where
  channels : ∀ n ch, (s.conns.read c).channels.get n = some ch → s.HoldsNothing ch
  queues : ∀ q x, s.queues.get q = some x → x.exclusive = false

end Server

def Releases (c : ConnRef) (s : Server) : LinkEvent → Prop
  | .control env n .channelClose payload =>
    ∀ ch, (s.conns.read c).channels.get n = some ch →
      ChannelReleased s (linkStep c s (.control env n .channelClose payload)) ch
  | .control env n .connectionClose payload =>
    ((s.conns.read c).channels.get n).isSome →
      ConnectionReleased c s (linkStep c s (.control env n .connectionClose payload))
  | .close => ConnectionReleased c s (linkStep c s .close)
  | _ => True

def ClosesIdle (c : ConnRef) (s : Server) : LinkEvent → Prop
  | .control _ n .channelClose _ =>
    ∀ ch, (s.conns.read c).channels.get n = some ch → s.HoldsNothing ch
  | .control _ n .connectionClose _ =>
    ((s.conns.read c).channels.get n).isSome → ConnectionIdle c s
  | .close => ConnectionIdle c s
  | _ => True

/-! ## A close changes states only -/

namespace Server

def AsideOnly (s s' : Server) : Prop := ∃ k h, s' = { s with conns := k, chans := h }

theorem AsideOnly.trans {s s' s'' : Server} (h : AsideOnly s s') (h' : AsideOnly s' s'') :
    AsideOnly s s'' := by
  obtain ⟨k, chs, rfl⟩ := h
  obtain ⟨k', chs', rfl⟩ := h'
  exact ⟨k', chs', rfl⟩

theorem asideOnly_reply (s : Server) (ch : ChanRef) (payload : Bytes) :
    AsideOnly s (s.reply ch payload) := by
  obtain ⟨k, hk⟩ := s.reply_eq ch payload
  exact ⟨k, s.chans, hk⟩

theorem asideOnly_closeChannel (s : Server) (ch : ChanRef) : AsideOnly s (s.closeChannel ch) :=
  ⟨s.conns, _, rfl⟩

theorem asideOnly_closeConnection (s : Server) (c : ConnRef) :
    AsideOnly s (s.closeConnection c) :=
  closeConnection_inv (P := AsideOnly s) (fun u _ hu => hu.trans ⟨_, u.chans, rfl⟩)
    (fun u ch hu => hu.trans (u.asideOnly_closeChannel ch)) ⟨s.conns, s.chans, rfl⟩

theorem AsideOnly.channelReleased_iff {s s' : Server} (h : AsideOnly s s') (ch : ChanRef) :
    ChannelReleased s s' ch ↔ s.HoldsNothing ch := by
  obtain ⟨k, chs, rfl⟩ := h
  constructor
  · exact fun hrel => ⟨hrel.consumers, hrel.deliveries⟩
  · intro hnone
    refine ⟨hnone.consumers, hnone.deliveries, fun t d hd => ?_⟩
    rw [hnone.deliveries t] at hd
    cases hd

theorem AsideOnly.connectionReleased_iff {s s' : Server} (h : AsideOnly s s') (c : ConnRef) :
    ConnectionReleased c s s' ↔ ConnectionIdle c s := by
  have hqueues : s'.queues = s.queues := by
    obtain ⟨k, chs, rfl⟩ := h
    rfl
  constructor
  · intro hrel
    refine ⟨fun n ch hn => (h.channelReleased_iff ch).mp (hrel.channels n ch hn), ?_⟩
    rw [← hqueues]
    exact hrel.queues
  · intro hidle
    refine ⟨fun n ch hn => (h.channelReleased_iff ch).mpr (hidle.channels n ch hn), ?_⟩
    rw [hqueues]
    exact hidle.queues

end Server

theorem releases_step_iff (c : ConnRef) (s : Server) (ev : LinkEvent) :
    Releases c s ev ↔ ClosesIdle c s ev := by
  cases ev with
  | request => exact Iff.rfl
  | close => exact (s.asideOnly_closeConnection c).connectionReleased_iff c
  | control env n m payload =>
    cases m with
    | channelClose =>
      refine forall_congr' fun ch => forall_congr' fun hn => ?_
      have haside : s.AsideOnly (linkStep c s (.control env n .channelClose payload)) := by
        rw [linkStep_control hn]
        exact (s.asideOnly_reply ch _).trans (asideOnly_closeChannel _ ch)
      exact haside.channelReleased_iff ch
    | connectionClose =>
      refine forall_congr' fun hsome => ?_
      obtain ⟨ch, hn⟩ := Option.isSome_iff_exists.mp hsome
      have haside : s.AsideOnly (linkStep c s (.control env n .connectionClose payload)) := by
        rw [linkStep_control hn]
        exact (s.asideOnly_reply ch _).trans (asideOnly_closeConnection _ _)
      exact haside.connectionReleased_iff c
    | _ => exact Iff.rfl

/-- In every run of requests on a connection of a new server, each close releases everything exactly
if each close comes when nothing is held. -/
theorem closeReleases_iff (c : ConnRef) (conns : Heap Connection) (chans : Heap Channel)
    (acl : Option (List Rule)) (evs : List LinkEvent) :
    Along (linkStep c) (Releases c) (fresh conns chans acl) evs ↔
      Along (linkStep c) (ClosesIdle c) (fresh conns chans acl) evs :=
  Along.congr (releases_step_iff c) (fresh conns chans acl) evs

def linkServer : Server :=
  fresh
    (Heap.empty.alloc { newConnection .up with state := .open, channels := GoMap.set ∅ 1 0 })
    (Heap.empty.alloc { newChannel 1 0 with state := .open }) none

/-- An exclusive queue is declared and consumed from, a message is delivered, and channel and
connection are closed. -/
def closeAll : List LinkEvent :=
  [.request default 1 (.queueDeclare (str "q") false false true false true []),
    .request default 1 (.queueBind (str "q") (str "amq.fanout") [] true []),
    .request default 1 (.consume (str "q") (str "tag") false false false true []),
    .request default 1 (.publish (str "amq.fanout") [] false false),
    .control default 1 .channelClose [], .close]

theorem closeAll_leaves :
    ((closeAll.foldl (linkStep 0) linkServer).chans.read 0).state = .closed ∧
      ((closeAll.foldl (linkStep 0) linkServer).conns.read 0).state = .closed ∧
      ((closeAll.foldl (linkStep 0) linkServer).consumers.byTag.get (str "tag")).isSome ∧
      (closeAll.foldl (linkStep 0) linkServer).getDelivery 0 1 = some ⟨0, 0, str "q", 1⟩ ∧
      ((closeAll.foldl (linkStep 0) linkServer).queues.get (str "q")).map Queue.exclusive =
        some true ∧
      ¬ Along (linkStep 0) (Releases 0) linkServer closeAll := by
  refine ⟨by decide, by decide, by decide, by decide, by decide, fun h => ?_⟩
  have hclose := h.2.2.2.2.1 0 (by decide)
  exact absurd (hclose.deliveries 0) (by decide)

end Gomq.Broker
