import Gomq.Lib.Run
import Gomq.Broker.Effects
import Gomq.Broker.Wiring

/-!
# Closed and reopened channels

The dispatcher does not ask for the state of a channel, so a closed channel takes every method that
an open one takes. `Channel.Open` sets the state and nothing else: what the channel had selected and
staged before it was closed is there again. So the channel is dead while it is closed exactly in the
histories that never close it, and it comes back as a new one exactly if it was left as one
(`lifecycle_iff`).
-/

namespace Gomq.Broker

open Wire Server

def frameStep (ch : ChanRef) (s : Server) (a : Env × Frame) : Server := (dispatch a.1 ch a.2 s).2

/-- Nothing has changed but what connections have sent. -/
structure OnlySent (s s' : Server) : Prop where
  broker : { s' with conns := s.conns } = s
  conns : ∀ k, { s'.conns.read k with out := (s.conns.read k).out } = s.conns.read k

def lifecycleIds : List (UInt16 × UInt16) := [(20, 10), (20, 40), (20, 41)]

/-- While the channel is closed, no method frame but those three would change anything. -/
def DeadWhileClosed (ch : ChanRef) (s : Server) : Prop :=
  (s.chans.read ch).state = .closed → ∀ env c classID methodID args,
    (classID, methodID) ∉ lifecycleIds →
      OnlySent s (dispatch env ch ⟨frameMethod, c, methodPayload classID methodID args⟩ s).2

def openedChannel (id : UInt16) (conn : ConnRef) : Channel :=
  { newChannel id conn with state := .open }

/-- A `Channel.Open` that reaches the closed channel leaves a new one in its place. -/
def ReopensAsNew (ch : ChanRef) (s : Server) (a : Env × Frame) : Prop :=
  (s.chans.read ch).state = .closed → ∀ args, a.2.type = frameMethod →
    a.2.payload = methodPayload 20 10 args →
      (frameStep ch s a).chans.read ch =
        openedChannel (s.chans.read ch).id (s.chans.read ch).conn

/-- The channel has selected nothing, staged nothing and counted nothing, and its flow is on. -/
structure Pristine (c : Channel) : Prop where
  flowOn : c.flowOn = true
  confirmMode : c.confirmMode = false
  txMode : c.txMode = false
  deliveryTag : c.deliveryTag = 0
  txPending : c.txPending = []

/-- Only a channel that was left as a new one is reopened. -/
def ReopensPristine (ch : ChanRef) (s : Server) (a : Env × Frame) : Prop :=
  (s.chans.read ch).state = .closed → ∀ args, a.2.type = frameMethod →
    a.2.payload = methodPayload 20 10 args → Pristine (s.chans.read ch)

/-! ## Closed channels -/

section Closed

variable {ch : ChanRef} {s : Server}

theorem limit_performQos (ch : ChanRef) (s : Server) (size : UInt32) (count : UInt16) :
    (s.performQos ch size count false).2.prefetch.limits.get (s.chans.read ch).id =
      some ⟨count, size.toUInt16.toUInt32, false⟩ := by
  unfold performQos
  obtain ⟨k, hk⟩ := reply_eq
    { s with
      prefetch := s.prefetch.setChannelPrefetch (s.chans.read ch).id count size.toUInt16 false }
    ch (methodPayload 60 11 [])
  dsimp only
  rw [hk]
  simp [Prefetch.setChannelPrefetch]

/-- A closed channel takes `Basic.Qos`, so it is not dead: it cannot have two limits at once. -/
theorem not_dead_of_closed (h : (s.chans.read ch).state = .closed) : ¬ DeadWhileClosed ch s := by
  intro hdead
  have hzero := hdead h default 0 60 10 [0, 0, 0] (by decide)
  have hone := hdead h default 0 60 10 [0, 1, 0] (by decide)
  have hprefetch : ∀ {s' : Server}, OnlySent s s' → s'.prefetch = s.prefetch := by
    intro s' hsent
    rw [← hsent.broker]
  have h0 := limit_performQos ch s 0x003C000A 0
  have h1 := limit_performQos ch s 0x003C000A 1
  rw [show (s.performQos ch 0x003C000A 0 false).2.prefetch = s.prefetch from hprefetch hzero] at h0
  rw [show (s.performQos ch 0x003C000A 1 false).2.prefetch = s.prefetch from hprefetch hone,
    h0] at h1
  simp at h1

theorem deadWhileClosed_iff : DeadWhileClosed ch s ↔ (s.chans.read ch).state ≠ .closed :=
  ⟨fun hdead h => not_dead_of_closed h hdead, fun hne h => absurd h hne⟩

end Closed

/-! ## Reopened channels -/

section Reopened

variable {ch : ChanRef} {s : Server}

theorem frameStep_open (a : Env × Frame) {args : Bytes} (htype : a.2.type = frameMethod)
    (hpayload : a.2.payload = methodPayload 20 10 args) :
    (frameStep ch s a).chans.read ch = { s.chans.read ch with state := .open } := by
  obtain ⟨env, type, c, payload⟩ := a
  obtain rfl : type = frameMethod := htype
  obtain rfl : payload = methodPayload 20 10 args := hpayload
  have hlookup : lookup 20 10 = some handleChannelOpen := rfl
  show ((dispatch env ch ⟨frameMethod, c, methodPayload 20 10 args⟩ s).2.chans.read ch) = _
  rw [dispatch_ids hlookup]
  simp [handleChannelOpen, modifyChan]

theorem opened_eq_iff (c : Channel) :
    { c with state := .open } = openedChannel c.id c.conn ↔ Pristine c := by
  constructor
  · intro h
    obtain ⟨-, -, -, hflow, hconf, htag, htx, hpending⟩ := Channel.mk.inj h
    exact ⟨hflow, hconf, htx, htag, hpending⟩
  · intro h
    cases c
    simp only [openedChannel, newChannel, Channel.mk.injEq, true_and]
    exact ⟨h.flowOn, h.confirmMode, h.deliveryTag, h.txMode, h.txPending⟩

theorem reopensAsNew_iff (a : Env × Frame) : ReopensAsNew ch s a ↔ ReopensPristine ch s a := by
  unfold ReopensAsNew ReopensPristine
  refine imp_congr_right fun _ => forall_congr' fun args => ?_
  refine forall_congr' fun htype => forall_congr' fun hpayload => ?_
  rw [frameStep_open a htype hpayload]
  exact opened_eq_iff (s.chans.read ch)

end Reopened

/-- For every history of a channel: it is dead whenever it is closed exactly if it never is closed,
and each reopening gives a new channel exactly if the channel was left as one. -/
theorem lifecycle_iff (ch : ChanRef) (s : Server) (fs : List (Env × Frame)) :
    (Along (frameStep ch) (fun s _ => DeadWhileClosed ch s) s fs ↔
        Along (frameStep ch) (fun s _ => (s.chans.read ch).state ≠ .closed) s fs) ∧
      (Along (frameStep ch) (ReopensAsNew ch) s fs ↔
        Along (frameStep ch) (ReopensPristine ch) s fs) :=
  ⟨Along.congr (fun _ _ => deadWhileClosed_iff) s fs,
    Along.congr (fun _ a => reopensAsNew_iff a) s fs⟩

def confirmWhileClosed : List (Env × Frame) :=
  [(default, ⟨frameMethod, 1, methodPayload 20 40 []⟩),
    (default, ⟨frameMethod, 1, methodPayload 85 10 [0]⟩),
    (default, ⟨frameMethod, 1, methodPayload 20 10 [0]⟩)]

def openChannel : Server :=
  { newServer with
    conns := Heap.empty.alloc (newConnection .up)
    chans := Heap.empty.alloc (openedChannel 1 0) }

theorem confirmWhileClosed_selected :
    (((confirmWhileClosed.take 1).foldl (frameStep 0) openChannel).chans.read 0).state = .closed ∧
      (((confirmWhileClosed.take 2).foldl (frameStep 0) openChannel).chans.read 0).state = .closed ∧
      (((confirmWhileClosed.take 2).foldl (frameStep 0) openChannel).chans.read 0).confirmMode =
        true ∧
      ((confirmWhileClosed.foldl (frameStep 0) openChannel).chans.read 0).state = .open ∧
      ((confirmWhileClosed.foldl (frameStep 0) openChannel).chans.read 0).confirmMode = true ∧
      ¬ Along (frameStep 0) (fun s _ => DeadWhileClosed 0 s) openChannel confirmWhileClosed ∧
      ¬ Along (frameStep 0) (ReopensAsNew 0) openChannel confirmWhileClosed := by
  refine ⟨rfl, rfl, rfl, rfl, rfl, fun h => ?_, fun h => ?_⟩
  · have hsent := h.2.1 rfl default 1 85 10 [0] (by decide)
    have hchans := congrArg (fun s : Server => (s.chans.read 0).confirmMode) hsent.broker
    exact absurd hchans (by decide)
  · have hnew := h.2.2.1 rfl [0] rfl rfl
    have hconf := congrArg Channel.confirmMode hnew
    exact absurd hconf (by decide)

end Gomq.Broker
