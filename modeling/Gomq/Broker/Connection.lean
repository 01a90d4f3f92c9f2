import Gomq.Broker.Confirms

/-!
# The frame loop of a connection

`Serve` reads frames after the handshake. Frames on channel 0 are looked at for `Connection.Close`
only; a frame on another channel goes to the dispatcher if the channel manager has that channel, and
is dropped otherwise. `ChannelManager.Create` puts a channel there, but nothing in the loop or in
the handlers calls it. So in every run of any number of connections the channel managers stay empty,
no handler is ever reached, and the broker stays as it was started (`run_inert`).
-/

namespace Gomq.Broker

open Wire Server

/-! ## Channel manager -/

inductive CreateError where
  /-- `channel 0 is reserved` -/
  | reserved
  /-- `channel %d exceeds max %d` -/
  | exceedsMax (id max : UInt16)
  /-- `channel %d already open` -/
  | alreadyOpen (id : UInt16)
  deriving DecidableEq

namespace Server

def createChannel (s : Server) (c : ConnRef) (id : UInt16) : Except CreateError Server :=
  let k := s.conns.read c
  if id = 0 then .error .reserved
  else if k.maxCh < id then .error (.exceedsMax id k.maxCh)
  else if (k.channels.get id).isSome then .error (.alreadyOpen id)
  else
    .ok { s with
      chans := s.chans.alloc { newChannel id c with state := .open }
      conns := s.conns.modify c fun k => { k with channels := k.channels.set id s.chans.next } }

theorem createChannel_free {s : Server} {c : ConnRef} {id : UInt16} (h0 : id ≠ 0)
    (hmax : id ≤ (s.conns.read c).maxCh) (hfree : (s.conns.read c).channels.get id = none) :
    ∃ s' ch, s.createChannel c id = .ok s' ∧ (s'.conns.read c).channels.get id = some ch ∧
      (s'.chans.read ch).state = .open := by
  unfold createChannel
  dsimp only
  rw [if_neg h0, if_neg (UInt16.not_lt.mpr hmax), if_neg (by rw [hfree]; exact nofun)]
  refine ⟨_, s.chans.next, rfl, ?_, ?_⟩
  · dsimp only
    rw [Heap.read_modify_self]
    exact GoMap.get_set_self _ _ _
  · dsimp only
    rw [Heap.read_alloc_self]

/-! ## The loop -/

/-- `sendHeartbeat`; the error is dropped. -/
def sendHeartbeat (s : Server) (c : ConnRef) : Server := (s.sendFrame c ⟨frameHeartbeat, 0, []⟩).2

/-- `handleConnectionFrame`: read errors are dropped, and the ids are 0 then. -/
def handleConnectionFrame (c : ConnRef) (f : Frame) (s : Server) : Outcome :=
  if f.type ≠ frameMethod then (none, s)
  else
    let classID := readUint16 f.payload
    let methodID := readUint16 classID.rest
    if classID.val = 10 ∧ methodID.val = 50 then (none, s.closeConnection c) else (none, s)

/-- `handleChannelFrame`: a frame on a channel that is not there is dropped. -/
def handleChannelFrame (env : Env) (c : ConnRef) (f : Frame) (s : Server) : Outcome :=
  match (s.conns.read c).channels.get f.channel with
  | none => (none, s)
  | some ch => dispatch env ch f s

/-- An error ends the loop, and the deferred `Close` runs. -/
def finish (c : ConnRef) : Outcome → Server
  | (some _, s) => s.closeConnection c
  | (none, s) => s

end Server

/-- What can happen to a connection in its loop: a frame arrives, reading fails, or the heartbeat
ticker fires, and then the peer has been silent for too long or not. -/
inductive ConnEvent where
  | frame (env : Env) (f : Frame)
  | readError
  | tick (silent : Bool)

/-- One event of the loop of connection `c`; a connection that is not open has left the loop and
stopped its heartbeat. -/
def serveStep (c : ConnRef) (s : Server) (ev : ConnEvent) : Server :=
  if (s.conns.read c).state ≠ .open then s
  else
    match ev with
    | .frame env f =>
      if f.channel = 0 then finish c (s.handleConnectionFrame c f)
      else finish c (s.handleChannelFrame env c f)
    | .readError => s.closeConnection c
    | .tick true => s.closeConnection c
    | .tick false => s.sendHeartbeat c

def negotiated (username vhost : GoString) : Connection :=
  { newConnection .up with state := .open, username := username, vhost := vhost }

/-- The events of the broker: a connection gets through its handshake, or an event of a loop. -/
inductive SystemEvent where
  | accept (username vhost : GoString)
  | on (c : ConnRef) (ev : ConnEvent)

def systemStep (s : Server) : SystemEvent → Server
  | .accept username vhost => { s with conns := s.conns.alloc (negotiated username vhost) }
  | .on c ev => serveStep c s ev

def stateAt (evs : List SystemEvent) (i : ℕ) : Server := (evs.take i).foldl systemStep newServer

/-! ## No channel comes into being -/

def isHeartbeat (f : Frame) : Bool := f.type == frameHeartbeat

/-- Only connections have changed; none has a channel, and only heartbeats were sent. -/
structure Inert (s : Server) : Prop where
  broker : ∃ k, s = { newServer with conns := k }
  channels : ∀ c, (s.conns.read c).channels = ∅
  sent : ∀ c, ∀ f ∈ (s.conns.read c).out, isHeartbeat f = true

theorem Inert.modify {s : Server} (h : Inert s) (c : ConnRef) {f : Connection → Connection}
    (hch : ∀ k, k.channels = ∅ → (f k).channels = ∅)
    (hout : ∀ k : Connection, (∀ x ∈ k.out, isHeartbeat x = true) →
      ∀ x ∈ (f k).out, isHeartbeat x = true) :
    Inert { s with conns := s.conns.modify c f } where
  broker := by
    obtain ⟨k, hk⟩ := h.broker
    exact ⟨s.conns.modify c f, by rw [hk]⟩
  channels := by
    intro c'
    dsimp only
    rw [Heap.read_modify]
    split
    · exact hch _ (h.channels c)
    · exact h.channels c'
  sent := by
    intro c'
    dsimp only
    rw [Heap.read_modify]
    split
    · exact hout _ (h.sent c)
    · exact h.sent c'

theorem Inert.closeConnection {s : Server} (h : Inert s) (c : ConnRef) :
    Inert (s.closeConnection c) := by
  unfold Server.closeConnection
  split
  · exact h
  · exact h
  · -- no channel has to be closed
    have hnone : (s.conns.read c).channels.vals = [] := by rw [h.channels c]; rfl
    have hclosing := h.modify c (f := fun k => { k with state := .closing, channels := ∅ })
      (fun _ _ => rfl) fun _ hk => hk
    rw [hnone]
    exact hclosing.modify c (fun _ hk => hk) fun _ hk => hk

theorem Inert.sendHeartbeat {s : Server} (h : Inert s) (c : ConnRef) :
    Inert (s.sendHeartbeat c) := by
  unfold Server.sendHeartbeat Server.sendFrame
  split
  · exact h
  · split <;> exact h
  · split
    · exact h
    · refine h.modify c (fun _ hk => hk) fun k hk x hx => ?_
      rcases List.mem_append.mp hx with hx | hx
      · exact hk x hx
      · rw [List.mem_singleton.mp hx]; rfl

theorem Inert.handleConnectionFrame {s : Server} (h : Inert s) (c : ConnRef) (f : Frame) :
    Inert (finish c (s.handleConnectionFrame c f)) := by
  unfold Server.handleConnectionFrame
  dsimp only
  split
  · exact h
  · split
    · exact h.closeConnection c
    · exact h

theorem Inert.handleChannelFrame {s : Server} (h : Inert s) (env : Env) (c : ConnRef) (f : Frame) :
    s.handleChannelFrame env c f = (none, s) := by
  unfold Server.handleChannelFrame
  rw [h.channels c]
  rfl

theorem Inert.serveStep {s : Server} (h : Inert s) (c : ConnRef) (ev : ConnEvent) :
    Inert (serveStep c s ev) := by
  unfold Broker.serveStep
  split
  · exact h
  · cases ev with
    | frame env f =>
      dsimp only
      split
      · exact h.handleConnectionFrame c f
      · rw [h.handleChannelFrame env c f]; exact h
    | readError => exact h.closeConnection c
    | tick silent =>
      cases silent with
      | true => exact h.closeConnection c
      | false => exact h.sendHeartbeat c

theorem Inert.accept {s : Server} (h : Inert s) (username vhost : GoString) :
    Inert { s with conns := s.conns.alloc (negotiated username vhost) } where
  broker := by
    obtain ⟨k, hk⟩ := h.broker
    exact ⟨s.conns.alloc (negotiated username vhost), by rw [hk]⟩
  channels := by
    intro c
    dsimp only
    by_cases hc : c = s.conns.next
    · rw [hc, Heap.read_alloc_self]; rfl
    · rw [Heap.read_alloc_ne hc]; exact h.channels c
  sent := by
    intro c
    dsimp only
    by_cases hc : c = s.conns.next
    · rw [hc, Heap.read_alloc_self]; exact nofun
    · rw [Heap.read_alloc_ne hc]; exact h.sent c

theorem inert_newServer : Inert newServer where
  broker := ⟨_, rfl⟩
  channels := fun _ => rfl
  sent := fun _ => nofun

theorem Inert.systemStep {s : Server} (h : Inert s) (ev : SystemEvent) :
    Inert (systemStep s ev) := by
  cases ev with
  | accept username vhost => exact h.accept username vhost
  | on c ev => exact h.serveStep c ev

theorem run_inert (evs : List SystemEvent) : Inert (evs.foldl systemStep newServer) :=
  List.foldlRecOn (motive := Inert) evs systemStep inert_newServer
    (fun _ h ev _ => h.systemStep ev)

/-! ## Channel.Open -/

def channelOpen (n : UInt16) (args : Bytes) : Frame :=
  ⟨frameMethod, n, methodPayload 20 10 args⟩

def openOk (n : UInt16) : Frame := ⟨frameMethod, n, methodPayload 20 11 []⟩

/-- The event ends channel `n` of connection `c`: a close of the channel or of the connection. -/
def Ends (c : ConnRef) (n : UInt16) : SystemEvent → Prop
  | .on c' (.frame _ f) => c' = c ∧ ∃ args,
      (f.channel = n ∧ f.payload = methodPayload 20 40 args) ∨
      f.payload = methodPayload 10 50 args
  | .on c' .readError => c' = c
  | .on c' (.tick silent) => c' = c ∧ silent = true
  | .accept _ _ => False

/-- What a `Channel.Open` for number `n`, event `i` of the run, should lead to. -/
structure OpenHandled (evs : List SystemEvent) (i : ℕ) (c : ConnRef) (n : UInt16) : Prop where
  /-- The channel manager has the channel, and it is open. -/
  opened : ∃ ch, ((stateAt evs (i + 1)).conns.read c).channels.get n = some ch ∧
    ((stateAt evs (i + 1)).chans.read ch).state = .open
  /-- The client was sent `Open-Ok`. -/
  answered : openOk n ∈ sentSince (stateAt evs i) (stateAt evs (i + 1)) c
  /-- Until the channel ends, the frames of registered methods reach their handlers. -/
  later : ∀ j env classID methodID args h, i < j →
    evs[j]? =
      some (.on c (.frame env ⟨frameMethod, n, methodPayload classID methodID args⟩)) →
    lookup classID methodID = some h → (∀ k ev, i < k → k < j → evs[k]? = some ev → ¬ Ends c n ev) →
    ∃ ch, ((stateAt evs j).conns.read c).channels.get n = some ch ∧
      stateAt evs (j + 1) = finish c
        (h env ch (methodPayload classID methodID args) (stateAt evs j))

/-- Event `i` is a `Channel.Open` on an open connection, for a number from 1 to 2048 that is not in
use. -/
def OpenArrives (evs : List SystemEvent) (i : ℕ) (c : ConnRef) (n : UInt16) : Prop :=
  (∃ env args, evs[i]? = some (.on c (.frame env (channelOpen n args)))) ∧
    ((stateAt evs i).conns.read c).state = .open ∧ 1 ≤ n ∧ n ≤ 2048 ∧
    ((stateAt evs i).conns.read c).channels.get n = none

def OpensChannels (evs : List SystemEvent) : Prop :=
  ∀ i c n, OpenArrives evs i c n → OpenHandled evs i c n

/-- No `Channel.Open` is: a run opens channels as it should only if none arrives. -/
theorem opensChannels_iff (evs : List SystemEvent) :
    OpensChannels evs ↔ ∀ i c n, ¬ OpenArrives evs i c n := by
  constructor
  · intro h i c n harr
    obtain ⟨ch, hch, -⟩ := (h i c n harr).opened
    unfold stateAt at hch
    rw [(run_inert (evs.take (i + 1))).channels c] at hch
    cases hch
  · exact fun h i c n harr => absurd harr (h i c n)

def openOne : List SystemEvent :=
  [.accept (str "guest") (str "/"), .on 0 (.frame default (channelOpen 1 [0]))]

/-- No channel is there afterwards, and nothing was sent. -/
theorem openOne_ignored :
    ((stateAt openOne 1).conns.read 0).state = .open ∧
      ((stateAt openOne 2).conns.read 0).channels.get 1 = none ∧
      sentSince (stateAt openOne 1) (stateAt openOne 2) 0 = [] ∧ ¬ OpensChannels openOne := by
  refine ⟨rfl, rfl, rfl, fun h => ?_⟩
  obtain ⟨ch, hch, -⟩ := (h 1 0 1 ⟨⟨default, [0], rfl⟩, rfl, by decide, by decide, rfl⟩).opened
  cases hch

end Gomq.Broker
