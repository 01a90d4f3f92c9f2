import Gomq.Broker.Connection
import Gomq.Broker.Stamps
import Gomq.Broker.Wiring

/-!
# Content frames

A client publishes with three kinds of frames: the `Basic.Publish` method, a content header, and
the body in any number of frames. The dispatcher takes method frames only. The handler of the method
publishes an empty message at once, and the content header that follows is an error, which ends the
loop and closes the connection (`not_open_after_header`). So no published content ever reaches a
queue (`carriesContent_never`), and what a queue holds has no payload (`payload_eq_nil`).
-/

namespace Gomq.Broker

open Wire Server

/-! ## The frames of a publish -/

/-- The frames of one publish, each with the environment in which it is handled: the arguments of
the method, the payload of the content header, the payloads of the body frames. -/
structure Content where
  method : Env × Bytes
  header : Env × Bytes
  bodies : List (Env × Bytes)

namespace Content

def publishFrame (n : UInt16) (args : Bytes) : Frame :=
  ⟨frameMethod, n, methodPayload 60 40 args⟩

def headerFrame (n : UInt16) (payload : Bytes) : Frame := ⟨frameHeader, n, payload⟩

def bodyFrame (n : UInt16) (payload : Bytes) : Frame := ⟨frameBody, n, payload⟩

def events (k : Content) (n : UInt16) : List ConnEvent :=
  .frame k.method.1 (publishFrame n k.method.2) :: .frame k.header.1 (headerFrame n k.header.2) ::
    k.bodies.map fun b => .frame b.1 (bodyFrame n b.2)

def body (k : Content) : Bytes := (k.bodies.map Prod.snd).flatten

end Content

structure OpenChannel (s : Server) (c : ConnRef) (n : UInt16) (ch : ChanRef) : Prop where
  serving : (s.conns.read c).state = .open
  notZero : n ≠ 0
  found : (s.conns.read c).channels.get n = some ch
  isOpen : (s.chans.read ch).state = .open

/-- Every queue that holds the published message holds it with the content of the body frames, and
the connection is still in its loop. The message is the one that the publish allocates. -/
structure CarriesContent (c : ConnRef) (n : UInt16) (s : Server) (k : Content) : Prop where
  payload : ∀ q, s.msgs.next ∈ ((k.events n).foldl (serveStep c) s).ready q →
    (((k.events n).foldl (serveStep c) s).msgs.read s.msgs.next).payload = k.body
  serving : (((k.events n).foldl (serveStep c) s).conns.read c).state = .open

/-! ## Replies and closing -/

namespace Server

theorem conn_reply (s : Server) (ch : ChanRef) (payload : Bytes) (c : ConnRef) :
    ((s.reply ch payload).conns.read c).state = (s.conns.read c).state ∧
      ((s.reply ch payload).conns.read c).channels = (s.conns.read c).channels := by
  unfold reply sendMethod sendFrame
  split
  · exact ⟨rfl, rfl⟩
  · split <;> exact ⟨rfl, rfl⟩
  · split
    · exact ⟨rfl, rfl⟩
    · exact ⟨Heap.part_read_modify Connection.state (fun k => { k with out := k.out ++ _ })
          fun _ => rfl,
        Heap.part_read_modify Connection.channels (fun k => { k with out := k.out ++ _ })
          fun _ => rfl⟩

theorem closeConnection_state (s : Server) (c : ConnRef) :
    ((s.closeConnection c).conns.read c).state ≠ .open := by
  unfold closeConnection
  split
  · rename_i h; rw [h]; exact nofun
  · rename_i h; rw [h]; exact nofun
  · dsimp only
    rw [Heap.read_modify_self]
    exact nofun

end Server

theorem foldl_serveStep_of_not_open {c : ConnRef} {s : Server}
    (h : (s.conns.read c).state ≠ .open) (evs : List ConnEvent) :
    evs.foldl (serveStep c) s = s := by
  induction evs with
  | nil => rfl
  | cons ev evs ih =>
    have hstep : serveStep c s ev = s := by unfold serveStep; rw [if_pos h]
    rw [List.foldl_cons, hstep, ih]

theorem serveStep_dispatch {c : ConnRef} {s : Server} {f : Frame} {ch : ChanRef} (env : Env)
    (hopen : (s.conns.read c).state = .open) (h0 : f.channel ≠ 0)
    (hch : (s.conns.read c).channels.get f.channel = some ch) :
    serveStep c s (.frame env f) = finish c (dispatch env ch f s) := by
  unfold serveStep handleChannelFrame
  rw [if_neg (not_not.mpr hopen)]
  dsimp only
  rw [if_neg h0, hch]

/-! ## The method frame -/

section Method

variable {env : Env} {ch : ChanRef} {s : Server}

/-- What a publish leaves alone, whatever the mode of the channel: the connections but for what
they sent, and the payloads. -/
structure Unassembled (s s' : Server) : Prop where
  state : ∀ c, (s'.conns.read c).state = (s.conns.read c).state
  channels : ∀ c, (s'.conns.read c).channels = (s.conns.read c).channels
  payload : (s'.msgs.read s.msgs.next).payload = []

theorem Unassembled.reply {s' : Server} (h : Unassembled s s') (ch : ChanRef) (payload : Bytes) :
    Unassembled s (s'.reply ch payload) where
  state := fun c => (s'.conn_reply ch payload c).1.trans (h.state c)
  channels := fun c => (s'.conn_reply ch payload c).2.trans (h.channels c)
  payload := by
    obtain ⟨k, hk⟩ := s'.reply_eq ch payload
    rw [hk]
    exact h.payload

theorem unassembled_alloc (s : Server) (ex key : GoString) (chans : Heap Channel) :
    Unassembled s
      { s with msgs := s.msgs.alloc (publishedMessage ex key), chans := chans } where
  state := fun _ => rfl
  channels := fun _ => rfl
  payload := by simp [publishedMessage, newMessage, Message.setRoutingMeta]

theorem Unassembled.publish {s' : Server} (h : Unassembled s s') (env : Env) (ex key : GoString)
    (c : UInt16) : Unassembled s (s'.publish env ex key s.msgs.next c).2 where
  state := fun k => by
    rw [(framed_publish env s' ex key s.msgs.next c).conns]; exact h.state k
  channels := fun k => by
    rw [(framed_publish env s' ex key s.msgs.next c).conns]; exact h.channels k
  payload := by
    have hkeep := keeps_publish stampless_payload (fun _ _ => rfl) env s' ex key
      s.msgs.next c s.msgs.next
    rw [hkeep]
    exact h.payload

theorem unassembled_performPublish (env : Env) (ch : ChanRef) (ex key : GoString)
    (mandatory : Bool) (s : Server) :
    Unassembled s (s.performPublish env ch ex key mandatory).2 := by
  have halloc := unassembled_alloc s ex key
  refine performPublish_inv (P := Unassembled s) env mandatory ?_ ?_ ?_ ?_
  · exact fun _ => halloc _
  · exact fun _ => (halloc _).publish env ex key _
  · exact fun _ => (halloc s.chans).publish env ex key _
  · exact fun u payload hu => hu.reply ch payload

theorem decodePublish_yields {chk : Check} {payload rest : Bytes} {req : Request}
    (h : decodePublish chk payload = .ok (req, rest)) :
    ∃ ex key mandatory immediate, req = .publish ex key mandatory immediate := by
  unfold decodePublish at h
  obtain ⟨_, _, -, h⟩ := Decoder.bind_eq_ok h
  obtain ⟨_, _, -, h⟩ := Decoder.bind_eq_ok h
  obtain ⟨_, _, -, h⟩ := Decoder.bind_eq_ok h
  obtain ⟨_, _, -, h⟩ := Decoder.bind_eq_ok h
  obtain ⟨_, _, -, h⟩ := Decoder.bind_eq_ok h
  cases h
  exact ⟨_, _, _, _, rfl⟩

theorem dispatch_publish (env : Env) (ch : ChanRef) (n : UInt16) (args : Bytes) (s : Server) :
    (∃ e, dispatch env ch (Content.publishFrame n args) s = (some e, s)) ∨
      Unassembled s (dispatch env ch (Content.publishFrame n args) s).2 := by
  unfold Content.publishFrame
  rw [dispatch_ids (h := handlePublish) rfl]
  unfold handlePublish handleWith
  cases hdec : decodePublish (s.check ch) (methodPayload 60 40 args) with
  | error e => exact Or.inl ⟨e, rfl⟩
  | ok p =>
    obtain ⟨req, rest⟩ := p
    obtain ⟨ex, key, mandatory, immediate, rfl⟩ := decodePublish_yields hdec
    exact Or.inr (unassembled_performPublish env ch ex key mandatory s)

theorem after_method {c : ConnRef} {n : UInt16} (h : OpenChannel s c n ch) (env : Env)
    (args : Bytes) :
    serveStep c s (.frame env (Content.publishFrame n args)) = s.closeConnection c ∨
      ∃ u, Unassembled s u ∧
        (serveStep c s (.frame env (Content.publishFrame n args)) = u ∨
          serveStep c s (.frame env (Content.publishFrame n args)) = u.closeConnection c) := by
  rw [serveStep_dispatch env h.serving h.notZero h.found]
  rcases dispatch_publish env ch n args s with ⟨e, he⟩ | hun
  · rw [he]
    exact Or.inl rfl
  · rcases hd : dispatch env ch (Content.publishFrame n args) s with ⟨_ | e, u⟩
    · rw [hd] at hun
      exact Or.inr ⟨u, hun, Or.inl rfl⟩
    · rw [hd] at hun
      exact Or.inr ⟨u, hun, Or.inr rfl⟩

end Method

/-! ## The content header and the body -/

section Header

variable {c : ConnRef} {n : UInt16} {s : Server} {ch : ChanRef}

theorem serveStep_header (env : Env) (payload : Bytes)
    (hopen : (s.conns.read c).state = .open) (h0 : n ≠ 0)
    (hch : (s.conns.read c).channels.get n = some ch) :
    serveStep c s (.frame env (Content.headerFrame n payload)) = s.closeConnection c := by
  rw [serveStep_dispatch env hopen h0 hch]
  rfl

theorem after_header (h : OpenChannel s c n ch) (k : Content) :
    (k.events n).foldl (serveStep c) s = s.closeConnection c ∨
      ∃ u, Unassembled s u ∧ (k.events n).foldl (serveStep c) s = u.closeConnection c := by
  unfold Content.events
  rw [List.foldl_cons, List.foldl_cons]
  rcases after_method h k.method.1 k.method.2 with hm | ⟨u, hu, hm | hm⟩
  · -- the frames after the method find the connection closed
    left
    rw [hm, ← List.foldl_cons]
    exact foldl_serveStep_of_not_open (s.closeConnection_state c) _
  · right
    refine ⟨u, hu, ?_⟩
    have hch : (u.conns.read c).channels.get n = some ch := by rw [hu.channels]; exact h.found
    rw [hm, serveStep_header _ _ ((hu.state c).trans h.serving) h.notZero hch]
    exact foldl_serveStep_of_not_open (u.closeConnection_state c) _
  · right
    refine ⟨u, hu, ?_⟩
    rw [hm, ← List.foldl_cons]
    exact foldl_serveStep_of_not_open (u.closeConnection_state c) _

theorem not_open_after_header (h : OpenChannel s c n ch) (k : Content) :
    (((k.events n).foldl (serveStep c) s).conns.read c).state ≠ .open := by
  rcases after_header h k with hend | ⟨u, -, hend⟩
  · rw [hend]; exact s.closeConnection_state c
  · rw [hend]; exact u.closeConnection_state c

theorem closeConnection_eq (s : Server) (c : ConnRef) :
    ∃ conns chans, s.closeConnection c = { s with conns := conns, chans := chans } := by
  have hfold : ∀ (chs : List ChanRef) (u : Server),
      ∃ chans, chs.foldl closeChannel u = { u with chans := chans } := by
    intro chs
    induction chs with
    | nil => exact fun u => ⟨u.chans, rfl⟩
    | cons x chs ih =>
      intro u
      obtain ⟨chans, hc⟩ := ih (u.closeChannel x)
      exact ⟨chans, hc⟩
  unfold closeConnection
  split
  · exact ⟨s.conns, s.chans, rfl⟩
  · exact ⟨s.conns, s.chans, rfl⟩
  · dsimp only
    obtain ⟨chans, hc⟩ := hfold (s.conns.read c).channels.vals
      { s with conns := s.conns.modify c fun k => { k with state := .closing, channels := ∅ } }
    rw [hc]
    exact ⟨_, _, rfl⟩

theorem payload_eq_nil (h : OpenChannel s c n ch) (hb : s.Bounded s.msgs.next) (k : Content)
    (q : GoString) (hq : s.msgs.next ∈ ((k.events n).foldl (serveStep c) s).ready q) :
    (((k.events n).foldl (serveStep c) s).msgs.read s.msgs.next).payload = [] := by
  rcases after_header h k with hend | ⟨u, hu, hend⟩
  · obtain ⟨conns, chans, hclose⟩ := closeConnection_eq s c
    rw [hend, hclose] at hq
    exact absurd (hb q _ hq) (lt_irrefl _)
  · obtain ⟨conns, chans, hclose⟩ := closeConnection_eq u c
    rw [hend, hclose]
    exact hu.payload

/-- No content is carried, on any channel and in any number of frames. -/
theorem carriesContent_never (s : Server) (c : ConnRef) (n : UInt16) (ch : ChanRef)
    (h : OpenChannel s c n ch) (k : Content) : ¬ CarriesContent c n s k :=
  fun hk => not_open_after_header h k hk.serving

end Header

/-! ## A publish to the default exchange -/

def longKey : GoString := List.replicate 36 0x61

/-- `Basic.Publish` to the default exchange with that key, a content header, and the body `hi` in
two frames. -/
def sayHi : Content where
  method := (default, writeUint16 0 ++ writeShortString [] ++ writeShortString longKey ++ [0])
  header := (default, writeUint16 60 ++ writeUint16 0 ++ writeUint64 2 ++ writeUint16 0)
  bodies := [(default, str "h"), (default, str "i")]

/-- One connection with one channel. Queue `q` is bound under the key that was sent, and under what
the handler reads in its place: it takes the ids for the reserved field and the exchange, so that
the key starts at the arguments. -/
def oneChannel : Server where
  __ := newServer
  conns := (Heap.empty.alloc { negotiated (str "guest") (str "/") with
    channels := (∅ : GoMap UInt16 ChanRef).set 1 0 })
  chans := Heap.empty.alloc { newChannel 1 0 with state := .open }
  queues := (∅ : GoMap GoString Queue).set (str "q") ⟨str "q", true, false, false, [], none⟩
  bindings := ((⟨∅, ∅⟩ : BindingManager).bind [] (str "q") longKey []).bind [] (str "q")
    ([0, 0, 0, 36] ++ longKey) []

theorem openChannel_oneChannel : OpenChannel oneChannel 0 1 0 := ⟨rfl, by decide, rfl, rfl⟩

/-- The queue gets the message, but with no payload, and the connection is closed. -/
theorem sayHi_lost :
    OpenChannel oneChannel 0 1 0 ∧ sayHi.body = str "hi" ∧
      ((sayHi.events 1).foldl (serveStep 0) oneChannel).ready (str "q") = [0] ∧
      (((sayHi.events 1).foldl (serveStep 0) oneChannel).msgs.read 0).payload = [] ∧
      (((sayHi.events 1).foldl (serveStep 0) oneChannel).conns.read 0).state = .closed ∧
      ¬ CarriesContent 0 1 oneChannel sayHi := by
  have hready : ((sayHi.events 1).foldl (serveStep 0) oneChannel).ready (str "q") = [0] := by
    decide +kernel
  have hpayload : (((sayHi.events 1).foldl (serveStep 0) oneChannel).msgs.read 0).payload = [] := by
    decide +kernel
  refine ⟨openChannel_oneChannel, by decide, hready, hpayload, by decide +kernel, fun h => ?_⟩
  have hbody := h.payload (str "q") (by rw [hready]; exact List.mem_singleton.mpr rfl)
  rw [show oneChannel.msgs.next = 0 from rfl, hpayload] at hbody
  exact absurd hbody (by decide)

theorem carriesContent_never_sayHi : ¬ CarriesContent 0 1 oneChannel sayHi :=
  carriesContent_never oneChannel 0 1 0 openChannel_oneChannel sayHi

end Gomq.Broker
