import Gomq.Broker.Routed

/-!
# Publisher confirms

A publish on a channel in confirm mode takes the next tag, publishes, and then answers `Basic.Ack`
or `Basic.Nack`. No answer is sent when the publish fails, which it does for a missing exchange,
and none when access is refused or the channel is transactional. The answer is `Ack` whenever a
queue was selected, whether it exists or not. `confirmsAll_iff` says which sequences of publishes
are answered as they should be; since publishes leave the configuration alone, the condition can be
read off the state in which the sequence starts.
-/

namespace Gomq.Broker

open Wire Server List

/-! ## Frames sent -/

def sentSince (s s' : Server) (k : ConnRef) : List Frame :=
  (s'.conns.read k).out.drop (s.conns.read k).out.length

def isConfirm (f : Frame) : Bool :=
  f.payload.take 4 == methodPayload 60 80 [] ||
    f.payload.take 4 == methodPayload 60 120 []

namespace Server

def sent (s : Server) (ch : ChanRef) (payload : Bytes) : Server :=
  { s with
    conns := s.conns.modify (s.chans.read ch).conn fun k =>
      { k with out := k.out ++ [⟨frameMethod, (s.chans.read ch).id, payload⟩] } }

theorem reply_of_up {s : Server} {ch : ChanRef} {payload : Bytes}
    (h : (s.conns.read (s.chans.read ch).conn).raw = .up) :
    s.reply ch payload = s.sent ch payload := by
  unfold reply sendMethod sendFrame
  rw [h]
  rfl

@[simp] theorem out_sent (s : Server) (ch : ChanRef) (payload : Bytes) :
    ((s.sent ch payload).conns.read (s.chans.read ch).conn).out =
      (s.conns.read (s.chans.read ch).conn).out ++
        [⟨frameMethod, (s.chans.read ch).id, payload⟩] := by
  simp [sent]

theorem raw_sent (s : Server) (ch : ChanRef) (payload : Bytes) (k : ConnRef) :
    ((s.sent ch payload).conns.read k).raw = (s.conns.read k).raw :=
  Heap.part_read_modify Connection.raw (fun k => { k with out := k.out ++ _ }) fun _ => rfl

def Hears (s : Server) (ch : ChanRef) : Prop := (s.conns.read (s.chans.read ch).conn).raw = .up

instance (s : Server) (ch : ChanRef) : Decidable (s.Hears ch) :=
  inferInstanceAs (Decidable (_ = _))

theorem reply_of_not_hears {s : Server} {ch : ChanRef} {payload : Bytes} (h : ¬ s.Hears ch) :
    s.reply ch payload = s := by
  unfold reply sendMethod sendFrame
  split <;> rename_i hraw
  · rfl
  · split <;> rfl
  · exact absurd hraw h

theorem raw_reply (s : Server) (ch : ChanRef) (payload : Bytes) (k : ConnRef) :
    ((s.reply ch payload).conns.read k).raw = (s.conns.read k).raw := by
  by_cases h : s.Hears ch
  · rw [reply_of_up h, raw_sent]
  · rw [reply_of_not_hears h]

theorem out_reply (s : Server) (ch : ChanRef) (payload : Bytes) (k : ConnRef) :
    ((s.reply ch payload).conns.read k).out = (s.conns.read k).out ++
      if k = (s.chans.read ch).conn ∧ s.Hears ch then
        [⟨frameMethod, (s.chans.read ch).id, payload⟩] else [] := by
  by_cases h : s.Hears ch
  · rw [reply_of_up h]
    by_cases hk : k = (s.chans.read ch).conn
    · rw [if_pos ⟨hk, h⟩, hk, out_sent]
    · rw [if_neg fun hc => hk hc.1, append_nil, sent, Heap.read_modify_ne hk]
  · rw [if_neg fun hc => h hc.2, append_nil, reply_of_not_hears h]

end Server

theorem sentSince_of_out {s s' : Server} {k : ConnRef} {l : List Frame}
    (h : (s'.conns.read k).out = (s.conns.read k).out ++ l) : sentSince s s' k = l := by
  unfold sentSince
  rw [h, drop_left]

theorem sentSince_of_conns {s s' : Server} (h : s'.conns = s.conns) (k : ConnRef) :
    sentSince s s' k = [] :=
  sentSince_of_out (by rw [h, append_nil])

theorem take_methodPayload (classID methodID : UInt16) (args : Bytes) :
    (methodPayload classID methodID args).take 4 =
      methodPayload classID methodID [] := by
  unfold methodPayload
  rw [append_nil, take_left']
  simp [writeUint16, length_beBytes]

theorem take_confirmPayload (tag : UInt64) (ack : Bool) :
    (confirmPayload tag ack).take 4 =
      methodPayload 60 (if ack then 80 else 120) [] := take_methodPayload _ _ _

theorem isConfirm_confirm (t : UInt8) (id : UInt16) (tag : UInt64) (ack : Bool) :
    isConfirm ⟨t, id, confirmPayload tag ack⟩ = true := by
  unfold isConfirm
  rw [take_confirmPayload]
  cases ack <;> decide

theorem isConfirm_return (t : UInt8) (id : UInt16) (args : Bytes) :
    isConfirm ⟨t, id, methodPayload 60 50 args⟩ = false := by
  unfold isConfirm
  rw [take_methodPayload]
  decide

theorem confirmPayload_ack_inj {t t' : UInt64} {a a' : Bool}
    (h : confirmPayload t a = confirmPayload t' a') : a = a' := by
  have h4 : methodPayload 60 (if a then 80 else 120) [] =
      methodPayload 60 (if a' then 80 else 120) [] := by
    rw [← take_confirmPayload t, ← take_confirmPayload t', h]
  revert h4
  cases a <;> cases a' <;> decide

/-! ## Sequences of publishes -/

structure PublishArgs where
  exchange : GoString
  routingKey : GoString
  mandatory : Bool
  immediate : Bool

def PublishArgs.request (r : PublishArgs) : Request :=
  .publish r.exchange r.routingKey r.mandatory r.immediate

def publishStep (env : Env) (ch : ChanRef) (s : Server) (r : PublishArgs) : Server :=
  (exec env ch r.request s).2

/-- One confirm for channel `ch` was sent, with the given tag, and it is an `Ack` exactly when the
message, which the publish allocates, was put into an existing queue. -/
def Answered (env : Env) (ch : ChanRef) (s : Server) (tag : UInt64) (r : PublishArgs) : Prop :=
  ∃ ack : Bool,
    (sentSince s (publishStep env ch s r) (s.chans.read ch).conn).filter isConfirm =
        [⟨frameMethod, (s.chans.read ch).id, confirmPayload tag ack⟩] ∧
      (ack = true ↔ (publishStep env ch s r).Stored s.msgs.next)

/-- The `n`-th publish of the sequence is answered under tag `n`. -/
def ConfirmsAll (env : Env) (ch : ChanRef) (s : Server) (rs : List PublishArgs) : Prop :=
  ∀ (i : ℕ) (r : PublishArgs), rs[i]? = some r →
    Answered env ch ((rs.take i).foldl (publishStep env ch) s) (UInt64.ofNat (i + 1)) r

/-- What a publish needs for a correct confirm: access, an exchange, and that some of the selected
queues exists unless none is selected. -/
structure Confirmable (s : Server) (ch : ChanRef) (r : PublishArgs) : Prop where
  notTx : (s.chans.read ch).txMode = false
  permitted : s.permits ch r.request = .ok ()
  exchange : (s.exchanges.get r.exchange).isSome
  queue : s.selected r.exchange r.routingKey = [] ∨
    ∃ q ∈ s.selected r.exchange r.routingKey, (s.queues.get q).isSome

/-! ## One publish -/

namespace Server

def prepared (s : Server) (ch : ChanRef) (r : PublishArgs) : Server :=
  { s with msgs := s.msgs.alloc (publishedMessage r.exchange r.routingKey) }.modifyChan ch
    fun c => { c with deliveryTag := c.deliveryTag + 1 }

theorem conn_prepared (s : Server) (ch : ChanRef) (r : PublishArgs) :
    ((s.prepared ch r).chans.read ch).conn = (s.chans.read ch).conn := by
  simp [prepared, modifyChan]

theorem id_prepared (s : Server) (ch : ChanRef) (r : PublishArgs) :
    ((s.prepared ch r).chans.read ch).id = (s.chans.read ch).id := by
  simp [prepared, modifyChan]

theorem headers_prepared (s : Server) (ch : ChanRef) (r : PublishArgs) :
    ((s.prepared ch r).msgs.read s.msgs.next).properties.headers = [] := by
  have : (s.prepared ch r).msgs = s.msgs.alloc (publishedMessage r.exchange r.routingKey) := rfl
  rw [this, Heap.read_alloc_self]
  rfl

theorem selected_prepared (s : Server) (ch : ChanRef) (r : PublishArgs) (ex key : GoString) :
    (s.prepared ch r).selected ex key = s.selected ex key := by
  apply selected_congr <;> rfl

end Server

section OnePublish

variable {env : Env} {ch : ChanRef} {s : Server} {r : PublishArgs}

theorem publishStep_denied {e : GoError} (h : s.permits ch r.request = .error e) :
    publishStep env ch s r = s := by
  unfold publishStep exec; rw [h]

theorem publishStep_confirm (env : Env) (hp : s.permits ch r.request = .ok ())
    (htx : (s.chans.read ch).txMode = false) (hconf : (s.chans.read ch).confirmMode = true) :
    publishStep env ch s r =
      match (s.prepared ch r).publish env r.exchange r.routingKey s.msgs.next
        (s.chans.read ch).id with
      | (.error _, u) => u
      | (.ok routed, u) =>
        (u.sendPublisherConfirm ch ((s.chans.read ch).deliveryTag + 1)
          (decide (0 < routed))).sendReturn ch r.exchange r.routingKey r.mandatory routed := by
  unfold publishStep exec
  rw [hp]
  have hperf : perform env ch r.request s =
      s.performPublish env ch r.exchange r.routingKey r.mandatory := rfl
  dsimp only
  rw [hperf]
  unfold performPublish
  dsimp only
  rw [htx, hconf, if_neg (by decide), if_pos rfl]
  have hprep : { s with
      msgs := s.msgs.alloc (publishedMessage r.exchange r.routingKey) }.modifyChan ch
      (fun c => { c with deliveryTag := (s.chans.read ch).deliveryTag + 1 }) =
      s.prepared ch r := rfl
  rw [hprep]
  obtain ⟨e | routed, u⟩ := (s.prepared ch r).publish env r.exchange r.routingKey s.msgs.next
    (s.chans.read ch).id
  · rfl
  · rfl

theorem filter_sendReturn {u : Server} {routed : ℕ} {l : List Frame}
    (hconn : (u.chans.read ch).conn = (s.chans.read ch).conn)
    (hup : (u.conns.read (u.chans.read ch).conn).raw = .up)
    (hout : (u.conns.read (s.chans.read ch).conn).out =
      (s.conns.read (s.chans.read ch).conn).out ++ l) :
    (sentSince s (u.sendReturn ch r.exchange r.routingKey r.mandatory routed)
        (s.chans.read ch).conn).filter isConfirm = l.filter isConfirm := by
  unfold sentSince sendReturn
  split
  · rw [reply_of_up hup, ← hconn, out_sent, hconn, hout, append_assoc,
      drop_left, filter_append,
      filter_cons_of_neg (by rw [isConfirm_return]; decide), filter_nil, append_nil]
  · rw [hout, drop_left]

theorem filter_confirm {u : Server} {a : Bool} {tag : UInt64} {routed : ℕ}
    (hconns : u.conns = s.conns) (hconn : (u.chans.read ch).conn = (s.chans.read ch).conn)
    (hid : (u.chans.read ch).id = (s.chans.read ch).id)
    (hup : (s.conns.read (s.chans.read ch).conn).raw = .up) :
    (sentSince s ((u.sendPublisherConfirm ch tag a).sendReturn ch r.exchange r.routingKey
        r.mandatory routed) (s.chans.read ch).conn).filter isConfirm =
      [⟨frameMethod, (s.chans.read ch).id, confirmPayload tag a⟩] := by
  have hupu : (u.conns.read (u.chans.read ch).conn).raw = .up := by rw [hconns, hconn]; exact hup
  have hw : u.sendPublisherConfirm ch tag a = u.sent ch (confirmPayload tag a) :=
    reply_of_up hupu
  rw [hw, filter_sendReturn (u := u.sent ch (confirmPayload tag a)) hconn
    (by rw [raw_sent]; exact hupu)
    (by rw [← hconn, out_sent, hconns, hid]),
    filter_cons_of_pos (isConfirm_confirm _ _ _ _), filter_nil]

theorem stored_confirm {u : Server} {a : Bool} {tag : UInt64} {routed : ℕ} {m : MsgRef}
    (hup : (u.conns.read (u.chans.read ch).conn).raw = .up) :
    ((u.sendPublisherConfirm ch tag a).sendReturn ch r.exchange r.routingKey r.mandatory
      routed).Stored m ↔ u.Stored m := by
  have hw : u.sendPublisherConfirm ch tag a = u.sent ch (confirmPayload tag a) :=
    reply_of_up hup
  rw [hw]
  unfold sendReturn
  split
  · rw [reply_of_up (by rw [raw_sent]; exact hup)]
    rfl
  · rfl

theorem publishStep_tx (env : Env) (hp : s.permits ch r.request = .ok ())
    (htx : (s.chans.read ch).txMode = true) :
    publishStep env ch s r =
      ({ s with
        msgs := s.msgs.alloc (publishedMessage r.exchange r.routingKey) }.stageTxPublish ch
          ⟨r.exchange, r.routingKey, s.msgs.next⟩).sendReturn ch r.exchange r.routingKey
            r.mandatory 0 := by
  unfold publishStep exec
  rw [hp]
  show (s.performPublish env ch r.exchange r.routingKey r.mandatory).2 = _
  unfold performPublish
  dsimp only
  rw [if_pos htx]

theorem filter_tx (hp : s.permits ch r.request = .ok ())
    (htx : (s.chans.read ch).txMode = true)
    (hup : (s.conns.read (s.chans.read ch).conn).raw = .up) :
    (sentSince s (publishStep env ch s r) (s.chans.read ch).conn).filter isConfirm = [] := by
  rw [publishStep_tx env hp htx]
  set u := { s with
    msgs := s.msgs.alloc (publishedMessage r.exchange r.routingKey) }.stageTxPublish ch
      ⟨r.exchange, r.routingKey, s.msgs.next⟩ with hu
  have hconn : (u.chans.read ch).conn = (s.chans.read ch).conn := by
    simp [hu, stageTxPublish, modifyChan]
  have hconns : u.conns = s.conns := rfl
  rw [filter_sendReturn (l := []) hconn (by rw [hconns, hconn]; exact hup)
    (by rw [hconns, append_nil])]
  rfl

end OnePublish

/-! ## Which publishes are answered -/

section Answers

variable (env : Env) {ch : ChanRef} {s : Server} {r : PublishArgs}
  (hup : (s.conns.read (s.chans.read ch).conn).raw = .up)
  (hconf : (s.chans.read ch).confirmMode = true) (hfresh : s.Bounded s.msgs.next)

include hup hconf hfresh

theorem answered_of_confirmable (h : Confirmable s ch r) :
    Answered env ch s ((s.chans.read ch).deliveryTag + 1) r := by
  have hstep := publishStep_confirm env h.permitted h.notTx hconf
  have hframe := framed_publish env (s.prepared ch r) r.exchange r.routingKey s.msgs.next
    (s.chans.read ch).id
  have hsel := s.selected_prepared ch r r.exchange r.routingKey
  have hnew : ¬ (s.prepared ch r).Stored s.msgs.next := by
    rintro ⟨q, -, hq⟩
    exact absurd (hfresh q _ hq) (lt_irrefl _)
  obtain ⟨n, u, hpub, hzero, hstored⟩ := publish_outcome env (s.chans.read ch).id
    (s.headers_prepared ch r) r.routingKey h.exchange hnew
  rw [hsel] at hzero hstored
  -- the count is positive exactly when the message was stored
  have hiff : 0 < n ↔ u.Stored s.msgs.next := by
    rw [Nat.pos_iff_ne_zero, Ne, hzero, hstored]
    constructor
    · exact fun hne => h.queue.resolve_left hne
    · rintro ⟨q, hq, -⟩
      exact ne_nil_of_mem hq
  rw [hpub] at hstep hframe
  dsimp only at hstep hframe
  have hconn : (u.chans.read ch).conn = (s.chans.read ch).conn := by
    rw [hframe.chans]; exact s.conn_prepared ch r
  have hid : (u.chans.read ch).id = (s.chans.read ch).id := by
    rw [hframe.chans]; exact s.id_prepared ch r
  have hconns : u.conns = s.conns := hframe.conns
  refine ⟨decide (0 < n), ?_, ?_⟩
  · rw [hstep]
    exact filter_confirm hconns hconn hid hup
  · rw [hstep, stored_confirm (by rw [hconns, hconn]; exact hup), decide_eq_true_iff]
    exact hiff

theorem confirmable_of_answered {tag : UInt64} (h : Answered env ch s tag r) :
    Confirmable s ch r := by
  obtain ⟨ack, hsent, hack⟩ := h
  -- a step that sends no frame leaves no confirm
  have hsilent : (publishStep env ch s r).conns ≠ s.conns := by
    intro hc
    rw [sentSince, hc, drop_length] at hsent
    cases hsent
  cases hperm : s.permits ch r.request with
  | error e => exact absurd (by rw [publishStep_denied hperm]) hsilent
  | ok _ =>
  cases htx : (s.chans.read ch).txMode with
  | true => rw [filter_tx hperm htx hup] at hsent; cases hsent
  | false =>
  have hstep := publishStep_confirm env hperm htx hconf
  have hsel := s.selected_prepared ch r r.exchange r.routingKey
  have hex : (s.exchanges.get r.exchange).isSome := by
    by_contra hmissing
    have hnone : (s.prepared ch r).exchanges.get r.exchange = none :=
      Option.not_isSome_iff_eq_none.mp hmissing
    rw [publish_of_missing hnone] at hstep
    exact hsilent (by rw [hstep]; rfl)
  refine ⟨htx, hperm, hex, ?_⟩
  by_contra hbad
  rw [not_or] at hbad
  obtain ⟨hne, hnoq⟩ := hbad
  have hnone : ∀ q ∈ (s.prepared ch r).selected r.exchange r.routingKey,
      (s.prepared ch r).queues.get q = none := by
    intro q hq
    by_contra hq'
    exact hnoq ⟨q, by rw [← hsel]; exact hq, Option.ne_none_iff_isSome.mp hq'⟩
  rw [publish_of_none env (s.chans.read ch).id (s.headers_prepared ch r) hex hnone] at hstep
  set n := ((s.prepared ch r).selected r.exchange r.routingKey).length with hn
  set u := (s.prepared ch r).recordStats r.exchange n
  dsimp only at hstep
  have hpos : 0 < n := by rw [hn, hsel]; exact length_pos_of_ne_nil hne
  have hconn : (u.chans.read ch).conn = (s.chans.read ch).conn := s.conn_prepared ch r
  have hid : (u.chans.read ch).id = (s.chans.read ch).id := s.id_prepared ch r
  have hconns : u.conns = s.conns := rfl
  -- so an `Ack` was sent, although no queue has the message
  rw [hstep, filter_confirm hconns hconn hid hup, decide_eq_true hpos] at hsent
  have htrue : true = ack := confirmPayload_ack_inj (Frame.mk.inj (List.cons.inj hsent).1).2.2
  have hstored := hack.mp htrue.symm
  rw [hstep, stored_confirm (by rw [hconns, hconn]; exact hup)] at hstored
  obtain ⟨q, -, hq⟩ := hstored
  exact absurd (hfresh q _ hq) (lt_irrefl _)

end Answers

/-! ## Runs -/

/-- What all states of a sequence of publishes share with the state it started in. -/
structure Session (ch : ChanRef) (s₀ s : Server) : Prop where
  exchanges : s.exchanges = s₀.exchanges
  queues : s.queues = s₀.queues
  bindings : s.bindings = s₀.bindings
  e2eBindings : s.e2eBindings = s₀.e2eBindings
  aclMgr : s.aclMgr = s₀.aclMgr
  conn : (s.chans.read ch).conn = (s₀.chans.read ch).conn
  txMode : (s.chans.read ch).txMode = (s₀.chans.read ch).txMode
  confirm : (s.chans.read ch).confirmMode = true
  username : (s.conns.read (s.chans.read ch).conn).username =
    (s₀.conns.read (s₀.chans.read ch).conn).username
  vhost : (s.conns.read (s.chans.read ch).conn).vhost =
    (s₀.conns.read (s₀.chans.read ch).conn).vhost
  up : (s.conns.read (s.chans.read ch).conn).raw = .up
  fresh : s.Bounded s.msgs.next

namespace Session

variable (env : Env) {ch : ChanRef} {s₀ s : Server} {r : PublishArgs}

theorem confirmable (h : Session ch s₀ s) : Confirmable s ch r ↔ Confirmable s₀ ch r := by
  have hperm : s.permits ch r.request = s₀.permits ch r.request := by
    unfold permits
    cases r.request.access with
    | none => rfl
    | some a =>
      show s.check ch a = s₀.check ch a
      unfold check
      rw [h.aclMgr]
      simp only [h.username, h.vhost]
  have hsel := selected_congr h.exchanges h.bindings h.e2eBindings r.exchange r.routingKey
  constructor <;> rintro ⟨h1, h2, h3, h4⟩
  · rw [h.txMode] at h1
    rw [hperm] at h2
    rw [h.exchanges] at h3
    rw [hsel, h.queues] at h4
    exact ⟨h1, h2, h3, h4⟩
  · rw [← h.txMode] at h1
    rw [← hperm] at h2
    rw [← h.exchanges] at h3
    rw [← hsel, ← h.queues] at h4
    exact ⟨h1, h2, h3, h4⟩

theorem sent (h : Session ch s₀ s) (payload : Bytes) : Session ch s₀ (s.sent ch payload) where
  exchanges := h.exchanges
  queues := h.queues
  bindings := h.bindings
  e2eBindings := h.e2eBindings
  aclMgr := h.aclMgr
  conn := h.conn
  txMode := h.txMode
  confirm := h.confirm
  username := by simpa [Server.sent] using h.username
  vhost := by simpa [Server.sent] using h.vhost
  up := by rw [raw_sent]; exact h.up
  fresh := h.fresh

theorem reply (h : Session ch s₀ s) (payload : Bytes) : Session ch s₀ (s.reply ch payload) := by
  rw [reply_of_up h.up]; exact h.sent payload

theorem sendReturn (h : Session ch s₀ s) (ex key : GoString) (mandatory : Bool) (routed : ℕ) :
    Session ch s₀ (s.sendReturn ch ex key mandatory routed) := by
  unfold Server.sendReturn
  split
  · exact h.reply _
  · exact h

theorem alloc (h : Session ch s₀ s) (m : Message) (tag : UInt64) (staged : List TxEntry) :
    Session ch s₀ ({ s with msgs := s.msgs.alloc m }.modifyChan ch
      fun c => { c with deliveryTag := tag, txPending := staged }) where
  exchanges := h.exchanges
  queues := h.queues
  bindings := h.bindings
  e2eBindings := h.e2eBindings
  aclMgr := h.aclMgr
  conn := by simpa [modifyChan] using h.conn
  txMode := by simpa [modifyChan] using h.txMode
  confirm := by simpa [modifyChan] using h.confirm
  username := by simpa [modifyChan] using h.username
  vhost := by simpa [modifyChan] using h.vhost
  up := by simpa [modifyChan] using h.up
  fresh := fun q m hm => Nat.lt_succ_of_lt (h.fresh q m hm)

theorem publish (h : Session ch s₀ s) (ex key : GoString) {msg : MsgRef} (c : UInt16)
    (hm : msg < s.msgs.next) : Session ch s₀ (s.publish env ex key msg c).2 := by
  have hf := framed_publish env s ex key msg c
  have hb := bounded_publish env c h.fresh hm ex key
  constructor
  · rw [hf.exchanges]; exact h.exchanges
  · rw [hf.queues]; exact h.queues
  · rw [hf.bindings]; exact h.bindings
  · rw [hf.e2eBindings]; exact h.e2eBindings
  · rw [hf.aclMgr]; exact h.aclMgr
  · rw [hf.chans]; exact h.conn
  · rw [hf.chans]; exact h.txMode
  · rw [hf.chans]; exact h.confirm
  · rw [hf.chans, hf.conns]; exact h.username
  · rw [hf.chans, hf.conns]; exact h.vhost
  · rw [hf.chans, hf.conns]; exact h.up
  · rw [hf.next]; exact hb

theorem step (h : Session ch s₀ s) : Session ch s₀ (publishStep env ch s r) := by
  cases hperm : s.permits ch r.request with
  | error e => rw [publishStep_denied hperm]; exact h
  | ok _ =>
  cases htx : (s.chans.read ch).txMode with
  | true =>
    have hstep : publishStep env ch s r =
        ({ s with
          msgs := s.msgs.alloc (publishedMessage r.exchange r.routingKey) }.stageTxPublish
            ch ⟨r.exchange, r.routingKey, s.msgs.next⟩).sendReturn ch r.exchange r.routingKey
              r.mandatory 0 := publishStep_tx env hperm htx
    rw [hstep]
    exact (h.alloc _ (s.chans.read ch).deliveryTag _).sendReturn _ _ _ _
  | false =>
    rw [publishStep_confirm env hperm htx h.confirm]
    have hprep : Session ch s₀ (s.prepared ch r) := h.alloc _ _ (s.chans.read ch).txPending
    have hpub := hprep.publish env r.exchange r.routingKey (s.chans.read ch).id
      (Nat.lt_succ_self s.msgs.next)
    split <;> rename_i heq <;> rw [heq] at hpub
    · exact hpub
    · exact (hpub.reply _).sendReturn _ _ _ _

theorem run (h : Session ch s₀ s) (rs : List PublishArgs) :
    Session ch s₀ (rs.foldl (publishStep env ch) s) := by
  induction rs generalizing s with
  | nil => exact h
  | cons r rs ih => exact ih (h.step env)

theorem deliveryTag_step (h : Session ch s₀ s) (hc : Confirmable s ch r) :
    ((publishStep env ch s r).chans.read ch).deliveryTag =
      (s.chans.read ch).deliveryTag + 1 := by
  rw [publishStep_confirm env hc.permitted hc.notTx h.confirm]
  have hf := framed_publish env (s.prepared ch r) r.exchange r.routingKey s.msgs.next
    (s.chans.read ch).id
  have htag : ((s.prepared ch r).chans.read ch).deliveryTag =
      (s.chans.read ch).deliveryTag + 1 := by simp [prepared, modifyChan]
  split <;> rename_i heq <;> rw [heq] at hf
  · rw [hf.chans]; exact htag
  · rw [chans_sendReturn, sendPublisherConfirm, chans_reply, hf.chans]
    exact htag

theorem deliveryTag_run (h : Session ch s₀ s) (rs : List PublishArgs)
    (hc : ∀ r ∈ rs, Confirmable s₀ ch r) :
    ((rs.foldl (publishStep env ch) s).chans.read ch).deliveryTag =
      (s.chans.read ch).deliveryTag + UInt64.ofNat rs.length := by
  induction rs generalizing s with
  | nil => simp
  | cons r rs ih =>
    rw [foldl_cons, ih (h.step env) fun r' hr' => hc r' (mem_cons_of_mem r hr'),
      h.deliveryTag_step env (h.confirmable.mpr (hc r mem_cons_self)), length_cons,
      UInt64.ofNat_add, UInt64.add_assoc, UInt64.add_comm (UInt64.ofNat rs.length)]
    rfl

end Session

/-- On a channel in confirm mode that has given no tag yet, all publishes of a sequence are
answered exactly when each is confirmable in the state before the first. -/
theorem confirmsAll_iff (env : Env) (ch : ChanRef) (s : Server) (rs : List PublishArgs)
    (hup : (s.conns.read (s.chans.read ch).conn).raw = .up)
    (hconf : (s.chans.read ch).confirmMode = true) (htag : (s.chans.read ch).deliveryTag = 0)
    (hfresh : s.Bounded s.msgs.next) :
    ConfirmsAll env ch s rs ↔ ∀ r ∈ rs, Confirmable s ch r := by
  have hsession : ∀ i, Session ch s ((rs.take i).foldl (publishStep env ch) s) := fun i =>
    Session.run env ⟨rfl, rfl, rfl, rfl, rfl, rfl, rfl, hconf, rfl, rfl, hup, hfresh⟩ (rs.take i)
  constructor
  · intro hall r hr
    obtain ⟨i, hi⟩ := mem_iff_getElem?.mp hr
    have h := hsession i
    exact h.confirmable.mp (confirmable_of_answered env h.up h.confirm h.fresh (hall i r hi))
  · intro hall i r hi
    have h := hsession i
    have hlt : i < rs.length := (List.getElem?_eq_some_iff.mp hi).1
    have hr : r ∈ rs := mem_of_getElem? hi
    -- the channel has given `i` tags when publish `i + 1` arrives
    have hcount := (hsession 0).deliveryTag_run env (rs.take i)
      fun r' hr' => hall r' (mem_of_mem_take hr')
    rw [take_zero, foldl_nil, htag, length_take_of_le hlt.le, UInt64.zero_add]
      at hcount
    have hans := answered_of_confirmable env h.up h.confirm h.fresh (h.confirmable.mpr (hall r hr))
    rw [hcount] at hans
    rw [UInt64.ofNat_add]
    exact hans

def confirmChannel : Server :=
  { newServer with
    conns := Heap.empty.alloc (newConnection .up)
    chans := Heap.empty.alloc { newChannel 1 0 with confirmMode := true } }

/-- A publish to an exchange without bindings is answered with `Nack`. -/
theorem confirmChannel_fanout :
    ConfirmsAll default 0 confirmChannel [⟨str "amq.fanout", [], false, false⟩] := by
  refine (confirmsAll_iff default 0 confirmChannel _ rfl rfl rfl ?_).mpr ?_
  · intro q m hm
    exact absurd hm not_mem_nil
  · intro r hr
    obtain rfl := mem_singleton.mp hr
    exact ⟨rfl, rfl, by decide, Or.inl (by decide)⟩

/-- A publish to an exchange that does not exist is not answered at all. -/
theorem confirmChannel_missing :
    sentSince confirmChannel
        (publishStep default 0 confirmChannel ⟨str "missing", [], false, false⟩) 0 = [] ∧
      ¬ ConfirmsAll default 0 confirmChannel [⟨str "missing", [], false, false⟩] := by
  have hsilent : sentSince confirmChannel
      (publishStep default 0 confirmChannel ⟨str "missing", [], false, false⟩) 0 = [] := by decide
  refine ⟨hsilent, fun hall => ?_⟩
  obtain ⟨ack, hsent, -⟩ := hall 0 _ rfl
  have hnil : ([] : List Frame).filter isConfirm =
      [⟨frameMethod, 1, confirmPayload (UInt64.ofNat 1) ack⟩] := by
    rw [← hsilent]; exact hsent
  cases hnil

end Gomq.Broker
