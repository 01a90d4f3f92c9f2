import Gomq.Broker.Staging

/-!
# Mandatory publishes

A mandatory publish sends a `Basic.Return` when the publisher reports no route. Two things part
this from what became of the message. The publisher counts selected queues, whether they exist or
not. In a transaction the count is 0 when the message is staged, so that a `Basic.Return` always
goes out then, and the commit sends none. `mandatory_iff` says when the publisher is told the truth.
-/

namespace Gomq.Broker

open Wire Server

/-! ## Returns -/

def isReturn (f : Frame) : Bool := f.payload.take 4 == methodPayload 60 50 []

def returns (k : ConnRef) (s s' : Server) : ℕ := (sentSince s s' k).countP isReturn

theorem isReturn_method (t : UInt8) (id classID methodID : UInt16) (args : Bytes) :
    isReturn ⟨t, id, methodPayload classID methodID args⟩ =
      (methodPayload classID methodID [] == methodPayload 60 50 []) := by
  unfold isReturn
  rw [take_methodPayload]

def Quiet (k : ConnRef) (s s' : Server) : Prop :=
  ∃ l, (s'.conns.read k).out = (s.conns.read k).out ++ l ∧ l.countP isReturn = 0

namespace Quiet

variable {k : ConnRef} {s s' : Server}

theorem of_conns (h : s'.conns = s.conns) : Quiet k s s' := ⟨[], by rw [h, List.append_nil], rfl⟩

theorem returns_eq (h : Quiet k s s') : returns k s s' = 0 := by
  obtain ⟨l, hout, hl⟩ := h
  rw [returns, sentSince_of_out hout, hl]

theorem reply (h : Quiet k s s') (ch : ChanRef) {payload : Bytes}
    (hp : ∀ t id, isReturn ⟨t, id, payload⟩ = false) : Quiet k s (s'.reply ch payload) := by
  obtain ⟨l, hout, hl⟩ := h
  refine ⟨_, by rw [out_reply, hout, List.append_assoc], ?_⟩
  rw [List.countP_append, hl]
  split <;> simp [hp]

theorem confirm (h : Quiet k s s') (ch : ChanRef) (tag : UInt64) (ack : Bool) :
    Quiet k s (s'.sendPublisherConfirm ch tag ack) := by
  refine h.reply ch fun t id => ?_
  unfold confirmPayload
  rw [isReturn_method]
  cases ack <;> decide

theorem returns_sendReturn (h : Quiet k s s') {ch : ChanRef} (hk : k = (s'.chans.read ch).conn)
    (ex key : GoString) (n : ℕ) :
    returns k s (s'.sendReturn ch ex key true n) = if n = 0 ∧ s'.Hears ch then 1 else 0 := by
  unfold sendReturn
  by_cases hn : n = 0
  · obtain ⟨l, hout, hl⟩ := h
    rw [if_pos (by simp [hn]), returns,
      sentSince_of_out (by rw [out_reply, hout, List.append_assoc]), List.countP_append, hl,
      Nat.zero_add]
    by_cases hup : s'.Hears ch
    · rw [if_pos ⟨hk, hup⟩, if_pos ⟨hn, hup⟩, List.countP_singleton, isReturn_method]
      rfl
    · rw [if_neg fun h => hup h.2, if_neg fun h => hup h.2]
      rfl
  · rw [if_neg (by simp [hn]), if_neg fun h => hn h.1]
    exact h.returns_eq

end Quiet

theorem stored_reply (s : Server) (ch : ChanRef) (payload : Bytes) (m : MsgRef) :
    (s.reply ch payload).Stored m ↔ s.Stored m := by
  obtain ⟨k, hk⟩ := s.reply_eq ch payload
  rw [hk]
  rfl

theorem stored_sendReturn (s : Server) (ch : ChanRef) (ex key : GoString) (mandatory : Bool)
    (n : ℕ) (m : MsgRef) : (s.sendReturn ch ex key mandatory n).Stored m ↔ s.Stored m := by
  unfold sendReturn
  split
  · exact stored_reply s ch _ m
  · rfl

/-! ## What the publisher is told -/

/-- One `Basic.Return` for a message that is in no queue, and none for one that is. -/
structure Notified (n : ℕ) (stored : Prop) : Prop where
  returned : ¬ stored → n = 1
  silent : stored → n = 0

theorem notified_ite (p q : Prop) [Decidable p] :
    Notified (if p then 1 else 0) q ↔ (p ↔ ¬ q) := by
  constructor
  · rintro ⟨hret, hsil⟩
    refine ⟨fun hp hq => ?_, fun hq => ?_⟩
    · exact absurd (hsil hq) (by rw [if_pos hp]; decide)
    · by_contra hp
      exact absurd (hret hq) (by rw [if_neg hp]; decide)
  · intro h
    exact ⟨fun hq => if_pos (h.mpr hq), fun hq => if_neg fun hp => h.mp hp hq⟩

def Server.HasRoute (s : Server) (ex key : GoString) : Prop :=
  ∃ q ∈ s.selected ex key, (s.queues.get q).isSome

/-- The message of the publish, which the publish allocates, takes effect at once. -/
structure TakesEffectAtOnce (ch : ChanRef) (s : Server) (r : PublishArgs) : Prop where
  permitted : s.permits ch r.request = .ok ()
  notTx : (s.chans.read ch).txMode = false
  exchange : (s.exchanges.get r.exchange).isSome

def NotifiedAtOnce (env : Env) (ch : ChanRef) (s : Server) (r : PublishArgs) : Prop :=
  Notified (returns (s.chans.read ch).conn s (publishStep env ch s r))
    ((publishStep env ch s r).Stored s.msgs.next)

/-- The commit that arrives in state `t` publishes the entry, and comes to it in state `u`. -/
structure CommitPublishes (env : Env) (ch : ChanRef) (e : TxEntry) (t u : Server) : Prop where
  reaches : ∃ before after, (t.chans.read ch).txPending = before ++ e :: after ∧
    publishEntries env (t.chans.read ch).id before
      (t.modifyChan ch fun c => { c with txPending := [] }) = (none, u)
  exchange : (t.exchanges.get e.exchange).isSome

/-- The publish was made in `s`, on a transactional channel, and the commit that arrives in `t`
publishes its message in `u`. A `Basic.Return` may come at either time. -/
def NotifiedAtCommit (env env' : Env) (ch : ChanRef) (payload : Bytes) (r : PublishArgs)
    (s t u : Server) : Prop :=
  ∃ n ≤ returns (s.chans.read ch).conn t (handleTxCommit env' ch payload t).2,
    Notified (returns (s.chans.read ch).conn s (publishStep env ch s r) + n)
      ((u.publish env' r.exchange r.routingKey s.msgs.next (t.chans.read ch).id).2.Stored
        s.msgs.next)

/-! ## At once -/

theorem not_stored_of_known {s : Server} (h : s.Known) : ¬ s.Stored s.msgs.next := by
  rintro ⟨q, -, hq⟩
  exact (h _ (Or.inl (Or.inl ⟨q, hq⟩))).false

def Server.received (s : Server) (r : PublishArgs) : Server :=
  { s with msgs := s.msgs.alloc (publishedMessage r.exchange r.routingKey) }

theorem Server.headers_received (s : Server) (r : PublishArgs) :
    ((s.received r).msgs.read s.msgs.next).properties.headers = [] := by
  unfold received
  dsimp only
  rw [Heap.read_alloc_self]
  rfl

theorem publishStep_plain {ch : ChanRef} {s : Server} {r : PublishArgs} (env : Env)
    (hp : s.permits ch r.request = .ok ()) (htx : (s.chans.read ch).txMode = false)
    (hconf : (s.chans.read ch).confirmMode = false) :
    publishStep env ch s r =
      match (s.received r).publish env r.exchange r.routingKey s.msgs.next
        (s.chans.read ch).id with
      | (.error _, u) => u
      | (.ok routed, u) => u.sendReturn ch r.exchange r.routingKey r.mandatory routed := by
  unfold publishStep exec
  rw [hp]
  show (s.performPublish env ch r.exchange r.routingKey r.mandatory).2 = _
  unfold performPublish
  dsimp only
  rw [if_neg (by rw [htx]; decide), if_neg (by rw [hconf]; decide)]
  have hrec : { s with
      msgs := s.msgs.alloc (publishedMessage r.exchange r.routingKey) } = s.received r := rfl
  rw [hrec]
  obtain ⟨e | routed, u⟩ := (s.received r).publish env r.exchange r.routingKey s.msgs.next
    (s.chans.read ch).id
  · rfl
  · rfl

theorem publishStep_atOnce (env : Env) {ch : ChanRef} {s : Server} {r : PublishArgs}
    (h : TakesEffectAtOnce ch s r) (hknown : s.Known) :
    ∃ n w, publishStep env ch s r = w.sendReturn ch r.exchange r.routingKey r.mandatory n ∧
      Quiet (s.chans.read ch).conn s w ∧ (w.chans.read ch).conn = (s.chans.read ch).conn ∧
      (w.Hears ch ↔ s.Hears ch) ∧ (n = 0 ↔ s.selected r.exchange r.routingKey = []) ∧
      (w.Stored s.msgs.next ↔ s.HasRoute r.exchange r.routingKey) := by
  have hnew := not_stored_of_known hknown
  cases hconf : (s.chans.read ch).confirmMode with
  | false =>
    have hsel : (s.received r).selected r.exchange r.routingKey =
        s.selected r.exchange r.routingKey := by
      apply selected_congr <;> rfl
    obtain ⟨n, u, hpub, hzero, hstored⟩ := publish_outcome env (s.chans.read ch).id
      (s.headers_received r) r.routingKey h.exchange hnew
    have hframe := framed_publish env (s.received r) r.exchange r.routingKey s.msgs.next
      (s.chans.read ch).id
    have hstep := publishStep_plain env h.permitted h.notTx hconf
    rw [hpub] at hframe hstep
    rw [hsel] at hzero hstored
    refine ⟨n, u, hstep, .of_conns hframe.conns, by rw [hframe.chans]; rfl, ?_, hzero, hstored⟩
    rw [Hears, hframe.conns, hframe.chans]
    rfl
  | true =>
    have hsel := s.selected_prepared ch r r.exchange r.routingKey
    obtain ⟨n, u, hpub, hzero, hstored⟩ := publish_outcome env (s.chans.read ch).id
      (s.headers_prepared ch r) r.routingKey h.exchange hnew
    have hframe := framed_publish env (s.prepared ch r) r.exchange r.routingKey s.msgs.next
      (s.chans.read ch).id
    have hstep := publishStep_confirm env h.permitted h.notTx hconf
    rw [hpub] at hframe hstep
    rw [hsel] at hzero hstored
    have hconn : (u.chans.read ch).conn = (s.chans.read ch).conn := by
      rw [hframe.chans, s.conn_prepared ch r]
    refine ⟨n, _, hstep, (Quiet.of_conns hframe.conns).confirm ch _ _, ?_, ?_, hzero,
      (stored_reply u ch _ _).trans hstored⟩
    · rw [sendPublisherConfirm, chans_reply, hconn]
    · unfold Hears sendPublisherConfirm
      rw [raw_reply, chans_reply, hconn, hframe.conns]
      rfl

theorem notifiedAtOnce_iff (env : Env) {ch : ChanRef} {s : Server} {r : PublishArgs}
    (hr : r.mandatory = true) (h : TakesEffectAtOnce ch s r) (hknown : s.Known) :
    NotifiedAtOnce env ch s r ↔
      s.HasRoute r.exchange r.routingKey ∨
        s.selected r.exchange r.routingKey = [] ∧ s.Hears ch := by
  obtain ⟨n, w, hstep, hquiet, hconn, hhears, hzero, hstored⟩ := publishStep_atOnce env h hknown
  have hempty : s.selected r.exchange r.routingKey = [] → ¬ s.HasRoute r.exchange r.routingKey := by
    rintro hnil ⟨q, hq, -⟩
    rw [hnil] at hq
    cases hq
  rw [NotifiedAtOnce, hstep, hr, hquiet.returns_sendReturn hconn.symm, notified_ite,
    stored_sendReturn, hstored, hzero, hhears]
  grind

/-! ## At the commit -/

theorem returns_tx (env : Env) {ch : ChanRef} {s : Server} {r : PublishArgs}
    (hr : r.mandatory = true) (hp : s.permits ch r.request = .ok ())
    (htx : (s.chans.read ch).txMode = true) :
    returns (s.chans.read ch).conn s (publishStep env ch s r) = if s.Hears ch then 1 else 0 := by
  rw [publishStep_tx env hp htx, hr]
  set u := { s with
    msgs := s.msgs.alloc (publishedMessage r.exchange r.routingKey) }.stageTxPublish ch
      ⟨r.exchange, r.routingKey, s.msgs.next⟩ with hu
  have hconn : (s.chans.read ch).conn = (u.chans.read ch).conn := by
    simp [hu, stageTxPublish, modifyChan]
  have hhears : u.Hears ch ↔ s.Hears ch := by
    unfold Hears
    rw [← hconn]
    rfl
  have hquiet : Quiet (s.chans.read ch).conn s u := .of_conns rfl
  rw [hquiet.returns_sendReturn hconn]
  simp only [hhears, true_and]

theorem quiet_commit (env : Env) (ch : ChanRef) (payload : Bytes) (k : ConnRef) (t : Server) :
    Quiet k t (handleTxCommit env ch payload t).2 := by
  refine txCommit_inv (P := Quiet k t) env payload ?_ fun u hu => ?_
  · exact .of_conns (framed_publishEntries ..).conns
  · refine hu.reply ch fun t id => ?_
    rw [isReturn_method]
    decide

theorem CommitPublishes.stored_iff {env : Env} {ch : ChanRef} {e : TxEntry} {t u : Server}
    (h : CommitPublishes env ch e t u) (hnew : Unpublished e.msg t) (c : UInt16) :
    (u.publish env e.exchange e.routingKey e.msg c).2.Stored e.msg ↔
      t.HasRoute e.exchange e.routingKey := by
  obtain ⟨before, after, hpending, hbefore⟩ := h.reaches
  have hfresh := hnew.at_commit env ch rfl hpending
  have hframe := framed_publishEntries env (t.chans.read ch).id before
    (t.modifyChan ch fun c => { c with txPending := [] })
  rw [hbefore] at hfresh hframe
  have hstored : ¬ u.Stored e.msg := by
    rintro ⟨q, -, hq⟩
    exact hfresh.1 (Or.inl ⟨q, hq⟩)
  have hex : (u.exchanges.get e.exchange).isSome := by
    rw [hframe.exchanges]
    exact h.exchange
  obtain ⟨n, v, hpub, -, hiff⟩ := publish_outcome env c hfresh.2 e.routingKey hex hstored
  have hsel : u.selected e.exchange e.routingKey = t.selected e.exchange e.routingKey := by
    apply selected_congr
    · exact hframe.exchanges
    · exact hframe.bindings
    · exact hframe.e2eBindings
  rw [hpub, hiff, hsel, hframe.queues]
  rfl

theorem notifiedAtCommit_iff (env env' : Env) {ch : ChanRef} (payload : Bytes) {r : PublishArgs}
    {s u : Server} (evs : List BrokerEvent) (hr : r.mandatory = true) (hknown : s.Known)
    (hp : s.permits ch r.request = .ok ()) (htx : (s.chans.read ch).txMode = true)
    (hcommit : CommitPublishes env' ch ⟨r.exchange, r.routingKey, s.msgs.next⟩
      (evs.foldl brokerStep (publishStep env ch s r)) u) :
    NotifiedAtCommit env env' ch payload r s (evs.foldl brokerStep (publishStep env ch s r)) u ↔
      (s.Hears ch ↔ ¬ (evs.foldl brokerStep (publishStep env ch s r)).HasRoute r.exchange
        r.routingKey) := by
  have hpub : publishStep env ch s r =
      (s.performPublish env ch r.exchange r.routingKey r.mandatory).2 := by
    unfold publishStep exec
    rw [hp]
    rfl
  have hnew : Unpublished s.msgs.next (evs.foldl brokerStep (publishStep env ch s r)) := by
    rw [hpub]
    exact (Unpublished.of_publish hknown env ch r.exchange r.routingKey r.mandatory htx).run evs
  have hstored := hcommit.stored_iff hnew
  unfold NotifiedAtCommit
  rw [(quiet_commit env' ch payload _ _).returns_eq, returns_tx env hr hp htx, hstored]
  constructor
  · rintro ⟨n, hn, h⟩
    rw [Nat.le_zero.mp hn, Nat.add_zero, notified_ite] at h
    exact h
  · intro h
    exact ⟨0, le_rfl, (notified_ite _ _).mpr h⟩

/-- When mandatory publishes are answered as they should be. Outside a transaction: a selected queue
exists, or none is selected and the socket takes the `Basic.Return`. In a transaction, the
`Basic.Return` that is sent at the publish has to be right about the routes at the commit, whatever
happens in between. -/
theorem mandatory_iff (env : Env) (ch : ChanRef) (s : Server) (r : PublishArgs)
    (hr : r.mandatory = true) (hknown : s.Known) :
    (TakesEffectAtOnce ch s r →
      (NotifiedAtOnce env ch s r ↔
        s.HasRoute r.exchange r.routingKey ∨
          s.selected r.exchange r.routingKey = [] ∧ s.Hears ch)) ∧
    (s.permits ch r.request = .ok () → (s.chans.read ch).txMode = true →
      ∀ (evs : List BrokerEvent) (env' : Env) (payload : Bytes) (t u : Server),
        t = evs.foldl brokerStep (publishStep env ch s r) →
        CommitPublishes env' ch ⟨r.exchange, r.routingKey, s.msgs.next⟩ t u →
        (NotifiedAtCommit env env' ch payload r s t u ↔
          (s.Hears ch ↔ ¬ t.HasRoute r.exchange r.routingKey))) := by
  refine ⟨fun h => notifiedAtOnce_iff env hr h hknown, ?_⟩
  rintro hp htx evs env' payload t u rfl hcommit
  exact notifiedAtCommit_iff env env' payload evs hr hknown hp htx hcommit

/-- A plain channel, a transactional one, a queue that is bound to `amq.fanout`, and a binding of a
queue that was never declared. -/
def twoModes : Server :=
  [BrokerEvent.accept (str "guest") (str "/"), .createChannel 0 1, .createChannel 0 2,
    .protocol (.control default 1 .txSelect []),
    .protocol (.request default 0 (.queueDeclare (str "q") false false false false true [])),
    .protocol (.request default 0 (.queueBind (str "q") (str "amq.fanout") [] true [])),
    .protocol (.request default 0
      (.queueBind (str "gone") (str "amq.direct") (str "gone") true []))].foldl brokerStep newServer

def mandatoryTo (ex key : GoString) : PublishArgs := ⟨ex, key, true, false⟩

/-- The plain channel publishes to the queue, and the other one where nothing is bound. -/
theorem twoModes_notified :
    (mandatoryTo (str "amq.fanout") []).mandatory = true ∧ twoModes.Known ∧
      TakesEffectAtOnce 0 twoModes (mandatoryTo (str "amq.fanout") []) ∧
      NotifiedAtOnce default 0 twoModes (mandatoryTo (str "amq.fanout") []) ∧
      twoModes.permits 1 (mandatoryTo (str "amq.topic") []).request = .ok () ∧
      (twoModes.chans.read 1).txMode = true ∧
      ∃ u, CommitPublishes default 1 ⟨str "amq.topic", [], twoModes.msgs.next⟩
          (publishStep default 1 twoModes (mandatoryTo (str "amq.topic") [])) u ∧
        NotifiedAtCommit default default 1 [] (mandatoryTo (str "amq.topic") []) twoModes
          (publishStep default 1 twoModes (mandatoryTo (str "amq.topic") [])) u := by
  have hknown : twoModes.Known := known_newServer.run _
  have honce : TakesEffectAtOnce 0 twoModes (mandatoryTo (str "amq.fanout") []) :=
    ⟨by rfl, by decide +kernel, by decide +kernel⟩
  have hperm : twoModes.permits 1 (mandatoryTo (str "amq.topic") []).request = .ok () := by rfl
  have htx : (twoModes.chans.read 1).txMode = true := by decide +kernel
  have hcommit : CommitPublishes default 1 ⟨str "amq.topic", [], twoModes.msgs.next⟩
      (publishStep default 1 twoModes (mandatoryTo (str "amq.topic") []))
      ((publishStep default 1 twoModes (mandatoryTo (str "amq.topic") [])).modifyChan 1
        fun c => { c with txPending := [] }) :=
    ⟨⟨[], [], by rfl, rfl⟩, by decide +kernel⟩
  refine ⟨rfl, hknown, honce, ?_, hperm, htx, _, hcommit, ?_⟩
  · refine ((mandatory_iff default 0 twoModes (mandatoryTo (str "amq.fanout") []) rfl
      hknown).1 honce).mpr (Or.inl ⟨str "q", ?_, ?_⟩) <;> decide +kernel
  · refine ((mandatory_iff default 1 twoModes (mandatoryTo (str "amq.topic") []) rfl hknown).2
      hperm htx [] default [] _ _ rfl hcommit).mpr (iff_of_true (by decide +kernel) ?_)
    rintro ⟨q, hq, -⟩
    have hnil : (publishStep default 1 twoModes (mandatoryTo (str "amq.topic") [])).selected
        (str "amq.topic") [] = [] := by decide +kernel
    exact List.not_mem_nil (hnil ▸ hq)

/-- The plain channel is told nothing of a message that is in no queue; the other one is sent a
`Basic.Return` for a message that its commit puts into the queue. -/
theorem twoModes_misled :
    returns 0 twoModes
        (publishStep default 0 twoModes (mandatoryTo (str "amq.direct") (str "gone"))) = 0 ∧
      ¬ NotifiedAtOnce default 0 twoModes (mandatoryTo (str "amq.direct") (str "gone")) ∧
      returns 0 twoModes (publishStep default 1 twoModes (mandatoryTo (str "amq.fanout") [])) = 1 ∧
      (handleTxCommit default 1 []
        (publishStep default 1 twoModes (mandatoryTo (str "amq.fanout") []))).2.ready (str "q") =
          [twoModes.msgs.next] ∧
      ¬ NotifiedAtCommit default default 1 [] (mandatoryTo (str "amq.fanout") []) twoModes
        (publishStep default 1 twoModes (mandatoryTo (str "amq.fanout") []))
        ((publishStep default 1 twoModes (mandatoryTo (str "amq.fanout") [])).modifyChan 1
          fun c => { c with txPending := [] }) := by
  have hnone : returns 0 twoModes
      (publishStep default 0 twoModes (mandatoryTo (str "amq.direct") (str "gone"))) = 0 := by
    decide +kernel
  have hone : returns 0 twoModes
      (publishStep default 1 twoModes (mandatoryTo (str "amq.fanout") [])) = 1 := by
    decide +kernel
  refine ⟨hnone, fun h => ?_, hone, by decide +kernel, ?_⟩
  · have hstore : (publishStep default 0 twoModes
        (mandatoryTo (str "amq.direct") (str "gone"))).store = newServer.store := by rfl
    have hreturn := h.returned fun ⟨q, _, hm⟩ => by
      rw [ready, hstore] at hm
      cases hm
    exact absurd (hnone.symm.trans hreturn) (by decide)
  · rintro ⟨n, -, h⟩
    have hsilent := h.silent ⟨str "q", by decide +kernel, by decide +kernel⟩
    have hone' : returns (twoModes.chans.read 1).conn twoModes
        (publishStep default 1 twoModes (mandatoryTo (str "amq.fanout") [])) = 1 := hone
    omega

end Gomq.Broker
