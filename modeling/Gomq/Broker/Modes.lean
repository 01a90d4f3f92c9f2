import Gomq.Lib.Run
import Gomq.Broker.Confirms
import Gomq.Broker.Config
import Gomq.Broker.Transactions

/-!
# Confirm mode and transaction mode

`Tx.Select` refuses a channel in confirm mode; `Confirm.Select` does not look at the transaction
mode. A channel that selects transactions first and confirms after them is in both modes, and its
publishes are staged and never confirmed. `modesApart_iff` says which runs of a channel keep the two
modes apart and confirm each publish of confirm mode.
-/

namespace Gomq.Broker

open Wire Server

inductive ModeRequest where
  | confirmSelect (noWait : Bool)
  | publish (r : PublishArgs)
  | txSelect (payload : Bytes)
  | txCommit (payload : Bytes)
  | txRollback (payload : Bytes)
  | channelClose (payload : Bytes)
  | channelOpen (payload : Bytes)

def ModeRequest.event (env : Env) (ch : ChanRef) : ModeRequest → ProtocolEvent
  | .confirmSelect noWait => .request env ch (.confirmSelect noWait)
  | .publish r => .request env ch r.request
  | .txSelect payload => .control env ch .txSelect payload
  | .txCommit payload => .control env ch .txCommit payload
  | .txRollback payload => .control env ch .txRollback payload
  | .channelClose payload => .control env ch .channelClose payload
  | .channelOpen payload => .control env ch .channelOpen payload

def modeStep (ch : ChanRef) (s : Server) (a : Env × ModeRequest) : Server :=
  protocolStep s (a.2.event a.1 ch)

def ModesApart (ch : ChanRef) (s : Server) : Prop :=
  ¬((s.chans.read ch).confirmMode = true ∧ (s.chans.read ch).txMode = true)

def ProducesConfirm (ch : ChanRef) (s : Server) (a : Env × ModeRequest) : Prop :=
  ∀ r, a.2 = .publish r → (s.chans.read ch).confirmMode = true →
    ∃ f ∈ sentSince s (modeStep ch s a) (s.chans.read ch).conn, isConfirm f

/-- Confirms are selected outside of transaction mode, and what is published in confirm mode is
permitted, goes to an exchange that exists, and comes from a socket that takes the confirm. -/
def KeepsApart (ch : ChanRef) (s : Server) : Env × ModeRequest → Prop
  | (_, .confirmSelect _) => (s.chans.read ch).txMode = false
  | (_, .publish r) => (s.chans.read ch).confirmMode = true →
    s.permits ch r.request = .ok () ∧ (s.exchanges.get r.exchange).isSome ∧ s.Hears ch
  | _ => True

/-! ## What a step leaves alone -/

structure ModesKept (ch : ChanRef) (s s' : Server) : Prop where
  confirm : (s'.chans.read ch).confirmMode = (s.chans.read ch).confirmMode
  tx : (s'.chans.read ch).txMode = (s.chans.read ch).txMode

namespace ModesKept

variable {ch : ChanRef} {s s' s'' : Server}

theorem refl (ch : ChanRef) (s : Server) : ModesKept ch s s := ⟨rfl, rfl⟩

theorem trans (h : ModesKept ch s s') (h' : ModesKept ch s' s'') : ModesKept ch s s'' where
  confirm := h'.confirm.trans h.confirm
  tx := h'.tx.trans h.tx

theorem of_chans (ch : ChanRef) (h : s'.chans = s.chans) : ModesKept ch s s' := by
  constructor <;> rw [h]

theorem reply (h : ModesKept ch s s') (c : ChanRef) (payload : Bytes) :
    ModesKept ch s (s'.reply c payload) :=
  h.trans (of_chans ch (s'.chans_reply c payload))

theorem modifyChan (h : ModesKept ch s s') {f : Channel → Channel}
    (hconfirm : ∀ c, (f c).confirmMode = c.confirmMode)
    (htx : ∀ c, (f c).txMode = c.txMode) : ModesKept ch s (s'.modifyChan ch f) := by
  refine h.trans ⟨?_, ?_⟩ <;>
    simp only [Server.modifyChan, Heap.read_modify_self, hconfirm, htx]

theorem apart (h : ModesKept ch s s') (ha : ModesApart ch s) : ModesApart ch s' := by
  unfold ModesApart
  rw [h.confirm, h.tx]
  exact ha

end ModesKept

theorem Server.Framed.of_publish {env : Env} {s u : Server} {ex key : GoString} {msg : MsgRef}
    {c : UInt16} {r : Except GoError ℕ} (h : s.publish env ex key msg c = (r, u)) :
    Framed s u := by
  have hframed := framed_publish env s ex key msg c
  rw [h] at hframed
  exact hframed

section Steps

variable {ch : ChanRef} (env : Env) (s : Server)

theorem modesKept_performPublish (ex key : GoString) (mandatory : Bool) :
    ModesKept ch s (s.performPublish env ch ex key mandatory).2 := by
  have halloc : ModesKept ch s
      { s with msgs := s.msgs.alloc (publishedMessage ex key) } := ⟨rfl, rfl⟩
  refine performPublish_inv (P := ModesKept ch s) env mandatory ?_ ?_ ?_ ?_
  · exact fun _ => halloc.modifyChan (by simp) (by simp)
  · exact fun _ => (halloc.modifyChan (by simp) (by simp)).trans
      (.of_chans ch (framed_publish ..).chans)
  · exact fun _ => halloc.trans (.of_chans ch (framed_publish ..).chans)
  · exact fun u payload hu => hu.reply ch payload

theorem modesKept_publishStep (r : PublishArgs) : ModesKept ch s (publishStep env ch s r) := by
  unfold publishStep exec
  cases s.permits ch r.request with
  | error e => exact .refl ch s
  | ok u => exact modesKept_performPublish env s r.exchange r.routingKey r.mandatory

theorem modesKept_txCommit (payload : Bytes) :
    ModesKept ch s (handleTxCommit env ch payload s).2 := by
  have htake : ModesKept ch s (s.modifyChan ch fun c => { c with txPending := [] }) :=
    (ModesKept.refl ch s).modifyChan (by simp) (by simp)
  exact txCommit_inv (P := ModesKept ch s) env payload
    (htake.trans (.of_chans ch (framed_publishEntries ..).chans)) fun u hu => hu.reply ch _

end Steps

/-! ## Runs -/

namespace ModesApart

variable {ch : ChanRef} {s : Server}

theorem notTx (h : ModesApart ch s) (hconf : (s.chans.read ch).confirmMode = true) :
    (s.chans.read ch).txMode = false := by
  by_contra htx
  exact h ⟨hconf, by simpa using htx⟩

theorem txSelect (h : ModesApart ch s) (env : Env) (payload : Bytes) :
    ModesApart ch (handleTxSelect env ch payload s).2 := by
  unfold handleTxSelect
  by_cases hconf : (s.chans.read ch).confirmMode = true
  · rw [if_pos hconf]
    exact (((ModesKept.refl ch s).reply ch _).modifyChan (by simp) (by simp)).apart h
  · rw [if_neg hconf]
    have hsel : ModesApart ch (s.modifyChan ch fun c => { c with txMode := true }) := by
      simp [ModesApart, modifyChan, hconf]
    exact ((ModesKept.refl ch _).reply ch _).apart hsel

theorem producesConfirm_iff (h : ModesApart ch s) (env : Env) (r : PublishArgs) :
    ProducesConfirm ch s (env, .publish r) ↔ KeepsApart ch s (env, .publish r) := by
  have hstep : modeStep ch s (env, .publish r) = publishStep env ch s r := rfl
  have hforall : ProducesConfirm ch s (env, .publish r) ↔ ((s.chans.read ch).confirmMode = true →
      ∃ f ∈ sentSince s (publishStep env ch s r) (s.chans.read ch).conn, isConfirm f) := by
    constructor
    · exact fun hprod hconf => hprod r rfl hconf
    · rintro hprod r' hr hconf
      obtain rfl : r = r' := by injection hr
      exact hprod hconf
  rw [hforall]
  refine forall_congr' fun hconf => ?_
  have htx := h.notTx hconf
  -- without a frame there is no confirm
  have hsilent : ∀ {u : Server}, u.conns = s.conns →
      ¬ ∃ f ∈ sentSince s u (s.chans.read ch).conn, isConfirm f := by
    rintro u hconns ⟨f, hf, -⟩
    rw [sentSince_of_conns hconns] at hf
    cases hf
  cases hp : s.permits ch r.request with
  | error e =>
    rw [publishStep_denied hp]
    exact iff_of_false (hsilent rfl) (by simp)
  | ok _ =>
  rw [publishStep_confirm env hp htx hconf]
  by_cases hex : (s.exchanges.get r.exchange).isSome
  · obtain ⟨n, hn⟩ := (publish_isOk_iff env (s.prepared ch r) r.exchange r.routingKey
      s.msgs.next (s.chans.read ch).id).mpr hex
    rcases hpub : (s.prepared ch r).publish env r.exchange r.routingKey s.msgs.next
      (s.chans.read ch).id with ⟨res, u⟩
    rw [hpub] at hn
    obtain rfl : res = .ok n := hn
    have hframed : Framed (s.prepared ch r) u := .of_publish hpub
    have hconns : u.conns = s.conns := hframed.conns
    have hconn : (u.chans.read ch).conn = (s.chans.read ch).conn := by
      rw [hframed.chans, s.conn_prepared]
    have hid : (u.chans.read ch).id = (s.chans.read ch).id := by
      rw [hframed.chans, s.id_prepared]
    dsimp only
    by_cases hup : s.Hears ch
    · refine iff_of_true ?_ ⟨rfl, hex, hup⟩
      have hconfirm : (⟨frameMethod, (s.chans.read ch).id,
          confirmPayload ((s.chans.read ch).deliveryTag + 1) (decide (0 < n))⟩ : Frame) ∈
          (sentSince s ((u.sendPublisherConfirm ch ((s.chans.read ch).deliveryTag + 1)
            (decide (0 < n))).sendReturn ch r.exchange r.routingKey r.mandatory n)
            (s.chans.read ch).conn).filter isConfirm := by
        rw [filter_confirm hconns hconn hid hup]
        exact List.mem_singleton_self _
      exact ⟨_, (List.mem_filter.mp hconfirm).1, (List.mem_filter.mp hconfirm).2⟩
    · refine iff_of_false (hsilent ?_) fun hall => hup hall.2.2
      have hdeaf : ¬ u.Hears ch := by
        rw [Hears, hconn, hconns]
        exact hup
      have hconfirm : u.sendPublisherConfirm ch ((s.chans.read ch).deliveryTag + 1)
          (decide (0 < n)) = u := reply_of_not_hears hdeaf
      rw [hconfirm]
      unfold sendReturn
      split
      · rw [reply_of_not_hears hdeaf]
        exact hconns
      · exact hconns
  · have hmissing : (s.prepared ch r).exchanges.get r.exchange = none :=
      Option.not_isSome_iff_eq_none.mp hex
    rw [publish_of_missing hmissing]
    exact iff_of_false (hsilent rfl) fun hall => hex hall.2.1

end ModesApart

section Runs

variable {ch : ChanRef} {s : Server}

theorem modes_confirmSelect (ch : ChanRef) (s : Server) (env : Env) (noWait : Bool) :
    let s' := modeStep ch s (env, .confirmSelect noWait)
    (s'.chans.read ch).confirmMode = true ∧
      (s'.chans.read ch).txMode = (s.chans.read ch).txMode := by
  have hstep : modeStep ch s (env, .confirmSelect noWait) =
      (s.modifyChan ch fun c => { c with confirmMode := true }).replyUnless noWait ch
        (methodPayload 85 11 []) := rfl
  rw [hstep]
  unfold replyUnless
  split <;> simp [modifyChan]

theorem modesApart_step (h : ModesApart ch s) (a : Env × ModeRequest)
    (ha : KeepsApart ch s a) : ModesApart ch (modeStep ch s a) := by
  have hsame := ModesKept.refl ch s
  obtain ⟨env, req⟩ := a
  cases req with
  | confirmSelect noWait =>
    obtain ⟨-, htx⟩ := modes_confirmSelect ch s env noWait
    intro hboth
    have hfalse : (s.chans.read ch).txMode = false := ha
    rw [htx, hfalse] at hboth
    simp at hboth
  | publish r => exact (modesKept_publishStep env s r).apart h
  | txSelect payload => exact h.txSelect env payload
  | txCommit payload => exact (modesKept_txCommit env s payload).apart h
  | txRollback payload =>
    exact ((hsame.modifyChan (by simp) (by simp)).reply ch _).apart h
  | channelClose payload =>
    exact ((hsame.reply ch _).modifyChan (by simp) (by simp)).apart h
  | channelOpen payload =>
    exact ((hsame.modifyChan (by simp) (by simp)).reply ch _).apart h

theorem modesApart_step_iff (h : ModesApart ch s) (a : Env × ModeRequest) :
    ModesApart ch (modeStep ch s a) ∧ ProducesConfirm ch s a ↔ KeepsApart ch s a := by
  constructor
  · rintro ⟨hapart, hprod⟩
    obtain ⟨env, req⟩ := a
    cases req with
    | confirmSelect noWait =>
      obtain ⟨hconf, htx⟩ := modes_confirmSelect ch s env noWait
      show (s.chans.read ch).txMode = false
      rw [← htx]
      exact hapart.notTx hconf
    | publish r => exact (h.producesConfirm_iff env r).mp hprod
    | _ => exact True.intro
  · intro ha
    refine ⟨modesApart_step h a ha, ?_⟩
    obtain ⟨env, req⟩ := a
    cases req with
    | publish r => exact (h.producesConfirm_iff env r).mpr ha
    | _ =>
      intro r hr
      cases hr

end Runs

/-- On a channel that starts out of one mode at least, the modes stay apart and each publish of
confirm mode produces a confirm exactly if confirms are never selected in transaction mode and every
publish of confirm mode is permitted, names an exchange that exists and can be answered. -/
theorem modesApart_iff (ch : ChanRef) (s : Server) (as : List (Env × ModeRequest))
    (hapart : ModesApart ch s) :
    Along (modeStep ch)
        (fun s a => ModesApart ch (modeStep ch s a) ∧ ProducesConfirm ch s a) s as ↔
      Along (modeStep ch) (KeepsApart ch) s as :=
  Along.iff_of_kept (I := ModesApart ch) (fun _ a h ha => modesApart_step h a ha)
    (fun _ a h => modesApart_step_iff h a) hapart

def modelessChannel : Server :=
  { newServer with
    conns := Heap.empty.alloc (newConnection .up)
    chans := Heap.empty.alloc (newChannel 1 0) }

/-- Confirms are selected, and one message is published and confirmed. -/
theorem modelessChannel_confirms :
    ModesApart 0 modelessChannel ∧
      Along (modeStep 0)
        (fun s a => ModesApart 0 (modeStep 0 s a) ∧ ProducesConfirm 0 s a) modelessChannel
        [(default, .confirmSelect false),
          (default, .publish ⟨str "amq.fanout", [], false, false⟩)] := by
  have hapart : ModesApart 0 modelessChannel := fun h => absurd h.1 (by decide)
  exact ⟨hapart, (modesApart_iff 0 modelessChannel _ hapart).mpr
    ⟨rfl, fun _ => ⟨rfl, rfl, rfl⟩, True.intro⟩⟩

/-- Transactions are selected, then confirms: the channel is in both modes, and what it publishes is
not confirmed. -/
def txThenConfirm : List (Env × ModeRequest) :=
  [(default, .txSelect []), (default, .confirmSelect false),
    (default, .publish ⟨str "amq.fanout", [], false, false⟩)]

theorem txThenConfirm_bothModes :
    ((txThenConfirm.foldl (modeStep 0) modelessChannel).chans.read 0).confirmMode = true ∧
      ((txThenConfirm.foldl (modeStep 0) modelessChannel).chans.read 0).txMode = true ∧
      ((txThenConfirm.foldl (modeStep 0) modelessChannel).conns.read 0).out.filter isConfirm = [] ∧
      ¬ Along (modeStep 0)
        (fun s a => ModesApart 0 (modeStep 0 s a) ∧ ProducesConfirm 0 s a) modelessChannel
        txThenConfirm := by
  refine ⟨rfl, rfl, by decide, fun h => ?_⟩
  exact h.2.1.1 ⟨rfl, rfl⟩

end Gomq.Broker
