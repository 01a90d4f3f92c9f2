import Gomq.Lib.Run
import Gomq.Broker.Expiration
import Gomq.Broker.Isolation
import Gomq.Broker.Copies

/-!
# Runs of publishes, fetches and settlements

The actions that put messages into a queue or take them out: publishes, dead letters, `Basic.Get`,
the settlements of deliveries, and the expiry scan. None of them changes the configuration
(`config_queueStep`). For each way into the store one lemma says what a queue holds afterwards.
-/

namespace Gomq.Broker

open Wire Server

/-- One action on the queues. The publisher is given any message, whatever it says. -/
inductive QueueAction where
  | publish (env : Env) (exchange routingKey : GoString) (msg : MsgRef) (channelID : UInt16)
  | deadLetter (env : Env) (msg : MsgRef) (args : Table)
  | settle (env : Env) (ch : ChanRef) (req : SettleRequest)
  | scan (env : Env)

def queueStep (s : Server) : QueueAction → Server
  | .publish env exchange routingKey msg channelID =>
    (s.publish env exchange routingKey msg channelID).2
  | .deadLetter env msg args => deadLetter env msg args s
  | .settle env ch req => (exec env ch req.request s).2
  | .scan env => s.scanAll env

theorem config_queueStep (s : Server) (a : QueueAction) : (queueStep s a).config = s.config := by
  cases a with
  | publish env ex key m c => exact (framed_publish env s ex key m c).config
  | deadLetter env m args => exact (framed_deadLetter env m args s).config
  | scan env => exact (framed_scanAll env s).config
  | settle env ch req =>
    show (exec env ch req.request s).2.config = s.config
    unfold exec
    split
    · rfl
    · rw [config_perform]
      cases req <;> rfl

namespace Server

/-! ## Requeues -/

/-- The messages of a channel number that a recovery puts back into `q`, in the order of the
range. -/
def recoveredInto (env : Env) (s : Server) (channelID : UInt16) (q : GoString) : List MsgRef :=
  ((rangeDeliveries env (s.tracker.getD channelID ∅)).filter fun d => d.queueName == q).map
    TrackedDelivery.msg

theorem ready_recoverAll (env : Env) (s : Server) (c : UInt16) (q : GoString) :
    (s.recoverAll env c true).2.ready q = s.ready q ++ s.recoveredInto env c q := by
  cases h : s.tracker.get c with
  | none =>
    rw [recoverAll_of_none env true h]
    simp [recoveredInto, GoMap.getD_of_none h, rangeDeliveries]
  | some chMap =>
    rw [recoverAll_of_some env true h, recoveredInto, GoMap.getD_of_get h]
    simp only [beq_eq_decide]
    exact ready_foldl_enqueue TrackedDelivery.queueName TrackedDelivery.msg _ s q

theorem ready_recoverAll_discard (env : Env) (s : Server) (c : UInt16) (q : GoString) :
    (s.recoverAll env c false).2.ready q = s.ready q := by
  cases h : s.tracker.get c with
  | none => rw [recoverAll_of_none env false h]
  | some chMap => rw [recoverAll_of_some env false h]; rfl

/-- What the requeue of one delivery puts back into `q`. -/
def requeuedInto (s : Server) (tag : UInt64) (channelID : UInt16) (q : GoString) : List MsgRef :=
  match s.getDelivery tag channelID with
  | none => []
  | some d => if d.queueName = q then [d.msg] else []

theorem ready_nack_requeue (s : Server) (t : UInt64) (c : UInt16) (q : GoString) :
    (s.nack t c true).2.ready q = s.ready q ++ s.requeuedInto t c q := by
  cases h : s.getDelivery t c with
  | none => rw [nack_of_none h, requeuedInto, h, List.append_nil]
  | some d =>
    rw [nack_of_some h, if_pos rfl, ready_enqueue, requeuedInto, h]
    simp only [eq_comm (a := q)]
    rfl

theorem ready_nack_discard (s : Server) (t : UInt64) (c : UInt16) (q : GoString) :
    (s.nack t c false).2.ready q = s.ready q := by
  cases h : s.getDelivery t c with
  | none => rw [nack_of_none h]
  | some d => rw [nack_of_some h]; rfl

theorem msgs_reply (s : Server) (ch : ChanRef) (payload : Bytes) :
    (s.reply ch payload).msgs = s.msgs := by
  obtain ⟨k, hk⟩ := s.reply_eq ch payload
  rw [hk]

theorem ready_reply (s : Server) (ch : ChanRef) (payload : Bytes) (q : GoString) :
    (s.reply ch payload).ready q = s.ready q := by
  obtain ⟨k, hk⟩ := s.reply_eq ch payload
  rw [hk]
  rfl

/-! ## Fetches -/

theorem ready_performGet (env : Env) (ch : ChanRef) (qn : GoString) (noAck : Bool) (s : Server)
    (q : GoString) : (s.performGet env ch qn noAck).2.ready q = (s.fetch env qn).2.ready q := by
  rcases h : s.fetch env qn with ⟨_ | m, u⟩
  · obtain ⟨payload, hp⟩ := performGet_empty ch h noAck
    rw [hp, ready_reply]
  · cases noAck with
    | true =>
      obtain ⟨payload, hp⟩ := performGet_noAck ch h
      rw [hp, ready_reply]
    | false =>
      obtain ⟨payload, hp⟩ := performGet_ack ch h
      rw [hp, ready_reply]
      rfl

theorem ready_fetch_sublist (env : Env) (s : Server) (qn q : GoString) :
    ((s.fetch env qn).2.ready q).Sublist (s.ready q) := by
  obtain ⟨-, htail, hother⟩ := s.fetch_ready env qn
  by_cases h : q = qn
  · subst h
    rw [htail]
    exact (List.tail_sublist _).trans (List.dropWhile_sublist _)
  · rw [hother q h]

end Server

/-! ## Settlements -/

section Settle

variable (s : Server) (env : Env) (ch : ChanRef) (q : GoString)

theorem ready_settle_ack (tag : UInt64) :
    (queueStep s (.settle env ch (.ack tag))).ready q = s.ready q := by
  show (s.ack tag (s.chans.read ch).id).2.ready q = s.ready q
  cases hd : s.getDelivery tag (s.chans.read ch).id with
  | none => rw [ack_of_none hd]
  | some d => rw [ack_of_some hd]; rfl

theorem ready_settle_recover (requeue : Bool) :
    (queueStep s (.settle env ch (.recover requeue))).ready q =
      s.ready q ++ if requeue then s.recoveredInto env (s.chans.read ch).id q else [] := by
  have hready : (queueStep s (.settle env ch (.recover requeue))).ready q =
      (s.recoverAll env (s.chans.read ch).id requeue).2.ready q := ready_reply _ ch _ q
  rw [hready]
  cases requeue with
  | true => exact s.ready_recoverAll env _ q
  | false => exact (s.ready_recoverAll_discard env _ q).trans (List.append_nil _).symm

theorem ready_settle_get (queue : GoString) (noAck : Bool) :
    ((queueStep s (.settle env ch (.get queue noAck))).ready q).Sublist (s.ready q) := by
  show ((exec env ch (.get queue noAck) s).2.ready q).Sublist (s.ready q)
  unfold exec
  split
  · exact List.Sublist.refl _
  · show ((s.performGet env ch queue noAck).2.ready q).Sublist (s.ready q)
    rw [ready_performGet]
    exact s.ready_fetch_sublist env queue q

end Settle

end Gomq.Broker
