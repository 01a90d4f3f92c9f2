import Mathlib.Data.List.TakeWhile
import Gomq.Broker.Effects

/-!
# Fetching and settling deliveries

What `Basic.Get` does to queue and tracker, and what an acknowledgement, a refusal and a recovery
do. One lemma for each operation says how the tracker reads afterwards.
-/

namespace Gomq.Broker

open Wire

namespace Server

/-! ## The tracker after an operation -/

theorem getDelivery_untrack (s : Server) (t t' : UInt64) (c c' : UInt16) :
    (s.untrack t c).getDelivery t' c' =
      if t' = t ∧ c' = c then none else s.getDelivery t' c' := by
  rw [getDelivery_eq, getDelivery_eq]
  by_cases hc : c' = c
  · subst hc
    simp [untrack, GoMap.get_del]
  · simp [untrack, hc]

theorem untracked {s : Server} {t : UInt64} {c : UInt16} :
    s.getDelivery t c = none ↔
      s.tracker.get c = none ∨ ∃ chMap, s.tracker.get c = some chMap ∧ chMap.get t = none := by
  unfold getDelivery
  cases s.tracker.get c <;> simp

theorem ack_of_none {s : Server} {t : UInt64} {c : UInt16} (h : s.getDelivery t c = none) :
    (s.ack t c).2 = s := by
  unfold ack
  rcases untracked.mp h with hc | ⟨chMap, hc, ht⟩
  · rw [hc]
  · rw [hc]; simp only [ht]

theorem ack_of_some {s : Server} {t : UInt64} {c : UInt16} {d : TrackedDelivery}
    (h : s.getDelivery t c = some d) : (s.ack t c).2 = s.untrack t c := by
  obtain ⟨chMap, hc, ht⟩ := Option.bind_eq_some_iff.mp h
  unfold ack
  rw [hc]
  simp only [ht]

theorem nack_of_none {s : Server} {t : UInt64} {c : UInt16} {requeue : Bool}
    (h : s.getDelivery t c = none) : (s.nack t c requeue).2 = s := by
  unfold nack
  rcases untracked.mp h with hc | ⟨chMap, hc, ht⟩
  · rw [hc]
  · rw [hc]; simp only [ht]

theorem nack_of_some {s : Server} {t : UInt64} {c : UInt16} {requeue : Bool}
    {d : TrackedDelivery} (h : s.getDelivery t c = some d) :
    (s.nack t c requeue).2 =
      if requeue then (s.untrack t c).enqueue d.queueName d.msg else s.untrack t c := by
  obtain ⟨chMap, hc, ht⟩ := Option.bind_eq_some_iff.mp h
  unfold nack
  rw [hc]
  simp only [ht]

theorem nack_eq (s : Server) (t : UInt64) (c : UInt16) (requeue : Bool) :
    ∃ st tr, (s.nack t c requeue).2 = { s with store := st, tracker := tr } := by
  cases h : s.getDelivery t c with
  | none => exact ⟨s.store, s.tracker, nack_of_none h⟩
  | some d =>
    rw [nack_of_some h]
    cases requeue with
    | true => exact ⟨_, _, rfl⟩
    | false => exact ⟨_, _, rfl⟩

theorem getDelivery_ack (s : Server) (t t' : UInt64) (c c' : UInt16) :
    (s.ack t c).2.getDelivery t' c' =
      if t' = t ∧ c' = c then none else s.getDelivery t' c' := by
  cases h : s.getDelivery t c with
  | none =>
    rw [ack_of_none h]
    split
    · rename_i heq; rw [heq.1, heq.2, h]
    · rfl
  | some d => rw [ack_of_some h, getDelivery_untrack]

theorem getDelivery_nack (s : Server) (t t' : UInt64) (c c' : UInt16) (requeue : Bool) :
    (s.nack t c requeue).2.getDelivery t' c' =
      if t' = t ∧ c' = c then none else s.getDelivery t' c' := by
  cases h : s.getDelivery t c with
  | none =>
    rw [nack_of_none h]
    split
    · rename_i heq; rw [heq.1, heq.2, h]
    · rfl
  | some d =>
    rw [nack_of_some h, ← getDelivery_untrack]
    cases requeue <;> rfl

theorem delivered_nack (s : Server) (tag : UInt64) (c : UInt16) (requeue : Bool) :
    (s.nack tag c requeue).2.delivered = s.delivered := by
  obtain ⟨st, tr, h⟩ := s.nack_eq tag c requeue
  rw [h]

theorem delivered_ack (s : Server) (tag : UInt64) (c : UInt16) :
    (s.ack tag c).2.delivered = s.delivered := by
  cases h : s.getDelivery tag c with
  | none => rw [ack_of_none h]
  | some d => rw [ack_of_some h]; rfl

theorem rangeDeliveries_perm (env : Env) (chMap : GoMap UInt64 TrackedDelivery) :
    (rangeDeliveries env chMap).Perm chMap.vals := by
  have hkeys : chMap.keys.filterMap chMap.get = chMap.vals := by
    unfold AList.keys List.keys GoMap.vals
    rw [List.filterMap_map, ← List.filterMap_eq_map]
    apply List.filterMap_congr
    rintro ⟨k, d⟩ hmem
    exact GoMap.mem_entries_iff.mp hmem
  unfold rangeDeliveries
  rw [← hkeys]
  exact (env.tagOrder_perm chMap.keys).filterMap _

theorem enqueueAll_store (ds : List TrackedDelivery) (s : Server) :
    ∃ st, ds.foldl (fun s d => s.enqueue d.queueName d.msg) s = { s with store := st } := by
  induction ds generalizing s with
  | nil => exact ⟨s.store, rfl⟩
  | cons d ds ih => exact ih (s.enqueue d.queueName d.msg)

theorem recoverAll_of_none (env : Env) {s : Server} {c : UInt16} (requeue : Bool)
    (h : s.tracker.get c = none) : (s.recoverAll env c requeue).2 = s := by
  unfold recoverAll; rw [h]

theorem recoverAll_of_some (env : Env) {s : Server} {c : UInt16} (requeue : Bool)
    {chMap : GoMap UInt64 TrackedDelivery} (h : s.tracker.get c = some chMap) :
    (s.recoverAll env c requeue).2 =
      { (if requeue then
          (rangeDeliveries env chMap).foldl (fun s d => s.enqueue d.queueName d.msg) s
        else s) with tracker := s.tracker.del c } := by
  unfold recoverAll
  rw [h]
  cases requeue with
  | false => rfl
  | true =>
    obtain ⟨st, hst⟩ := enqueueAll_store (rangeDeliveries env chMap) s
    dsimp only
    rw [if_pos rfl, hst]

theorem recoverAll_eq (env : Env) (s : Server) (c : UInt16) (requeue : Bool) :
    ∃ st tr, (s.recoverAll env c requeue).2 = { s with store := st, tracker := tr } := by
  cases h : s.tracker.get c with
  | none => exact ⟨s.store, s.tracker, recoverAll_of_none env requeue h⟩
  | some chMap =>
    obtain ⟨st, hst⟩ := enqueueAll_store (rangeDeliveries env chMap) s
    rw [recoverAll_of_some env requeue h, hst]
    cases requeue with
    | false => exact ⟨s.store, s.tracker.del c, rfl⟩
    | true => exact ⟨st, s.tracker.del c, rfl⟩

theorem getDelivery_recoverAll (env : Env) (s : Server) (t : UInt64) (c c' : UInt16)
    (requeue : Bool) :
    (s.recoverAll env c requeue).2.getDelivery t c' =
      if c' = c then none else s.getDelivery t c' := by
  cases hc : s.tracker.get c with
  | none =>
    rw [recoverAll_of_none env requeue hc]
    by_cases h : c' = c
    · rw [if_pos h, h]; exact untracked.mpr (Or.inl hc)
    · rw [if_neg h]
  | some chMap =>
    rw [recoverAll_of_some env requeue hc, getDelivery_eq, getDelivery_eq]
    by_cases h : c' = c
    · rw [if_pos h, h, GoMap.getD_of_none (GoMap.get_del_self _ _)]; rfl
    · rw [if_neg h, GoMap.getD, GoMap.get_del_ne h]; rfl

theorem getDelivery_reply (s : Server) (ch : ChanRef) (payload : Bytes) (t : UInt64)
    (c : UInt16) : (s.reply ch payload).getDelivery t c = s.getDelivery t c := by
  obtain ⟨k, hk⟩ := s.reply_eq ch payload
  rw [hk]
  rfl

/-! ## Refusals -/

theorem getDelivery_deadLetterRefused (env : Env) (d : Option TrackedDelivery) (requeue : Bool)
    (s : Server) (t : UInt64) (c : UInt16) (h : ¬(t = 0 ∧ c = 0)) :
    (deadLetterRefused env d requeue s).getDelivery t c = s.getDelivery t c := by
  unfold deadLetterRefused
  split
  · split
    · exact (grows_deadLetter env _ _ s).tracker t c h
    · rfl
  · rfl

/-! ## Fetching -/

def Live (env : Env) (s : Server) (q : GoString) : Prop :=
  ∃ m ∈ s.ready q, isExpired env.now (s.msgs.read m) (s.queueArgs q) = false

theorem getLoop_ready (env : Env) (q : GoString) (args : Table) (n : ℕ) (s : Server)
    (hn : (s.ready q).length < n) :
    let l := (s.ready q).dropWhile fun m => isExpired env.now (s.msgs.read m) args
    (getLoop env q args n s).1 = l.head? ∧ (getLoop env q args n s).2.ready q = l.tail ∧
      ∀ q', q' ≠ q → (getLoop env q args n s).2.ready q' = s.ready q' := by
  induction n generalizing s with
  | zero => exact absurd hn (Nat.not_lt_zero _)
  | succ n ih =>
    unfold getLoop dequeue
    cases hr : s.ready q with
    | nil => simpa using hr
    | cons m l =>
      have hl : ({ s with store := s.store.set q l } : Server).ready q = l := by simp [ready]
      have hother : ∀ q', q' ≠ q →
          ({ s with store := s.store.set q l } : Server).ready q' = s.ready q' := by
        intro q' hq'
        simp [ready, hq']
      dsimp only
      by_cases hexp : isExpired env.now (s.msgs.read m) args = true
      · simp only [if_pos hexp, List.dropWhile_cons]
        obtain ⟨hget, hready, hrest⟩ := ih { s with store := s.store.set q l }
          (by rw [hl]; rw [hr, List.length_cons] at hn; omega)
        rw [hl] at hget hready
        exact ⟨hget, hready, fun q' hq' => (hrest q' hq').trans (hother q' hq')⟩
      · simp only [if_neg hexp, List.dropWhile_cons]
        exact ⟨rfl, hl, hother⟩

theorem getLoop_isSome (env : Env) (q : GoString) (args : Table) (n : ℕ) (s : Server)
    (hn : (s.ready q).length < n) :
    (getLoop env q args n s).1.isSome ↔
      ∃ m ∈ s.ready q, isExpired env.now (s.msgs.read m) args = false := by
  rw [(getLoop_ready env q args n s hn).1]
  simp [List.dropWhile_eq_nil_iff]

def fetch (env : Env) (s : Server) (q : GoString) : Option MsgRef × Server :=
  getLoop env q (s.queueArgs q) ((s.ready q).length + 1) s

theorem fetch_ready (env : Env) (s : Server) (q : GoString) :
    let l := (s.ready q).dropWhile fun m => isExpired env.now (s.msgs.read m) (s.queueArgs q)
    (s.fetch env q).1 = l.head? ∧ (s.fetch env q).2.ready q = l.tail ∧
      ∀ q', q' ≠ q → (s.fetch env q).2.ready q' = s.ready q' :=
  getLoop_ready env q _ _ s (Nat.lt_succ_self _)

theorem fetch_isSome (env : Env) (s : Server) (q : GoString) :
    (s.fetch env q).1.isSome ↔ Live env s q := getLoop_isSome env q _ _ s (Nat.lt_succ_self _)

section PerformGet

variable {env : Env} {s u : Server} {q : GoString} {m : MsgRef} (ch : ChanRef)

theorem performGet_empty (h : s.fetch env q = (none, u)) (noAck : Bool) :
    ∃ payload, performGet env ch q noAck s = (none, u.reply ch payload) := by
  unfold fetch at h
  unfold performGet PullConsumer.get
  rw [h]
  exact ⟨_, rfl⟩

theorem performGet_noAck (h : s.fetch env q = (some m, u)) :
    ∃ payload, performGet env ch q true s = (none, u.reply ch payload) := by
  unfold fetch at h
  unfold performGet PullConsumer.get
  rw [h]
  exact ⟨_, rfl⟩

theorem performGet_ack (h : s.fetch env q = (some m, u)) :
    ∃ payload, performGet env ch q false s =
      (none, ((u.modifyMsg m fun x => x.setDeliveryTag 1).record 1 m q
        (s.chans.read ch).id).reply ch payload) := by
  unfold fetch at h
  unfold performGet PullConsumer.get
  rw [h]
  exact ⟨_, rfl⟩

end PerformGet

theorem getDelivery_performGet (env : Env) (ch : ChanRef) (q : GoString) (s : Server)
    (h : Live env s q) :
    ∃ m, ∀ t c, (performGet env ch q false s).2.getDelivery t c =
      if t = 1 ∧ c = (s.chans.read ch).id then some ⟨1, m, q, (s.chans.read ch).id⟩
      else s.getDelivery t c := by
  obtain ⟨st, hst⟩ := getLoop_store env q (s.queueArgs q) ((s.ready q).length + 1) s
  rcases hf : s.fetch env q with ⟨_ | m, u⟩
  · have := (fetch_isSome env s q).mpr h
    rw [hf] at this
    cases this
  · have hu : u = { s with store := st } := by rw [← hst]; exact (congrArg Prod.snd hf).symm
    obtain ⟨payload, hget⟩ := performGet_ack ch hf
    refine ⟨m, fun t c => ?_⟩
    rw [hget, getDelivery_reply, getDelivery_record, hu]
    rfl

theorem getDelivery_performGet_of_not (env : Env) (ch : ChanRef) (q : GoString) (noAck : Bool)
    (s : Server) (h : ¬(noAck = false ∧ Live env s q)) (t : UInt64) (c : UInt16) :
    (performGet env ch q noAck s).2.getDelivery t c = s.getDelivery t c := by
  obtain ⟨st, hst⟩ := getLoop_store env q (s.queueArgs q) ((s.ready q).length + 1) s
  rcases hf : s.fetch env q with ⟨_ | m, u⟩
  · have hu : u = { s with store := st } := by rw [← hst]; exact (congrArg Prod.snd hf).symm
    obtain ⟨payload, hget⟩ := performGet_empty ch hf noAck
    rw [hget, getDelivery_reply, hu]
    rfl
  · have hu : u = { s with store := st } := by rw [← hst]; exact (congrArg Prod.snd hf).symm
    cases noAck with
    | true =>
      obtain ⟨payload, hget⟩ := performGet_noAck ch hf
      rw [hget, getDelivery_reply, hu]
      rfl
    | false => exact absurd ⟨rfl, (fetch_isSome env s q).mp (by rw [hf]; rfl)⟩ h

end Server

end Gomq.Broker
