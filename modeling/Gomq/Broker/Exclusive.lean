import Gomq.Lib.Run
import Gomq.Broker.Registry

/-!
# Exclusive consumers

`Subscribe` looks for other exclusive consumers of the queue when the new consumer is exclusive, and
for nothing else: an exclusive consumer may join plain ones, and a plain one may join an exclusive
one. The exclusive consumers of a run are alone on their queues exactly if no subscription of the
run is accepted in one of these two ways (`alone_run_iff`).
-/

namespace Gomq.Broker

open Wire List

def Alone (s : Server) : Prop :=
  ∀ q, ∀ c ∈ s.getConsumers q, c.exclusive = true → s.getConsumers q = [c]

/-- `Subscribe` accepts a consumer if its tag is free and, for an exclusive one, no consumer of the
queue is exclusive. -/
def Accepts (s : Server) (tag queueName : GoString) (exclusive : Bool) : Prop :=
  s.consumers.byTag.get tag = none ∧
    (exclusive = true → ∀ c ∈ s.getConsumers queueName, c.exclusive = false)

/-- A subscription that is accepted finds no exclusive consumer on the queue, and no consumer at all
if it is exclusive itself. -/
def Admits (s : Server) : Env × ConsumerOp → Prop
  | (_, .subscribe tag queueName _ _ exclusive _) =>
    Accepts s tag queueName exclusive →
      (∀ c ∈ s.getConsumers queueName, c.exclusive = false) ∧
        (exclusive = true → s.getConsumers queueName = [])
  | _ => True

/-! ## What an operation does to the lists -/

theorem getConsumers_subscribe (s : Server) (tag queueName : GoString) (ch : Option ChanRef)
    (autoAck exclusive : Bool) (args : Table) :
    (¬Accepts s tag queueName exclusive ∧
      (s.subscribe tag queueName ch autoAck exclusive args).2 = s) ∨
    Accepts s tag queueName exclusive ∧
      ∃ c : Consumer, c.exclusive = exclusive ∧ ∀ q,
        (s.subscribe tag queueName ch autoAck exclusive args).2.getConsumers q =
          if q = queueName then s.getConsumers queueName ++ [c] else s.getConsumers q := by
  unfold Server.subscribe Accepts
  split
  · next htag => exact .inl ⟨fun h => absurd htag (by simp [h.1]), rfl⟩
  · next htag =>
    split
    · next hex =>
      simp only [Bool.and_eq_true, any_eq_true] at hex
      obtain ⟨hex, c, hc, hce⟩ := hex
      exact .inl ⟨fun h => absurd (h.2 hex c hc) (by simp [hce]), rfl⟩
    · next hex =>
      refine .inr ⟨⟨by simpa using htag, by simpa using hex⟩,
        ⟨tag, queueName, ch, autoAck, exclusive, args, stringArg args (str "x-group-id")⟩, rfl,
        fun q => ?_⟩
      unfold Server.getConsumers
      split
      · rename_i hq
        rw [hq]
        exact GoMap.getD_set_self ..
      · rename_i hq
        exact GoMap.getD_set_ne hq

theorem getConsumers_unsubscribe (env : Env) (s : Server) (tag q : GoString) :
    ((s.unsubscribe env tag).getConsumers q).Sublist (s.getConsumers q) := by
  unfold Server.unsubscribe
  cases s.consumers.byTag.get tag with
  | none => exact List.Sublist.refl _
  | some c =>
    unfold Server.getConsumers
    dsimp only
    by_cases hq : q = c.queueName
    · rw [hq, GoMap.getD_set_self]
      exact eraseP_sublist
    · rw [GoMap.getD_set_ne hq]

theorem getConsumers_cancelByChannel (env : Env) (s : Server) (ch : Option ChanRef)
    (q : GoString) :
    ((s.cancelByChannel env ch).2.getConsumers q).Sublist (s.getConsumers q) :=
  Server.cancelByChannel_inv (P := fun u => (u.getConsumers q).Sublist (s.getConsumers q))
    (List.Sublist.refl _) fun u tag hu => (getConsumers_unsubscribe env u tag q).trans hu

/-! ## One operation -/

section Step

variable {s u : Server}

theorem Alone.of_sublist (h : Alone s)
    (hu : ∀ q, (u.getConsumers q).Sublist (s.getConsumers q)) : Alone u := by
  intro q c hc hex
  have hone : s.getConsumers q = [c] := h q c ((hu q).subset hc) hex
  have hsub : (u.getConsumers q).Sublist [c] := hone ▸ hu q
  exact hsub.eq_of_length_le (length_pos_of_mem hc)

theorem Alone.add_iff (h : Alone s) {queueName : GoString} {c : Consumer}
    (hu : ∀ q, u.getConsumers q =
      if q = queueName then s.getConsumers queueName ++ [c] else s.getConsumers q) :
    Alone u ↔ (∀ k ∈ s.getConsumers queueName, k.exclusive = false) ∧
      (c.exclusive = true → s.getConsumers queueName = []) := by
  have hself : u.getConsumers queueName = s.getConsumers queueName ++ [c] := by
    rw [hu, if_pos rfl]
  constructor
  · intro halone
    constructor
    -- an exclusive consumer that was there is not alone any more
    · intro k hk
      by_contra hex
      have hone := halone queueName k (hself ▸ mem_append_left [c] hk)
        (Bool.eq_true_of_not_eq_false hex)
      have hlen := congrArg List.length (hself.symm.trans hone)
      have hpos := length_pos_of_mem hk
      simp only [length_append, length_cons, length_nil] at hlen
      omega
    · intro hex
      have hone := halone queueName c (hself ▸ mem_append_right _ mem_cons_self) hex
      exact append_left_eq_self.mp (hself.symm.trans hone)
  · rintro ⟨hplain, hempty⟩ q k hk hex
    rw [hu] at hk ⊢
    split at hk
    · rename_i hq
      rw [if_pos hq]
      rcases mem_append.mp hk with hk | hk
      · rw [hplain k hk] at hex
        cases hex
      · obtain rfl : k = c := mem_singleton.mp hk
        rw [hempty hex]
        rfl
    · rename_i hq
      rw [if_neg hq]
      exact h q k hk hex

theorem Alone.step_iff (h : Alone s) (op : Env × ConsumerOp) :
    Alone (consumerStep s op) ↔ Admits s op := by
  obtain ⟨env, op⟩ := op
  cases op with
  | subscribe tag queueName ch autoAck exclusive args =>
    change Alone (s.subscribe tag queueName ch autoAck exclusive args).2 ↔ (Accepts .. → _)
    rcases getConsumers_subscribe s tag queueName ch autoAck exclusive args with
      ⟨hrefused, hsame⟩ | ⟨haccepts, c, rfl, hlists⟩
    · rw [hsame]
      exact iff_of_true h fun haccepts => absurd haccepts hrefused
    · rw [h.add_iff hlists]
      exact ⟨fun hadmits _ => hadmits, fun hadmits => hadmits haccepts⟩
  | unsubscribe tag =>
    exact iff_of_true (h.of_sublist (getConsumers_unsubscribe env s tag)) True.intro
  | cancelByChannel ch =>
    exact iff_of_true (h.of_sublist (getConsumers_cancelByChannel env s ch)) True.intro

end Step

/-! ## Runs -/

theorem alone_empty (s : Server) : Alone { s with consumers := emptyConsumers } := by
  intro q c hc
  cases hc

/-- From empty managers on, exclusive consumers are alone after each operation of a run exactly if
each subscription that is accepted finds no exclusive consumer on the queue, and no consumer at all
if it is exclusive itself. -/
theorem alone_run_iff (s : Server) (ops : List (Env × ConsumerOp)) :
    Along consumerStep (fun s op => Alone (consumerStep s op))
      { s with consumers := emptyConsumers } ops ↔
    Along consumerStep Admits { s with consumers := emptyConsumers } ops :=
  Along.iff_of_kept (I := Alone) (fun _ op hs hadmits => (hs.step_iff op).mpr hadmits)
    (fun _ op hs => hs.step_iff op) (alone_empty s)

/-! ## Both orders -/

def subscribedTwice (first second : Bool) : Server :=
  [(default, ConsumerOp.subscribe (str "1") (str "q") (some 0) true first []),
    (default, .subscribe (str "2") (str "q") (some 0) true second [])].foldl consumerStep
      { newServer with consumers := emptyConsumers }

theorem subscribedTwice_not_alone (first : Bool) :
    ((subscribedTwice first !first).getConsumers (str "q")).map
        (fun c => (c.tag, c.exclusive)) = [(str "1", first), (str "2", !first)] ∧
      ¬ Alone (subscribedTwice first !first) := by
  have hlist : ((subscribedTwice first !first).getConsumers (str "q")).map
      (fun c => (c.tag, c.exclusive)) = [(str "1", first), (str "2", !first)] := by
    cases first <;> decide +kernel
  refine ⟨hlist, fun halone => ?_⟩
  have hex : (if first then str "1" else str "2", true) ∈
      ((subscribedTwice first !first).getConsumers (str "q")).map
        fun c => (c.tag, c.exclusive) := by
    rw [hlist]
    cases first <;> decide
  obtain ⟨c, hc, hpair⟩ := mem_map.mp hex
  have hone := halone (str "q") c hc (congrArg Prod.snd hpair)
  have hlen := congrArg List.length hlist
  rw [hone] at hlen
  cases hlen

/-- An exclusive consumer joins a plain one, and a plain one joins an exclusive one. -/
theorem exclusive_not_alone :
    ¬ Alone (subscribedTwice false true) ∧ ¬ Alone (subscribedTwice true false) :=
  ⟨(subscribedTwice_not_alone false).2, (subscribedTwice_not_alone true).2⟩

end Gomq.Broker
