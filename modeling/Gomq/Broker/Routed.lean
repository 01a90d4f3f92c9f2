import Gomq.Broker.Effects

/-!
# Which queues a publish selects

`walk` follows the exchange-to-exchange bindings as `publishInternal` does, without touching the
broker, and lists the selected queues, missing ones included. As long as no selected queue exists
the publish leaves the broker as it is, and the two walks agree (`publishInternal_of_none`). From
the first existing queue on, the message is stored and stays stored (`publishInternal_of_some`);
what the walk selects after that may differ, since an eviction can put a header on the message.
-/

namespace Gomq.Broker

open Wire List

namespace Server

def Stored (s : Server) (m : MsgRef) : Prop := ∃ q, (s.queues.get q).isSome ∧ m ∈ s.ready q

/-! ## The walk without effects -/

def walk (s : Server) :
    ℕ → GoString → GoString → List GoString → List GoString × List GoString
  | 0, _, _, visited => ([], visited)
  | fuel + 1, ex, key, visited =>
    if ex ∈ visited then ([], visited)
    else
      match s.exchanges.get ex with
      | none => ([], ex :: visited)
      | some x =>
        (E2EBindingManager.getBindings s.e2eBindings ex).foldl
          (fun acc eb =>
            let r := walk s fuel eb.destination eb.routingKey acc.2
            (acc.1 ++ r.1, r.2))
          (x.route key [] (s.bindings.getBindings ex), ex :: visited)

def selected (s : Server) (ex key : GoString) : List GoString := (s.walk s.walkFuel ex key []).1

def walkStep (s : Server) (fuel : ℕ) (acc : List GoString × List GoString) (eb : E2EBinding) :
    List GoString × List GoString :=
  (acc.1 ++ (s.walk fuel eb.destination eb.routingKey acc.2).1,
    (s.walk fuel eb.destination eb.routingKey acc.2).2)

section Equations

variable {s : Server} {fuel : ℕ} {ex key : GoString} {vis : List GoString}

theorem walk_visited (h : ex ∈ vis) : s.walk (fuel + 1) ex key vis = ([], vis) := by
  unfold walk; rw [if_pos h]

theorem walk_missing (h : ex ∉ vis) (he : s.exchanges.get ex = none) :
    s.walk (fuel + 1) ex key vis = ([], ex :: vis) := by
  unfold walk; rw [if_neg h]; simp only [he]

theorem walk_found {x : Exchange} (h : ex ∉ vis) (he : s.exchanges.get ex = some x) :
    s.walk (fuel + 1) ex key vis =
      (E2EBindingManager.getBindings s.e2eBindings ex).foldl (s.walkStep fuel)
        (x.route key [] (s.bindings.getBindings ex), ex :: vis) := by
  conv_lhs => unfold walk
  rw [if_neg h]
  simp only [he]
  rfl

end Equations

theorem subset_walkFold (s : Server) (fuel : ℕ) (l : List E2EBinding)
    (acc : List GoString × List GoString) : acc.1 ⊆ (l.foldl (s.walkStep fuel) acc).1 := by
  induction l generalizing acc with
  | nil => exact List.Subset.refl _
  | cons eb l ih =>
    exact List.Subset.trans (subset_append_left _ _) (ih (s.walkStep fuel acc eb))

theorem walk_congr {s s' : Server} (he : s'.exchanges = s.exchanges)
    (hb : s'.bindings = s.bindings) (he2e : s'.e2eBindings = s.e2eBindings) (fuel : ℕ) :
    ∀ ex key vis, s'.walk fuel ex key vis = s.walk fuel ex key vis := by
  induction fuel with
  | zero => exact fun _ _ _ => rfl
  | succ fuel ih =>
    intro ex key vis
    have hstep : s'.walkStep fuel = s.walkStep fuel := by
      funext acc eb
      unfold walkStep
      rw [ih]
    by_cases hv : ex ∈ vis
    · rw [walk_visited hv, walk_visited hv]
    cases hx : s.exchanges.get ex with
    | none => rw [walk_missing hv hx, walk_missing hv (by rw [he]; exact hx)]
    | some x => rw [walk_found hv hx, walk_found hv (by rw [he]; exact hx), hstep, hb, he2e]

theorem selected_congr {s s' : Server} (he : s'.exchanges = s.exchanges)
    (hb : s'.bindings = s.bindings) (he2e : s'.e2eBindings = s.e2eBindings) (ex key : GoString) :
    s'.selected ex key = s.selected ex key := by
  unfold selected walkFuel
  rw [he, walk_congr he hb he2e]

/-! ## Stored messages stay stored -/

section Stored

variable (env : Env) {dl : MsgRef → Table → Server → Server} (chk : Bool) {msg : MsgRef}
  (c : UInt16) (hdl : ∀ m args s, Grows 0 s (dl m args s))

include hdl

theorem mem_ready_evictOldest {s : Server} {qn q : GoString} {args : Table} {m : MsgRef}
    (hq : q ≠ qn) (hm : m ∈ s.ready q) : m ∈ (s.evictOldest dl qn args).ready q := by
  have hdeq : m ∈ (s.dequeue qn).2.ready q := by rw [ready_dequeue_ne hq]; exact hm
  exact evictOldest_inv (P := fun u => m ∈ u.ready q) hm hdeq fun o u => (hdl o args u).ready q m

theorem stored_publishTo_of_isSome {s : Server} {qn : GoString}
    (h : (s.queues.get qn).isSome) : (publishTo env dl chk msg c s qn).Stored msg := by
  have hframe := framed_publishTo (fun m a u => (hdl m a u).toFramed) env chk msg c s qn
  obtain ⟨q, hq⟩ := Option.isSome_iff_exists.mp h
  refine ⟨qn, by rw [hframe.queues]; exact h, ?_⟩
  rw [publishTo_some env dl msg c hq]
  exact (mem_ready_storeAndDeliver env msg c).mpr (Or.inl ⟨rfl, rfl⟩)

theorem stored_publishTo {s : Server} (hs : s.Stored msg) (qn : GoString) :
    (publishTo env dl chk msg c s qn).Stored msg := by
  cases hq : s.queues.get qn with
  | none => rw [publishTo_none env dl msg c hq]; exact hs
  | some q => exact stored_publishTo_of_isSome env chk c hdl (by rw [hq]; rfl)

theorem stored_publishInternal {s : Server} (hs : s.Stored msg) (fuel : ℕ) (ex key : GoString)
    (vis : List GoString) : (publishInternal env dl chk msg c fuel ex key vis s).1.Stored msg :=
  publishInternal_inv (P := fun u => u.Stored msg)
    (fun _ qn hu => stored_publishTo env chk c hdl hu qn) fuel ex key vis s hs

theorem stored_queues {s : Server} {l : List GoString}
    (h : ∃ q ∈ l, (s.queues.get q).isSome) :
    (l.foldl (publishTo env dl chk msg c) s).Stored msg := by
  induction l generalizing s with
  | nil => obtain ⟨q, hq, -⟩ := h; exact absurd hq not_mem_nil
  | cons qn l ih =>
    obtain ⟨q, hmem, hq⟩ := h
    have hframe := framed_publishTo (fun m a u => (hdl m a u).toFramed) env chk msg c s qn
    rcases mem_cons.mp hmem with rfl | hmem
    · exact foldl_publishTo_inv (P := fun u => u.Stored msg)
        (fun _ qn' hu => stored_publishTo env chk c hdl hu qn') l _
        (stored_publishTo_of_isSome env chk c hdl hq)
    · exact ih ⟨q, hmem, by rw [hframe.queues]; exact hq⟩

theorem stored_forwardFold (fuel : ℕ) (l : List E2EBinding) {acc : Server × List GoString × ℕ}
    (hs : acc.1.Stored msg) (hn : 0 < acc.2.2) :
    (l.foldl (forward env dl chk msg c fuel) acc).1.Stored msg ∧
      0 < (l.foldl (forward env dl chk msg c fuel) acc).2.2 := by
  induction l generalizing acc with
  | nil => exact ⟨hs, hn⟩
  | cons eb l ih =>
    have hpub := stored_publishInternal env chk c hdl hs fuel eb.destination eb.routingKey acc.2.1
    apply ih
    · unfold forward
      split <;> rename_i heq <;> rw [heq] at hpub <;> exact hpub
    · unfold forward
      split
      · exact hn
      · exact Nat.add_pos_left hn _

end Stored

/-! ## The two walks -/

/-- The number of queues a publish reports; a failed one reports none. -/
def routedCount : Except GoError ℕ → ℕ
  | .ok n => n
  | .error _ => 0

theorem queues_of_none {env : Env} {dl : MsgRef → Table → Server → Server} {chk : Bool}
    {msg : MsgRef} {c : UInt16} {s : Server} {l : List GoString}
    (h : ∀ q ∈ l, s.queues.get q = none) : l.foldl (publishTo env dl chk msg c) s = s := by
  induction l with
  | nil => rfl
  | cons qn l ih =>
    rw [foldl_cons, publishTo_none env dl msg c (h qn mem_cons_self)]
    exact ih fun q hq => h q (mem_cons_of_mem qn hq)

section TwoWalks

variable (env : Env) (dl : MsgRef → Table → Server → Server) (chk : Bool) {msg : MsgRef}
  (c : UInt16) {s : Server} (hh : (s.msgs.read msg).properties.headers = [])

theorem forward_eq (fuel : ℕ) (acc : Server × List GoString × ℕ) (eb : E2EBinding) :
    forward env dl chk msg c fuel acc eb =
      let r := publishInternal env dl chk msg c fuel eb.destination eb.routingKey acc.2.1 acc.1
      (r.1, r.2.1, acc.2.2 + routedCount r.2.2) := by
  unfold forward
  split <;> rename_i heq <;> rw [heq] <;> rfl

theorem forwardFold_of_none {fuel : ℕ}
    (ih : ∀ ex key vis, (∀ q ∈ (s.walk fuel ex key vis).1, s.queues.get q = none) →
      ∃ r, publishInternal env dl chk msg c fuel ex key vis s =
          (s, (s.walk fuel ex key vis).2, r) ∧
        routedCount r = (s.walk fuel ex key vis).1.length)
    (l : List E2EBinding) (acc : List GoString × List GoString)
    (hacc : ∀ q ∈ (l.foldl (s.walkStep fuel) acc).1, s.queues.get q = none) :
    l.foldl (forward env dl chk msg c fuel) (s, acc.2, acc.1.length) =
      (s, (l.foldl (s.walkStep fuel) acc).2, (l.foldl (s.walkStep fuel) acc).1.length) := by
  induction l generalizing acc with
  | nil => rfl
  | cons eb l ihl =>
    have hpart : ∀ q ∈ (s.walk fuel eb.destination eb.routingKey acc.2).1,
        s.queues.get q = none := fun q hq =>
      hacc q (s.subset_walkFold fuel l (s.walkStep fuel acc eb) (mem_append_right _ hq))
    obtain ⟨r, hr, hcount⟩ := ih eb.destination eb.routingKey acc.2 hpart
    have hstep : forward env dl chk msg c fuel (s, acc.2, acc.1.length) eb =
        (s, (s.walkStep fuel acc eb).2, (s.walkStep fuel acc eb).1.length) := by
      rw [forward_eq]
      dsimp only
      rw [hr]
      dsimp only
      rw [hcount, ← length_append]
      rfl
    rw [foldl_cons, hstep]
    exact ihl (s.walkStep fuel acc eb) hacc

theorem get_eq_none_of_not {l : List GoString} (h : ¬ ∃ q ∈ l, (s.queues.get q).isSome) :
    ∀ q ∈ l, s.queues.get q = none := by
  intro q hq
  by_contra hne
  exact h ⟨q, hq, Option.ne_none_iff_isSome.mp hne⟩

include hh

theorem publishInternal_of_none :
    ∀ (fuel : ℕ) (ex key : GoString) (vis : List GoString),
      (∀ q ∈ (s.walk fuel ex key vis).1, s.queues.get q = none) →
      ∃ r, publishInternal env dl chk msg c fuel ex key vis s =
          (s, (s.walk fuel ex key vis).2, r) ∧
        routedCount r = (s.walk fuel ex key vis).1.length := by
  intro fuel
  induction fuel with
  | zero => exact fun ex _ _ _ => ⟨.error (.exchangeLoop ex), rfl, rfl⟩
  | succ fuel ih =>
    intro ex key vis hnone
    by_cases hv : ex ∈ vis
    · rw [publishInternal_visited hv, walk_visited hv]
      exact ⟨_, rfl, rfl⟩
    cases he : s.exchanges.get ex with
    | none =>
      rw [publishInternal_missing hv he, walk_missing hv he]
      exact ⟨_, rfl, rfl⟩
    | some x =>
      rw [walk_found hv he] at hnone ⊢
      have hqueues : afterQueues env dl chk msg c x ex key s =
          (x.route key [] (s.bindings.getBindings ex), s) := by
        unfold afterQueues
        rw [hh]
        dsimp only
        rw [queues_of_none fun q hq => hnone q (s.subset_walkFold fuel _ _ hq)]
      rw [publishInternal_found hv he, hqueues]
      dsimp only
      rw [forwardFold_of_none env dl chk c ih _
        (x.route key [] (s.bindings.getBindings ex), ex :: vis) hnone]
      exact ⟨_, rfl, rfl⟩

/-- The bindings of one exchange, when none of its queues exists: the first binding that leads to an
existing queue stores the message, and up to there the state is `s`. -/
theorem forwardFold_of_some (hdl : ∀ m args s, Grows 0 s (dl m args s)) {fuel : ℕ}
    (ih : ∀ ex key vis, (∃ q ∈ (s.walk fuel ex key vis).1, (s.queues.get q).isSome) →
      ∃ u v n, publishInternal env dl chk msg c fuel ex key vis s = (u, v, .ok n) ∧ 0 < n ∧
        u.Stored msg)
    (l : List E2EBinding) (acc : List GoString × List GoString) (n : ℕ)
    (hacc : ∀ q ∈ acc.1, s.queues.get q = none)
    (hex : ∃ q ∈ (l.foldl (s.walkStep fuel) acc).1, (s.queues.get q).isSome) :
    (l.foldl (forward env dl chk msg c fuel) (s, acc.2, n)).1.Stored msg ∧
      0 < (l.foldl (forward env dl chk msg c fuel) (s, acc.2, n)).2.2 := by
  induction l generalizing acc n with
  | nil =>
    obtain ⟨q, hq, hs⟩ := hex
    rw [hacc q hq] at hs
    cases hs
  | cons eb l ihl =>
    rw [foldl_cons, forward_eq]
    dsimp only
    by_cases hpart : ∃ q ∈ (s.walk fuel eb.destination eb.routingKey acc.2).1,
        (s.queues.get q).isSome
    · obtain ⟨u, v, k, hpub, hk, hstored⟩ := ih eb.destination eb.routingKey acc.2 hpart
      rw [hpub]
      exact stored_forwardFold env chk c hdl fuel l hstored (Nat.add_pos_right n hk)
    · have hmissing := get_eq_none_of_not hpart
      obtain ⟨r, hr, -⟩ := publishInternal_of_none env dl chk c hh fuel eb.destination
        eb.routingKey acc.2 hmissing
      rw [hr]
      refine ihl (s.walkStep fuel acc eb) _ ?_ hex
      intro q hq
      rcases mem_append.mp hq with hq | hq
      · exact hacc q hq
      · exact hmissing q hq

theorem publishInternal_of_some (hdl : ∀ m args s, Grows 0 s (dl m args s)) :
    ∀ (fuel : ℕ) (ex key : GoString) (vis : List GoString),
      (∃ q ∈ (s.walk fuel ex key vis).1, (s.queues.get q).isSome) →
      ∃ u v n, publishInternal env dl chk msg c fuel ex key vis s = (u, v, .ok n) ∧ 0 < n ∧
        u.Stored msg := by
  intro fuel
  induction fuel with
  | zero =>
    rintro ex key vis ⟨q, hq, -⟩
    exact absurd hq not_mem_nil
  | succ fuel ih =>
    intro ex key vis hsome
    by_cases hv : ex ∈ vis
    · rw [walk_visited hv] at hsome
      obtain ⟨q, hq, -⟩ := hsome
      exact absurd hq not_mem_nil
    cases he : s.exchanges.get ex with
    | none =>
      rw [walk_missing hv he] at hsome
      obtain ⟨q, hq, -⟩ := hsome
      exact absurd hq not_mem_nil
    | some x =>
      rw [walk_found hv he] at hsome
      rw [publishInternal_found hv he]
      set queues := x.route key [] (s.bindings.getBindings ex) with hqs
      have hafter : afterQueues env dl chk msg c x ex key s =
          (queues, queues.foldl (publishTo env dl chk msg c) s) := by
        unfold afterQueues; rw [hh]
      rw [hafter]
      by_cases hdirect : ∃ q ∈ queues, (s.queues.get q).isSome
      · -- a queue bound to this exchange exists
        have hpos : 0 < queues.length := by
          obtain ⟨q, hq, -⟩ := hdirect
          exact length_pos_of_mem hq
        have hend := fun l => stored_forwardFold env chk c hdl fuel l
          (show Stored (_, ex :: vis, queues.length).1 msg from stored_queues env chk c hdl hdirect)
          hpos
        exact ⟨_, _, _, rfl, (hend _).2, (hend _).1⟩
      · -- none does, so the state is still `s`
        have hnone := get_eq_none_of_not hdirect
        rw [queues_of_none hnone]
        have hend := forwardFold_of_some env dl chk c hh hdl ih
          (E2EBindingManager.getBindings s.e2eBindings ex) (queues, ex :: vis) queues.length hnone
          hsome
        exact ⟨_, _, _, rfl, hend.2, hend.1⟩

end TwoWalks

/-! ## Where ready messages come from -/

def Bounded (N : ℕ) (s : Server) : Prop := ∀ q m, m ∈ s.ready q → m < N

theorem dequeue_some {s u : Server} {q : GoString} {m : MsgRef} (h : s.dequeue q = (some m, u)) :
    s.ready q = m :: u.ready q := by
  unfold dequeue at h
  cases hr : s.ready q with
  | nil => rw [hr] at h; cases h
  | cons a l =>
    rw [hr] at h
    obtain ⟨rfl, rfl⟩ : a = m ∧ { s with store := s.store.set q l } = u := by
      simpa using h
    simp [ready]

theorem ready_of_dequeue {s u : Server} {q q' : GoString} {m : MsgRef}
    (h : s.dequeue q = (some m, u)) {m' : MsgRef} (hm : m' ∈ u.ready q') : m' ∈ s.ready q' := by
  by_cases hq : q' = q
  · subst hq; rw [dequeue_some h]; exact mem_cons_of_mem m hm
  · have hne := ready_dequeue_ne (s := s) hq
    rw [h] at hne
    rw [← hne]; exact hm

section Bounded

variable {N : ℕ} (env : Env) (c : UInt16) {s : Server} {msg : MsgRef}

theorem bounded_storeAndDeliver (hs : s.Bounded N) (hm : msg < N) (qn : GoString)
    (args : Table) : (storeAndDeliver env msg c qn args s).Bounded N := by
  intro q m hmem
  rcases (mem_ready_storeAndDeliver env msg c).mp hmem with ⟨-, rfl⟩ | hmem
  · exact hm
  · exact hs q m hmem

theorem bounded_deadLetter (hs : s.Bounded N) (hm : msg < N) (args : Table) :
    (deadLetter env msg args s).Bounded N :=
  deadLetter_inv (P := Bounded N) hs (fun _ => hs)
    fun qn args _ hu => bounded_storeAndDeliver env 0 hu hm qn args

theorem bounded_evictOldest (hs : s.Bounded N) (qn : GoString) (args : Table) :
    (s.evictOldest (deadLetter env) qn args).Bounded N := by
  unfold evictOldest
  split
  · rcases h : s.dequeue qn with ⟨_ | o, u⟩
    · have hu : u = s := by
        unfold dequeue at h
        split at h
        · exact (Prod.mk.inj h).2.symm
        · cases h
      rw [hu]; exact hs
    · have ho : o < N := hs qn o (by rw [dequeue_some h]; exact mem_cons_self)
      exact bounded_deadLetter env (fun q m hm => hs q m (ready_of_dequeue h hm)) ho args
  · exact hs

theorem bounded_publish (hs : s.Bounded N) (hm : msg < N) (ex key : GoString) :
    (s.publish env ex key msg c).2.Bounded N := by
  have hto : ∀ u qn, Bounded N u → Bounded N (publishTo env (deadLetter env) true msg c u qn) :=
    fun u qn hu => publishTo_inv (P := Bounded N) hu
      (fun q _ _ => bounded_evictOldest env hu qn q.args)
      fun q _ _ hv => bounded_storeAndDeliver env c hv hm qn q.args
  exact publish_inv (P := Bounded N) hs hto fun _ _ hu => hu

end Bounded

/-! ## Publishes -/

section Publish

variable (env : Env) {s : Server} {ex key : GoString} {msg : MsgRef} (c : UInt16)
  (hh : (s.msgs.read msg).properties.headers = [])

include hh

theorem publish_of_none (he : (s.exchanges.get ex).isSome)
    (hnone : ∀ q ∈ s.selected ex key, s.queues.get q = none) :
    s.publish env ex key msg c =
      (.ok (s.selected ex key).length, s.recordStats ex (s.selected ex key).length) := by
  obtain ⟨r, hr, hcount⟩ := publishInternal_of_none env (deadLetter env) true c hh s.walkFuel ex
    key [] hnone
  obtain ⟨n, hn⟩ := (publish_isOk_iff env s ex key msg c).mpr he
  unfold publish at hn ⊢
  rw [hr] at hn ⊢
  cases r with
  | error e => cases hn
  | ok k =>
    obtain rfl : k = (s.selected ex key).length := hcount
    rfl

theorem publish_of_some (hsome : ∃ q ∈ s.selected ex key, (s.queues.get q).isSome) :
    ∃ n u, s.publish env ex key msg c = (.ok n, u) ∧ 0 < n ∧ u.Stored msg := by
  obtain ⟨u, v, n, hpub, hn, hstored⟩ := publishInternal_of_some env (deadLetter env) true c hh
    (grows_deadLetter env) s.walkFuel ex key [] hsome
  refine ⟨n, u.recordStats ex n, ?_, hn, hstored⟩
  unfold publish
  rw [hpub]

theorem publish_outcome (key : GoString) (he : (s.exchanges.get ex).isSome)
    (hnew : ¬ s.Stored msg) :
    ∃ n u, s.publish env ex key msg c = (.ok n, u) ∧ (n = 0 ↔ s.selected ex key = []) ∧
      (u.Stored msg ↔ ∃ q ∈ s.selected ex key, (s.queues.get q).isSome) := by
  by_cases hsome : ∃ q ∈ s.selected ex key, (s.queues.get q).isSome
  · obtain ⟨n, u, hpub, hn, hstored⟩ := publish_of_some env c hh hsome
    have hne : s.selected ex key ≠ [] := by
      obtain ⟨q, hq, -⟩ := hsome
      exact ne_nil_of_mem hq
    exact ⟨n, u, hpub, iff_of_false hn.ne' hne, iff_of_true hstored hsome⟩
  · refine ⟨_, _, publish_of_none env c hh he (get_eq_none_of_not hsome),
      length_eq_zero_iff, iff_of_false ?_ hsome⟩
    exact hnew

end Publish

end Server

end Gomq.Broker
