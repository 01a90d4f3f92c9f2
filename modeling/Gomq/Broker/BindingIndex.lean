import Gomq.Lib.EraseFirst
import Gomq.Broker.Restart

/-!
# The two indexes of a binding manager

A binding is filed by its exchange and by its queue. `removeFrom` searches a list for a queue name
and a key; on the by-queue index it is called with the exchange in the place of the queue name. A
binding is found there only if exchange and queue have the same name, and then it may be the
binding of another exchange. `Harmless` says when an operation leaves the indexes in agreement all
the same. The invariant behind it is stronger than agreement: the bindings between an exchange and
a queue stand in the same order in both lists (`Agree`).
-/

namespace Gomq.Broker

open Wire List

/-- What `removeFrom` searches for. -/
def Binding.target (b : Binding) : GoString × GoString := (b.queueName, b.routingKey)

namespace BindingManager

def getBindingsForQueue (m : BindingManager) (queueName : GoString) : List Binding :=
  m.byQueue.getD queueName []

def between (e q : GoString) (l : List Binding) : List Binding :=
  l.filter fun b => b.exchangeName == e && b.queueName == q

def SameBindings (m : BindingManager) : Prop :=
  ∀ e q, (between e q (m.getBindings e)).Perm (between e q (m.getBindingsForQueue q))

end BindingManager

inductive BindingOp where
  | bind (exchange queue routingKey : GoString) (args : Table)
  | unbind (exchange queue routingKey : GoString)
  | unbindAllForExchange (exchange : GoString)
  | unbindAllForQueue (queue : GoString)

def bindingStep (m : BindingManager) : BindingOp → BindingManager
  | .bind exchange queue routingKey args => m.bind exchange queue routingKey args
  | .unbind exchange queue routingKey => m.unbind exchange queue routingKey
  | .unbindAllForExchange exchange => m.unbindAllForExchange exchange
  | .unbindAllForQueue queue => m.unbindAllForQueue queue

namespace BindingManager

/-- The condition under which a call leaves the indexes in agreement. `Unbind` has to find nothing,
or exchange and queue share a name and the first binding of the queue with this key is one of the
exchange. For all bindings of an exchange at once the same has to hold of every one of them. -/
def Harmless (m : BindingManager) : BindingOp → Prop
  | .bind .. => True
  | .unbind e q k =>
    if e = q then
      ∀ b, (m.getBindingsForQueue q).find? (fun b => b.routingKey == k) = some b →
        b.exchangeName = e
    else ∀ b ∈ m.getBindings e, ¬ (b.queueName = q ∧ b.routingKey = k)
  | .unbindAllForExchange e =>
    (∀ b ∈ m.getBindings e, b.queueName = e) ∧
      (m.getBindingsForQueue e).Pairwise fun b b' =>
        b.routingKey = b'.routingKey → b'.exchangeName = e → b.exchangeName = e
  | .unbindAllForQueue _ => True

/-! ## The lists after each call -/

section Lists

variable (m : BindingManager)

theorem getBindingsForQueue_bind (e q k : GoString) (args : Table) (x : GoString) :
    (m.bind e q k args).getBindingsForQueue x =
      if x = q then m.getBindingsForQueue q ++ [⟨e, q, k, args⟩] else m.getBindingsForQueue x :=
  GoMap.getD_set _ _ _ _ _

theorem getBindings_unbind (e q k x : GoString) :
    (m.unbind e q k).getBindings x =
      if x = e then (m.getBindings e).eraseP fun b => b.queueName == q && b.routingKey == k
      else m.getBindings x :=
  getD_removeFrom m.byExchange e q k x

theorem getBindingsForQueue_unbind (e q k x : GoString) :
    (m.unbind e q k).getBindingsForQueue x =
      if x = q then (m.getBindingsForQueue q).eraseP fun b => b.queueName == e && b.routingKey == k
      else m.getBindingsForQueue x :=
  getD_removeFrom m.byQueue q e k x

theorem getD_foldl_removeFrom (idx : GoMap GoString (List Binding)) (l : List Binding)
    (name : Binding → GoString) (target : Binding → GoString × GoString) (x : GoString) :
    (l.foldl (fun idx b => (removeFrom idx (name b) (target b).1 (target b).2).2) idx).getD x [] =
      eraseKeys Binding.target (idx.getD x []) ((l.filter fun b => name b == x).map target) := by
  induction l generalizing idx with
  | nil => rfl
  | cons b l ih =>
    rw [foldl_cons, ih, getD_removeFrom]
    by_cases hx : x = name b
    · rw [if_pos hx, filter_cons_of_pos (by simp [hx]), map_cons, eraseKeys_cons, hx]
      rfl
    · rw [if_neg hx, filter_cons_of_neg (by simpa using Ne.symm hx)]

theorem foldl_byExchange
    (F : GoMap GoString (List Binding) → Binding → GoMap GoString (List Binding))
    (l : List Binding) :
    l.foldl (fun m b => { m with byExchange := F m.byExchange b }) m =
      { m with byExchange := l.foldl F m.byExchange } := by
  induction l generalizing m with
  | nil => rfl
  | cons b l ih => rw [foldl_cons, ih, foldl_cons]

theorem foldl_byQueue
    (F : GoMap GoString (List Binding) → Binding → GoMap GoString (List Binding))
    (l : List Binding) :
    l.foldl (fun m b => { m with byQueue := F m.byQueue b }) m =
      { m with byQueue := l.foldl F m.byQueue } := by
  induction l generalizing m with
  | nil => rfl
  | cons b l ih => rw [foldl_cons, ih, foldl_cons]

theorem getD_del (idx : GoMap GoString (List Binding)) (k x : GoString) :
    (idx.del k).getD x [] = if x = k then [] else idx.getD x [] := by
  unfold GoMap.getD
  rw [GoMap.get_del]
  split
  · rfl
  · rfl

theorem getBindings_unbindAllForExchange (e x : GoString) :
    (m.unbindAllForExchange e).getBindings x = if x = e then [] else m.getBindings x := by
  unfold unbindAllForExchange getBindings
  rw [foldl_byQueue { m with byExchange := m.byExchange.del e } fun idx b =>
    (removeFrom idx b.queueName b.exchangeName b.routingKey).2]
  exact getD_del _ _ _

theorem getBindingsForQueue_unbindAllForExchange (e x : GoString) :
    (m.unbindAllForExchange e).getBindingsForQueue x =
      eraseKeys Binding.target (m.getBindingsForQueue x)
        (((m.getBindings e).filter fun b => b.queueName == x).map fun b =>
          (b.exchangeName, b.routingKey)) := by
  unfold unbindAllForExchange getBindingsForQueue
  rw [foldl_byQueue { m with byExchange := m.byExchange.del e } fun idx b =>
    (removeFrom idx b.queueName b.exchangeName b.routingKey).2]
  exact getD_foldl_removeFrom m.byQueue _ Binding.queueName
    (fun b => (b.exchangeName, b.routingKey)) x

theorem getBindingsForQueue_unbindAllForQueue (q x : GoString) :
    (m.unbindAllForQueue q).getBindingsForQueue x =
      if x = q then [] else m.getBindingsForQueue x := by
  unfold unbindAllForQueue getBindingsForQueue
  rw [foldl_byExchange { m with byQueue := m.byQueue.del q } fun idx b =>
    (removeFrom idx b.exchangeName b.queueName b.routingKey).2]
  exact getD_del _ _ _

theorem getBindings_unbindAllForQueue (q x : GoString) :
    (m.unbindAllForQueue q).getBindings x =
      eraseKeys Binding.target (m.getBindings x)
        (((m.getBindingsForQueue q).filter fun b => b.exchangeName == x).map Binding.target) := by
  unfold unbindAllForQueue getBindings
  rw [foldl_byExchange { m with byQueue := m.byQueue.del q } fun idx b =>
    (removeFrom idx b.exchangeName b.queueName b.routingKey).2]
  exact getD_foldl_removeFrom m.byExchange _ Binding.exchangeName Binding.target x

end Lists

/-! ## The invariant -/

/-- Both indexes list the bindings between an exchange and a queue, in the same order. -/
structure Agree (m : BindingManager) : Prop where
  filed : m.Filed
  same : ∀ e q, ((m.getBindings e).filter fun b => b.queueName == q) =
    (m.getBindingsForQueue q).filter fun b => b.exchangeName == e

variable {m : BindingManager}

theorem Filed.step (h : m.Filed) (op : BindingOp) : (bindingStep m op).Filed := by
  cases op with
  | bind e q k args => exact h.bind e q k args
  | unbind e q k => exact h.unbind e q k
  | unbindAllForExchange e =>
    constructor
    · intro x b (hb : b ∈ (m.unbindAllForExchange e).getBindings x)
      rw [getBindings_unbindAllForExchange] at hb
      split at hb
      · cases hb
      · exact h.byExchange x b hb
    · intro x b (hb : b ∈ (m.unbindAllForExchange e).getBindingsForQueue x)
      rw [getBindingsForQueue_unbindAllForExchange] at hb
      exact h.byQueue x b ((eraseKeys_sublist ..).subset hb)
  | unbindAllForQueue q =>
    constructor
    · intro x b (hb : b ∈ (m.unbindAllForQueue q).getBindings x)
      rw [getBindings_unbindAllForQueue] at hb
      exact h.byExchange x b ((eraseKeys_sublist ..).subset hb)
    · intro x b (hb : b ∈ (m.unbindAllForQueue q).getBindingsForQueue x)
      rw [getBindingsForQueue_unbindAllForQueue] at hb
      split at hb
      · cases hb
      · exact h.byQueue x b hb

/-- In each list only one of the two names has to be looked at. -/
theorem Filed.sameBindings_iff (h : m.Filed) :
    m.SameBindings ↔ ∀ e q, ((m.getBindings e).filter fun b => b.queueName == q).Perm
      ((m.getBindingsForQueue q).filter fun b => b.exchangeName == e) := by
  have hex : ∀ e q, between e q (m.getBindings e) =
      (m.getBindings e).filter fun b => b.queueName == q := fun e q =>
    filter_congr fun b hb => by simp [h.byExchange e b hb]
  have hqu : ∀ e q, between e q (m.getBindingsForQueue q) =
      (m.getBindingsForQueue q).filter fun b => b.exchangeName == e := fun e q =>
    filter_congr fun b hb => by simp [h.byQueue q b hb]
  unfold SameBindings
  simp only [hex, hqu]

theorem Agree.sameBindings (h : m.Agree) : m.SameBindings :=
  h.filed.sameBindings_iff.mpr fun e q => by rw [h.same]

/-! ## Calls that keep the agreement -/

theorem Agree.bind (h : m.Agree) (e q k : GoString) (args : Table) :
    (m.bind e q k args).Agree where
  filed := h.filed.bind e q k args
  same x y := by
    rw [getBindings_bind, getBindingsForQueue_bind]
    by_cases hx : x = e
    · by_cases hy : y = q
      · simp [hx, hy, h.same]
      · simp [hx, hy, Ne.symm hy, h.same]
    · by_cases hy : y = q
      · simp [hx, Ne.symm hx, hy, h.same]
      · simp [hx, hy, h.same]

theorem Agree.unbindAllForQueue (h : m.Agree) (q : GoString) : (m.unbindAllForQueue q).Agree where
  filed := h.filed.step (.unbindAllForQueue q)
  same x y := by
    -- bindings of the queue have no others before them that the search could mean
    have hleft : (m.unbindAllForQueue q).getBindings x =
        (m.getBindings x).filter fun b => !(b.queueName == q) := by
      rw [getBindings_unbindAllForQueue, ← h.same]
      refine eraseKeys_of_pairwise (pairwise_of_forall fun b b' htarget hb' => ?_)
      rwa [show b.queueName = b'.queueName from congrArg Prod.fst htarget]
    rw [hleft, getBindingsForQueue_unbindAllForQueue, filter_filter]
    by_cases hy : y = q
    · rw [if_pos hy, hy]
      simp
    · rw [if_neg hy, ← h.same]
      refine filter_congr fun b _ => ?_
      by_cases hb : b.queueName = y
      · simp [hb, hy]
      · simp [hb]

theorem Agree.ownQueue (h : m.Agree) (e : GoString) :
    (m.unbindAllForExchange e).getBindingsForQueue e =
      eraseKeys Binding.target (m.getBindingsForQueue e)
        (((m.getBindingsForQueue e).filter fun b => b.exchangeName == e).map Binding.target) := by
  rw [getBindingsForQueue_unbindAllForExchange, ← h.same]
  congr 1
  refine map_congr_left fun b hb => ?_
  obtain ⟨hmem, hq⟩ := mem_filter.mp hb
  rw [Binding.target, h.filed.byExchange e b hmem, eq_of_beq hq]

theorem Agree.otherQueue (h : m.Agree) {e q : GoString} (hq : q ≠ e) :
    (m.unbindAllForExchange e).getBindingsForQueue q = m.getBindingsForQueue q := by
  rw [getBindingsForQueue_unbindAllForExchange]
  refine eraseKeys_of_not_mem fun b hb hmem => ?_
  obtain ⟨b', hb', htarget⟩ := mem_map.mp hmem
  have he : b'.exchangeName = e := h.filed.byExchange e b' (mem_filter.mp hb').1
  have hname : b'.exchangeName = b.queueName := congrArg Prod.fst htarget
  rw [he, h.filed.byQueue q b hb] at hname
  exact hq hname.symm

theorem Agree.pairwise_iff (h : m.Agree) (e : GoString) :
    (m.getBindingsForQueue e).Pairwise (fun b b' =>
        b.routingKey = b'.routingKey → b'.exchangeName = e → b.exchangeName = e) ↔
      (m.getBindingsForQueue e).Pairwise fun b b' =>
        b.target = b'.target → (b'.exchangeName == e) = true → (b.exchangeName == e) = true := by
  refine List.Pairwise.iff_of_mem fun {b b'} hb hb' => ?_
  simp only [Binding.target, h.filed.byQueue e b hb, h.filed.byQueue e b' hb', beq_iff_eq,
    Prod.mk.injEq, true_and]

theorem Agree.unbindAllForExchange (h : m.Agree) {e : GoString}
    (hsafe : m.Harmless (.unbindAllForExchange e)) : (m.unbindAllForExchange e).Agree where
  filed := h.filed.step (.unbindAllForExchange e)
  same x y := by
    obtain ⟨hall, hpair⟩ := hsafe
    have hown : (m.unbindAllForExchange e).getBindingsForQueue e =
        (m.getBindingsForQueue e).filter fun b => !(b.exchangeName == e) := by
      rw [h.ownQueue]
      exact eraseKeys_of_pairwise ((h.pairwise_iff e).mp hpair)
    rw [getBindings_unbindAllForExchange]
    by_cases hy : y = e
    · rw [hy, hown, filter_filter]
      by_cases hx : x = e
      · rw [if_pos hx, hx]
        simp
      · rw [if_neg hx, h.same]
        refine filter_congr fun b _ => ?_
        by_cases hb : b.exchangeName = x
        · simp [hb, hx]
        · simp [hb]
    · rw [h.otherQueue hy]
      by_cases hx : x = e
      · rw [if_pos hx, hx, ← h.same, filter_nil]
        symm
        rw [filter_eq_nil_iff]
        intro b hb
        simpa [hall b hb] using Ne.symm hy
      · rw [if_neg hx, h.same]

theorem Agree.unbind_ne (h : m.Agree) {e q : GoString} (hne : e ≠ q) (k x : GoString) :
    (m.unbind e q k).getBindingsForQueue x = m.getBindingsForQueue x := by
  rw [getBindingsForQueue_unbind]
  split
  · rename_i hx
    rw [hx, eraseP_of_forall_not]
    intro b hb hhit
    simp only [Bool.and_eq_true, beq_iff_eq, h.filed.byQueue q b hb] at hhit
    exact hne hhit.1.symm
  · rfl

/-- Between equal names it takes out the first binding with the key, whose exchange may be any. -/
theorem Agree.unbind_eq (h : m.Agree) (e k : GoString) :
    (m.unbind e e k).getBindingsForQueue e =
      (m.getBindingsForQueue e).eraseP fun b => b.routingKey == k := by
  rw [getBindingsForQueue_unbind, if_pos rfl]
  simp only [Bool.and_comm (_ == e)]
  refine (eraseP_eq_of_find? fun b hb => ?_).symm
  simpa using h.filed.byQueue e b (mem_of_find?_eq_some hb)

theorem Agree.same_unbind_eq (h : m.Agree) {e k : GoString} (hfirst : ∀ b,
      (m.getBindingsForQueue e).find? (fun b => b.routingKey == k) = some b → b.exchangeName = e)
    (x y : GoString) :
    ((m.unbind e e k).getBindings x).filter (fun b => b.queueName == y) =
      ((m.unbind e e k).getBindingsForQueue y).filter fun b => b.exchangeName == x := by
  have hqueue : (m.unbind e e k).getBindingsForQueue e =
      (m.getBindingsForQueue e).eraseP fun b => b.routingKey == k && b.exchangeName == e := by
    rw [h.unbind_eq]
    exact eraseP_eq_of_find? fun b hb => by simpa using hfirst b hb
  have hexchange : (m.unbind e e k).getBindings e =
      (m.getBindings e).eraseP fun b => b.routingKey == k && b.queueName == e := by
    rw [getBindings_unbind, if_pos rfl]
    simp only [Bool.and_comm]
  by_cases hx : x = e
  · by_cases hy : y = e
    · rw [hx, hy, hexchange, hqueue, ← eraseP_filter, ← eraseP_filter, h.same]
    · rw [hx, hexchange, getBindingsForQueue_unbind, if_neg hy, ← h.same]
      refine filter_eraseP_of_disjoint fun b _ hhit => ?_
      simp only [Bool.and_eq_true, beq_iff_eq] at hhit
      simpa [hhit.2] using Ne.symm hy
  · rw [getBindings_unbind, if_neg hx, h.same]
    by_cases hy : y = e
    · rw [hy, hqueue]
      refine (filter_eraseP_of_disjoint fun b _ hhit => ?_).symm
      simp only [Bool.and_eq_true, beq_iff_eq] at hhit
      simpa [hhit.2] using Ne.symm hx
    · rw [getBindingsForQueue_unbind, if_neg hy]

theorem Agree.unbind (h : m.Agree) {e q k : GoString} (hsafe : m.Harmless (.unbind e q k)) :
    (m.unbind e q k).Agree := by
  refine ⟨h.filed.unbind e q k, fun x y => ?_⟩
  simp only [Harmless] at hsafe
  split at hsafe
  · rename_i heq
    subst heq
    exact h.same_unbind_eq hsafe x y
  · rename_i hne
    rw [h.unbind_ne hne, getBindings_unbind, ← h.same]
    split
    · rename_i hx
      rw [hx, eraseP_of_forall_not]
      intro b hb hhit
      exact hsafe b hb (by simpa using hhit)
    · rfl

theorem Agree.step (h : m.Agree) {op : BindingOp} (hsafe : m.Harmless op) :
    (bindingStep m op).Agree := by
  cases op with
  | bind e q k args => exact h.bind e q k args
  | unbind e q k => exact h.unbind hsafe
  | unbindAllForExchange e => exact h.unbindAllForExchange hsafe
  | unbindAllForQueue q => exact h.unbindAllForQueue q

/-! ## Calls that break it -/

theorem not_perm_of_eraseP {l l' : List Binding} {hit p : Binding → Bool} {b : Binding}
    (hfirst : l.find? hit = some b) (hb : p b = true) (hl : l.filter p = l') :
    ¬ ((l.eraseP hit).filter p).Perm l' := by
  intro hperm
  have hlen := hperm.length_eq
  have hless := length_filter_eraseP hfirst hb
  rw [hl] at hless
  omega

theorem Agree.harmless_unbind (h : m.Agree) {e q k : GoString}
    (hsame : (m.unbind e q k).SameBindings) : m.Harmless (.unbind e q k) := by
  rw [(h.filed.unbind e q k).sameBindings_iff] at hsame
  simp only [Harmless]
  split
  · rename_i heq
    subst heq
    intro b hfirst
    by_contra hne
    have hperm := hsame b.exchangeName e
    rw [h.unbind_eq, getBindings_unbind, if_neg hne] at hperm
    exact not_perm_of_eraseP hfirst (by simp) (h.same b.exchangeName e).symm hperm.symm
  · rename_i hne
    intro b hb hhit
    have hperm := hsame e q
    rw [h.unbind_ne hne, getBindings_unbind, if_pos rfl] at hperm
    cases hfirst : (m.getBindings e).find? fun b => b.queueName == q && b.routingKey == k with
    | none => exact List.find?_eq_none.mp hfirst b hb (by simpa using hhit)
    | some b' =>
      have hb' : (b'.queueName == q) = true := by
        have := List.find?_some hfirst
        simp only [Bool.and_eq_true] at this
        exact this.1
      exact not_perm_of_eraseP hfirst hb' (h.same e q) hperm

theorem Agree.harmless_unbindAllForExchange (h : m.Agree) {e : GoString}
    (hsame : (m.unbindAllForExchange e).SameBindings) : m.Harmless (.unbindAllForExchange e) := by
  have hfiled : (m.unbindAllForExchange e).Filed := h.filed.step (.unbindAllForExchange e)
  rw [hfiled.sameBindings_iff] at hsame
  -- nothing of the exchange is left in its own list, so nothing may be left in those of queues
  have hgone : ∀ q, ((m.unbindAllForExchange e).getBindingsForQueue q).filter
      (fun b => b.exchangeName == e) = [] := by
    intro q
    have hperm := hsame e q
    rw [getBindings_unbindAllForExchange, if_pos rfl, filter_nil] at hperm
    exact hperm.symm.eq_nil
  constructor
  · intro b hb
    by_contra hne
    have hnil := hgone b.queueName
    rw [h.otherQueue hne, ← h.same, filter_eq_nil_iff] at hnil
    exact hnil b hb (by simp)
  · rw [h.pairwise_iff, ← forall_eraseKeys_iff, ← h.ownQueue]
    intro b hb
    simpa using filter_eq_nil_iff.mp (hgone e) b hb

theorem Agree.sameBindings_step_iff (h : m.Agree) (op : BindingOp) :
    (bindingStep m op).SameBindings ↔ m.Harmless op := by
  constructor
  · intro hsame
    cases op with
    | bind e q k args => exact True.intro
    | unbind e q k => exact h.harmless_unbind hsame
    | unbindAllForExchange e => exact h.harmless_unbindAllForExchange hsame
    | unbindAllForQueue q => exact True.intro
  · exact fun hsafe => (h.step hsafe).sameBindings

theorem agree_empty : (⟨∅, ∅⟩ : BindingManager).Agree := by
  refine ⟨⟨fun e b hb => ?_, fun q b hb => ?_⟩, fun e q => rfl⟩
  · cases hb
  · cases hb

end BindingManager

open BindingManager in
/-- The indexes of a new manager agree after every call of a run exactly if every call is
harmless. -/
theorem sameBindings_run_iff (ops : List BindingOp) :
    Along bindingStep (fun m op => (bindingStep m op).SameBindings) ⟨∅, ∅⟩ ops ↔
      Along bindingStep Harmless ⟨∅, ∅⟩ ops :=
  Along.iff_of_kept (I := Agree) (fun _ _ h hsafe => h.step hsafe)
    (fun _ op h => h.sameBindings_step_iff op) agree_empty

/-- One binding, bound and unbound again, is still found through its queue. -/
theorem unbind_leaves_queue_index :
    ¬ (([.bind (str "ex") (str "q") (str "k") [], .unbind (str "ex") (str "q") (str "k")] :
      List BindingOp).foldl bindingStep ⟨∅, ∅⟩).SameBindings := by
  intro h
  have hlen := (h (str "ex") (str "q")).length_eq
  revert hlen
  decide

end Gomq.Broker
