import Gomq.Lib.Run
import Gomq.Broker.Metadata

/-!
# Restarting from the metadata store

A server that is restarted declares and binds what is in the store. That is what it had before as
long as the store is told of every change and has room for every binding (`Told`). It is not told
when `RemoveExclusive` deletes queues, nor when all bindings of an exchange or a queue are removed.
It has one place for all bindings whose three names read the same when joined by bars, so a second
binding there replaces the first, and removing one of several removes the only stored one.
-/

namespace Gomq.Broker

open Wire Persisted BindingManager List

/-! ## Bindings as a set -/

namespace BindingManager

def Bound (m : BindingManager) (b : Binding) : Prop := ∃ e, b ∈ m.getBindings e

/-- Each index files a binding under the name it is about. -/
structure Filed (m : BindingManager) : Prop where
  byExchange : ∀ e, ∀ b ∈ m.byExchange.getD e [], b.exchangeName = e
  byQueue : ∀ q, ∀ b ∈ m.byQueue.getD q [], b.queueName = q

variable {m : BindingManager}

theorem getBindings_bind (m : BindingManager) (e q k : GoString) (args : Table) (x : GoString) :
    (m.bind e q k args).getBindings x =
      if x = e then m.getBindings e ++ [⟨e, q, k, args⟩] else m.getBindings x := by
  unfold getBindings bind
  exact GoMap.getD_set _ _ _ _ _

theorem bound_bind (e q k : GoString) (args : Table) (b : Binding) :
    (m.bind e q k args).Bound b ↔ b = ⟨e, q, k, args⟩ ∨ m.Bound b := by
  unfold Bound
  simp only [getBindings_bind]
  constructor
  · rintro ⟨x, hb⟩
    split at hb
    · rcases mem_append.mp hb with hb | hb
      · exact Or.inr ⟨e, hb⟩
      · exact Or.inl (mem_singleton.mp hb)
    · exact Or.inr ⟨x, hb⟩
  · rintro (rfl | ⟨x, hb⟩)
    · exact ⟨e, by simp⟩
    · refine ⟨x, ?_⟩
      split
      · rename_i hx
        exact mem_append_left _ (hx ▸ hb)
      · exact hb

theorem removeFrom_fst (idx : GoMap GoString (List Binding)) (key q k : GoString) :
    (removeFrom idx key q k).1 =
      (idx.getD key []).any fun b => b.queueName == q && b.routingKey == k := by
  unfold removeFrom
  dsimp only
  split
  · rename_i h; exact h.symm
  · rename_i h; exact (Bool.eq_false_iff.mpr h).symm

theorem removeFrom_of_not {idx : GoMap GoString (List Binding)} {key q k : GoString}
    (h : (removeFrom idx key q k).1 = false) : (removeFrom idx key q k).2 = idx := by
  rw [removeFrom_fst] at h
  unfold removeFrom
  dsimp only
  rw [if_neg (Bool.eq_false_iff.mp h)]

theorem getD_removeFrom (idx : GoMap GoString (List Binding)) (key q k x : GoString) :
    (removeFrom idx key q k).2.getD x [] =
      if x = key then (idx.getD key []).eraseP fun b => b.queueName == q && b.routingKey == k
      else idx.getD x [] := by
  unfold removeFrom
  dsimp only
  split
  · exact GoMap.getD_set _ _ _ _ _
  · rename_i hany
    split
    · rename_i hx
      rw [hx, eraseP_of_forall_not fun b hb hhit => hany (any_eq_true.mpr ⟨b, hb, hhit⟩)]
    · rfl

theorem mem_of_mem_removeFrom {idx : GoMap GoString (List Binding)} {key q k x : GoString}
    {b : Binding} (h : b ∈ (removeFrom idx key q k).2.getD x []) : b ∈ idx.getD x [] := by
  rw [getD_removeFrom] at h
  split at h
  · rename_i hx
    rw [hx]
    exact mem_of_mem_eraseP h
  · exact h

theorem Filed.bind (h : m.Filed) (e q k : GoString) (args : Table) :
    (m.bind e q k args).Filed := by
  constructor
  · intro x b hb
    have hget : b ∈ (m.bind e q k args).getBindings x := hb
    rw [getBindings_bind] at hget
    split at hget
    · rename_i hx
      rcases mem_append.mp hget with hb | hb
      · rw [hx]; exact h.byExchange e b hb
      · rw [mem_singleton.mp hb, hx]
    · exact h.byExchange x b hget
  · intro x b hb
    have hget : b ∈ (m.byQueue.set q (m.byQueue.getD q [] ++ [⟨e, q, k, args⟩])).getD x [] := hb
    rw [GoMap.getD_set] at hget
    split at hget
    · rename_i hx
      rcases mem_append.mp hget with hb | hb
      · rw [hx]; exact h.byQueue q b hb
      · rw [mem_singleton.mp hb, hx]
    · exact h.byQueue x b hget

theorem Filed.unbind (h : m.Filed) (e q k : GoString) : (m.unbind e q k).Filed where
  byExchange := fun x b hb => h.byExchange x b (mem_of_mem_removeFrom hb)
  byQueue := fun x b hb => h.byQueue x b (mem_of_mem_removeFrom hb)

theorem Filed.mem_getBindings_iff (h : m.Filed) (b : Binding)
    (e : GoString) : b ∈ m.getBindings e ↔ m.Bound b ∧ b.exchangeName = e := by
  constructor
  · exact fun hb => ⟨⟨e, hb⟩, h.byExchange e b hb⟩
  · rintro ⟨⟨e', hb⟩, rfl⟩
    rw [h.byExchange e' b hb]
    exact hb

/-- At most one binding is stored under a key: one in the list of the exchange, none elsewhere. -/
structure Single (m : BindingManager) (e key : GoString) : Prop where
  own : ((m.getBindings e).countP fun b => b.storeKey == key) ≤ 1
  others : ∀ x, x ≠ e → ∀ b ∈ m.getBindings x, b.storeKey ≠ key

theorem not_of_mem_eraseP {α : Type} {l : List α} {hit p : α → Bool} {b : α}
    (hcount : l.countP p ≤ 1) (hany : l.any hit = true) (himp : ∀ a ∈ l, hit a = true → p a = true)
    (hb : b ∈ l.eraseP hit) : p b = false := by
  obtain ⟨x, hx, hhit⟩ := any_eq_true.mp hany
  obtain ⟨a, l₁, l₂, -, ha, hl, herase⟩ := exists_of_eraseP hx hhit
  rw [herase] at hb
  have hpa : p a = true := himp a (by rw [hl]; simp) ha
  rw [hl, countP_append, countP_cons_of_pos hpa] at hcount
  have h₁ : l₁.countP p = 0 := by omega
  have h₂ : l₂.countP p = 0 := by omega
  rcases mem_append.mp hb with hb | hb
  · exact Bool.eq_false_iff.mpr (countP_eq_zero.mp h₁ b hb)
  · exact Bool.eq_false_iff.mpr (countP_eq_zero.mp h₂ b hb)

theorem bound_unbind (h : m.Filed) {e q k : GoString}
    (hfound : (removeFrom m.byExchange e q k).1 = true) (hs : m.Single e (bindingKey e q k))
    (b : Binding) :
    (m.unbind e q k).Bound b ↔ m.Bound b ∧ b.storeKey ≠ bindingKey e q k := by
  have hget : ∀ x, (m.unbind e q k).getBindings x =
      if x = e then (m.getBindings e).eraseP fun b => b.queueName == q && b.routingKey == k
      else m.getBindings x := fun x => getD_removeFrom m.byExchange e q k x
  have hhit : ∀ a ∈ m.getBindings e, (a.queueName == q && a.routingKey == k) = true →
      a.storeKey = bindingKey e q k := by
    intro a ha hq
    simp only [Bool.and_eq_true, beq_iff_eq] at hq
    rw [Binding.storeKey, h.byExchange e a ha, hq.1, hq.2]
  have hany : ((m.getBindings e).any fun b => b.queueName == q && b.routingKey == k) = true :=
    (removeFrom_fst m.byExchange e q k).symm.trans hfound
  constructor
  · rintro ⟨x, hx⟩
    rw [hget] at hx
    split at hx
    · refine ⟨⟨e, mem_of_mem_eraseP hx⟩, ?_⟩
      have := not_of_mem_eraseP hs.own hany (fun a ha hq => by simpa using hhit a ha hq) hx
      simpa using this
    · rename_i hne
      exact ⟨⟨x, hx⟩, hs.others x hne b hx⟩
  · rintro ⟨⟨x, hx⟩, hkey⟩
    refine ⟨x, ?_⟩
    rw [hget]
    split
    · rename_i hxe
      rw [hxe] at hx
      have hno : ¬ (b.queueName == q && b.routingKey == k) = true := fun hq => hkey (hhit b hx hq)
      exact (mem_eraseP_of_neg (p := fun b : Binding => b.queueName == q && b.routingKey == k)
        hno).mpr hx
    · exact hx

theorem getBindings_unbind_of_not {e q k : GoString}
    (hfound : (removeFrom m.byExchange e q k).1 = false) (x : GoString) :
    (m.unbind e q k).getBindings x = m.getBindings x := by
  unfold unbind getBindings
  rw [removeFrom_of_not hfound]

theorem unbindAllForExchange_of_nil {e : GoString} (h : m.getBindings e = []) :
    m.unbindAllForExchange e = { m with byExchange := m.byExchange.del e } := by
  have hnil : m.byExchange.getD e [] = [] := h
  unfold unbindAllForExchange
  rw [hnil]
  rfl

theorem unbindAllForQueue_of_not (h : m.Filed) {q : GoString}
    (hq : ∀ b, m.Bound b → b.queueName ≠ q) :
    (m.unbindAllForQueue q).byExchange = m.byExchange ∧
      (m.unbindAllForQueue q).byQueue = m.byQueue.del q := by
  have hfold : ∀ (l : List Binding) (u : BindingManager), (∀ b ∈ l, b.queueName = q) →
      u.byExchange = m.byExchange →
      (l.foldl (fun m b => { m with
        byExchange := (removeFrom m.byExchange b.exchangeName b.queueName b.routingKey).2 })
        u) = u := by
    intro l
    induction l with
    | nil => exact fun _ _ _ => rfl
    | cons b l ih =>
      intro u hl hu
      have hno : (removeFrom u.byExchange b.exchangeName b.queueName b.routingKey).1 = false := by
        rw [removeFrom_fst, Bool.eq_false_iff]
        intro hany
        obtain ⟨a, ha, hhit⟩ := any_eq_true.mp hany
        simp only [Bool.and_eq_true, beq_iff_eq] at hhit
        rw [hu] at ha
        exact hq a ⟨b.exchangeName, ha⟩ (hhit.1.trans (hl b mem_cons_self))
      rw [foldl_cons, removeFrom_of_not hno]
      exact ih u (fun a ha => hl a (mem_cons_of_mem b ha)) hu
  unfold unbindAllForQueue
  rw [hfold (m.byQueue.getD q []) { m with byQueue := m.byQueue.del q } (h.byQueue q) rfl]
  exact ⟨rfl, rfl⟩

end BindingManager

/-! ## Calls on the managers -/

inductive MetaCall where
  | declareQueue (env : Env) (name : GoString) (durable exclusive autoDelete : Bool) (args : Table)
      (owner : Option ConnRef)
  | deleteQueue (name : GoString)
  | declareExchange (name : GoString) (exType : ExchangeType) (durable autoDelete internal : Bool)
      (args : Table)
  | deleteExchange (name : GoString)
  | bind (exchange queue routingKey : GoString) (args : Table)
  | unbind (exchange queue routingKey : GoString)
  | unbindAllForExchange (exchange : GoString)
  | unbindAllForQueue (queue : GoString)
  | removeExclusive (conn : Option ConnRef)

namespace Persisted

def step (p : Persisted) : MetaCall → Persisted
  | .declareQueue env name durable exclusive autoDelete args owner =>
    (p.declareQueue env name durable exclusive autoDelete args owner).2
  | .deleteQueue name => p.deleteQueue name
  | .declareExchange name exType durable autoDelete internal args =>
    (p.declareExchange name exType durable autoDelete internal args).2
  | .deleteExchange name => p.deleteExchange name
  | .bind exchange queue routingKey args => p.bind exchange queue routingKey args
  | .unbind exchange queue routingKey => p.unbind exchange queue routingKey
  | .unbindAllForExchange exchange => p.unbindAllForExchange exchange
  | .unbindAllForQueue queue => p.unbindAllForQueue queue
  | .removeExclusive conn => p.removeExclusive conn

def empty : Persisted := ⟨newServer, newMemoryStore⟩

def builtIn : List GoString := defaultExchanges.keys

end Persisted

/-- Two servers have the same queues but for their owners, the same exchanges but for the built-in
ones, and the same set of bindings. -/
structure SameMetadata (s s' : Server) : Prop where
  queues : ∀ n, (s.queues.get n).map Queue.meta = (s'.queues.get n).map Queue.meta
  exchanges : ∀ n, n ∉ builtIn → s.exchanges.get n = s'.exchanges.get n
  bindings : ∀ b, s.bindings.Bound b ↔ s'.bindings.Bound b

def Restartable (p : Persisted) : Prop :=
  ∀ (env : Env) (l : p.store.Listing),
    SameMetadata p.server (restoreFromStore env ⟨newServer, p.store⟩ l).server

/-- The store is told of the change and has a place of its own for each binding: no exclusive queue
and no last binding is removed behind its back, a new binding has the key of no other one, and a
binding that is removed was the only one under its key. -/
def Told (p : Persisted) : MetaCall → Prop
  | .bind e q k args => ∀ b, p.server.bindings.Bound b → b.storeKey = bindingKey e q k →
      b = ⟨e, q, k, args⟩
  | .unbind e q k => (∃ b ∈ p.server.bindings.getBindings e, b.queueName = q ∧ b.routingKey = k) →
      p.server.bindings.Single e (bindingKey e q k)
  | .unbindAllForExchange e => p.server.bindings.getBindings e = []
  | .unbindAllForQueue q => ∀ b, p.server.bindings.Bound b → b.queueName ≠ q
  | .removeExclusive conn => ∀ n q, p.server.queues.get n = some q → q.owner ≠ conn
  | _ => True

/-! ## The store mirrors the server -/

/-- The store has the queues, the bindings, and the exchanges but for the built-in ones. -/
structure Mirrored (p : Persisted) : Prop where
  queueNames : ∀ n q, p.server.queues.get n = some q → q.name = n
  queues : ∀ n, (p.server.queues.get n).map Queue.meta = p.store.queues.get n
  exchangeNames : ∀ n x, p.server.exchanges.get n = some x → x.name = n
  exchanges : ∀ n, n ∉ builtIn →
    (p.server.exchanges.get n).map Exchange.meta = p.store.exchanges.get n
  storedNames : ∀ n m, p.store.exchanges.get n = some m → m.name = n
  filed : p.server.bindings.Filed
  bindings : ∀ b, p.server.bindings.Bound b ↔ p.store.bindings.get b.storeKey = some b.meta
  storedKeys : ∀ k m, p.store.bindings.get k = some m →
    k = bindingKey m.exchange m.queue m.routingKey

namespace Mirrored

variable {p : Persisted}

theorem declareQueue (h : Mirrored p) (env : Env) (name : GoString)
    (durable exclusive autoDelete : Bool) (args : Table) (owner : Option ConnRef) :
    Mirrored (p.declareQueue env name durable exclusive autoDelete args owner).2 := by
  unfold Persisted.declareQueue
  cases hq : p.server.queues.get name with
  | some q => dsimp only; split <;> exact h
  | none =>
    refine { h with queueNames := fun n q hn => ?_, queues := fun n => ?_ }
    · have hget : (p.server.queues.set name ⟨name, durable, exclusive, autoDelete, args, owner⟩).get
          n = some q := hn
      rw [GoMap.get_set] at hget
      split at hget
      · rename_i hnn
        rw [← Option.some.inj hget, hnn]
      · exact h.queueNames n q hget
    · simp only [MemoryStore.saveQueue, Queue.meta, GoMap.get_set]
      split
      · rfl
      · exact h.queues n

theorem deleteQueue (h : Mirrored p) (name : GoString) : Mirrored (p.deleteQueue name) := by
  unfold Persisted.deleteQueue
  split
  · exact h
  · refine { h with queueNames := fun n q hn => ?_, queues := fun n => ?_ }
    · have hget : (p.server.queues.del name).get n = some q := hn
      rw [GoMap.get_del] at hget
      split at hget
      · cases hget
      · exact h.queueNames n q hget
    · simp only [MemoryStore.deleteQueue, GoMap.get_del]
      split
      · rfl
      · exact h.queues n

theorem declareExchange (h : Mirrored p) (name : GoString) (exType : ExchangeType)
    (durable autoDelete internal : Bool) (args : Table) :
    Mirrored (p.declareExchange name exType durable autoDelete internal args).2 := by
  unfold Persisted.declareExchange
  cases hx : p.server.exchanges.get name with
  | some x => dsimp only; split <;> exact h
  | none =>
    refine { h with
      exchangeNames := fun n x hn => ?_
      exchanges := fun n hb => ?_
      storedNames := fun n m hn => ?_ }
    · have hget : (p.server.exchanges.set name ⟨name, exType, durable, autoDelete, internal,
          args⟩).get n = some x := hn
      rw [GoMap.get_set] at hget
      split at hget
      · rename_i hnn
        rw [← Option.some.inj hget, hnn]
      · exact h.exchangeNames n x hget
    · simp only [MemoryStore.saveExchange, Exchange.meta, GoMap.get_set]
      split
      · rfl
      · exact h.exchanges n hb
    · simp only [MemoryStore.saveExchange, Exchange.meta, GoMap.get_set] at hn
      split at hn
      · rename_i hnn
        rw [← Option.some.inj hn, hnn]
      · exact h.storedNames n m hn

theorem deleteExchange (h : Mirrored p) (name : GoString) : Mirrored (p.deleteExchange name) := by
  unfold Persisted.deleteExchange
  split
  · exact h
  · refine { h with
      exchangeNames := fun n x hn => ?_
      exchanges := fun n hb => ?_
      storedNames := fun n m hn => ?_ }
    · have hget : (p.server.exchanges.del name).get n = some x := hn
      rw [GoMap.get_del] at hget
      split at hget
      · cases hget
      · exact h.exchangeNames n x hget
    · simp only [MemoryStore.deleteExchange, GoMap.get_del]
      split
      · rfl
      · exact h.exchanges n hb
    · simp only [MemoryStore.deleteExchange, GoMap.get_del] at hn
      split at hn
      · cases hn
      · exact h.storedNames n m hn

theorem bind (h : Mirrored p) {e q k : GoString} {args : Table}
    (ht : Told p (.bind e q k args)) : Mirrored (p.bind e q k args) := by
  refine { h with
    filed := h.filed.bind e q k args, bindings := fun b => ?_, storedKeys := fun key m hm => ?_ }
  · show (p.server.bindings.bind e q k args).Bound b ↔
      (p.store.bindings.set (bindingKey e q k) ⟨e, q, k, args⟩).get b.storeKey = some b.meta
    rw [bound_bind, GoMap.get_set]
    split
    · -- the place of the new binding
      rename_i hkey
      constructor
      · rintro (rfl | hb)
        · rfl
        · rw [ht b hb hkey]; rfl
      · intro hmeta
        have heq : Binding.meta ⟨e, q, k, args⟩ = b.meta := Option.some.inj hmeta
        exact Or.inl (Binding.meta_injective heq).symm
    · rename_i hkey
      rw [← h.bindings b]
      refine ⟨fun hb => hb.resolve_left ?_, Or.inr⟩
      rintro rfl
      exact hkey rfl
  · have hget : (p.store.bindings.set (bindingKey e q k) ⟨e, q, k, args⟩).get key = some m := hm
    rw [GoMap.get_set] at hget
    split at hget
    · rename_i hkey
      rw [← Option.some.inj hget, hkey]
    · exact h.storedKeys key m hget

theorem sameBindings (h : Mirrored p) {m : BindingManager}
    (hget : ∀ x, m.getBindings x = p.server.bindings.getBindings x)
    (hq : ∀ x, ∀ b ∈ m.byQueue.getD x [], b ∈ p.server.bindings.byQueue.getD x []) :
    Mirrored { p with server := { p.server with bindings := m } } := by
  refine { h with filed := ⟨fun x b hb => ?_, fun x b hb => ?_⟩, bindings := fun b => ?_ }
  · have hmem : b ∈ m.getBindings x := hb
    rw [hget] at hmem
    exact h.filed.byExchange x b hmem
  · exact h.filed.byQueue x b (hq x b hb)
  · rw [← h.bindings b]
    exact exists_congr fun x => by rw [← hget x]

theorem unbind (h : Mirrored p) {e q k : GoString} (ht : Told p (.unbind e q k)) :
    Mirrored (p.unbind e q k) := by
  unfold Persisted.unbind
  cases hfound : (removeFrom p.server.bindings.byExchange e q k).1 with
  | false =>
    rw [if_neg Bool.false_ne_true]
    exact h.sameBindings (getBindings_unbind_of_not hfound)
      fun _ _ hb => mem_of_mem_removeFrom hb
  | true =>
    rw [if_pos rfl]
    have hsingle : p.server.bindings.Single e (bindingKey e q k) := by
      rw [removeFrom_fst] at hfound
      obtain ⟨b, hb, hhit⟩ := any_eq_true.mp hfound
      exact ht ⟨b, hb, by simpa using hhit⟩
    refine { h with
      filed := h.filed.unbind e q k, bindings := fun b => ?_, storedKeys := fun key m hm => ?_ }
    · show (p.server.bindings.unbind e q k).Bound b ↔
        (p.store.bindings.del (bindingKey e q k)).get b.storeKey = some b.meta
      rw [bound_unbind h.filed hfound hsingle, GoMap.get_del, h.bindings b]
      split <;> rename_i hkey <;> simp [hkey]
    · have hget : (p.store.bindings.del (bindingKey e q k)).get key = some m := hm
      rw [GoMap.get_del] at hget
      split at hget
      · cases hget
      · exact h.storedKeys key m hget

theorem mem_getD_del {m : GoMap GoString (List Binding)} {k x : GoString} {b : Binding}
    (h : b ∈ (m.del k).getD x []) : b ∈ m.getD x [] := by
  unfold GoMap.getD at h ⊢
  rw [GoMap.get_del] at h
  split at h
  · exact absurd h not_mem_nil
  · exact h

theorem unbindAllForExchange (h : Mirrored p) {e : GoString}
    (ht : Told p (.unbindAllForExchange e)) : Mirrored (p.unbindAllForExchange e) := by
  unfold Persisted.unbindAllForExchange
  rw [unbindAllForExchange_of_nil ht]
  refine h.sameBindings (fun x => ?_) fun _ _ hb => hb
  show (p.server.bindings.byExchange.del e).getD x [] = p.server.bindings.byExchange.getD x []
  unfold GoMap.getD
  rw [GoMap.get_del]
  split
  · rename_i hx
    rw [hx]
    exact Eq.symm ht
  · rfl

theorem unbindAllForQueue (h : Mirrored p) {q : GoString}
    (ht : Told p (.unbindAllForQueue q)) : Mirrored (p.unbindAllForQueue q) := by
  obtain ⟨he, hq⟩ := unbindAllForQueue_of_not h.filed ht
  refine h.sameBindings (fun x => ?_) fun x b hb => ?_
  · unfold getBindings
    rw [he]
  · rw [hq] at hb
    exact mem_getD_del hb

theorem removeExclusive (h : Mirrored p) {conn : Option ConnRef}
    (ht : Told p (.removeExclusive conn)) : Mirrored (p.removeExclusive conn) := by
  have hnone : ownedBy p.server conn = [] := by
    unfold ownedBy
    refine filter_eq_nil_iff.mpr fun n _ => ?_
    cases hn : p.server.queues.get n with
    | none => exact Bool.false_ne_true
    | some q => simpa using ht n q hn
  unfold Persisted.removeExclusive
  rw [hnone]
  exact h

theorem step (h : Mirrored p) (call : MetaCall) (ht : Told p call) : Mirrored (p.step call) := by
  cases call with
  | declareQueue env name durable exclusive autoDelete args owner =>
    exact h.declareQueue env name durable exclusive autoDelete args owner
  | deleteQueue name => exact h.deleteQueue name
  | declareExchange name exType durable autoDelete internal args =>
    exact h.declareExchange name exType durable autoDelete internal args
  | deleteExchange name => exact h.deleteExchange name
  | bind e q k args => exact h.bind ht
  | unbind e q k => exact h.unbind ht
  | unbindAllForExchange e => exact h.unbindAllForExchange ht
  | unbindAllForQueue q => exact h.unbindAllForQueue ht
  | removeExclusive conn => exact h.removeExclusive ht

end Mirrored

/-! ## Restarting -/

theorem bound_foldl_bind (l : List BindingMeta) (m : BindingManager) (b : Binding) :
    (l.foldl (fun m x => m.bind x.exchange x.queue x.routingKey x.args) m).Bound b ↔
      b.meta ∈ l ∨ m.Bound b := by
  induction l generalizing m with
  | nil => simp
  | cons x l ih =>
    have hx : b = ⟨x.exchange, x.queue, x.routingKey, x.args⟩ ↔ b.meta = x :=
      ⟨fun h => h ▸ rfl, fun h => h ▸ rfl⟩
    rw [foldl_cons, ih, bound_bind, hx, mem_cons]
    grind

theorem not_bound_newServer (b : Binding) : ¬ newServer.bindings.Bound b :=
  fun ⟨_, hb⟩ => absurd hb not_mem_nil

theorem filed_foldl_bind (l : List BindingMeta) {m : BindingManager} (h : m.Filed) :
    (l.foldl (fun m x => m.bind x.exchange x.queue x.routingKey x.args) m).Filed := by
  induction l generalizing m with
  | nil => exact h
  | cons x l ih => exact ih (h.bind x.exchange x.queue x.routingKey x.args)

theorem mem_getBindings_foldl_bind (l : List BindingMeta) (b : Binding) (e : GoString) :
    b ∈ (l.foldl (fun m x => m.bind x.exchange x.queue x.routingKey x.args)
      newServer.bindings).getBindings e ↔ b.meta ∈ l ∧ b.exchangeName = e := by
  have hfiled : newServer.bindings.Filed :=
    ⟨fun _ _ hb => absurd hb not_mem_nil, fun _ _ hb => absurd hb not_mem_nil⟩
  rw [(filed_foldl_bind l hfiled).mem_getBindings_iff, bound_foldl_bind,
    or_iff_left (not_bound_newServer b)]

theorem get_defaultExchanges_of_not {n : GoString} (hn : n ∉ builtIn) :
    defaultExchanges.get n = none := by
  by_contra hne
  exact hn (GoMap.mem_keys_iff.mpr (Option.ne_none_iff_exists'.mp hne))

theorem Mirrored.restartable {p : Persisted} (h : Mirrored p) : Restartable p := by
  intro env l
  rw [restoreFromStore_server]
  refine ⟨fun n => ?_, fun n hn => ?_, fun b => ?_⟩
  · have hnames : ∀ k m, p.store.queues.get k = some m → m.name = k := by
      intro k m hm
      rw [← h.queues k] at hm
      obtain ⟨q, hq, rfl⟩ := Option.map_eq_some_iff.mp hm
      exact h.queueNames k q hq
    rw [h.queues n]
    show p.store.queues.get n = (GoMap.get (l.queues.foldl (fun (queues : GoMap GoString Queue) m =>
      queues.setNew m.name m.toQueue) ∅) n).map Queue.meta
    rw [GoMap.get_foldl_setNew, GoMap.find?_vals hnames l.queues_perm]
    simp [Function.comp_def]
  · show p.server.exchanges.get n =
      (l.exchanges.foldl (fun exchanges m => exchanges.setNew m.name m.toExchange)
        defaultExchanges).get n
    rw [GoMap.get_foldl_setNew, get_defaultExchanges_of_not hn,
      GoMap.find?_vals h.storedNames l.exchanges_perm, ← h.exchanges n hn]
    simp [Function.comp_def]
  · show p.server.bindings.Bound b ↔ (l.bindings.foldl (fun m x =>
      m.bind x.exchange x.queue x.routingKey x.args) newServer.bindings).Bound b
    rw [bound_foldl_bind, l.bindings_perm.mem_iff, GoMap.mem_vals_iff, h.bindings b]
    constructor
    · exact fun hb => Or.inl ⟨_, hb⟩
    · rintro (⟨k, hk⟩ | hb)
      · have hkey : k = b.storeKey := h.storedKeys k b.meta hk
        rw [← hkey]
        exact hk
      · exact absurd hb (not_bound_newServer b)

theorem mirrored_empty : Mirrored empty where
  queueNames := nofun
  queues := fun _ => rfl
  exchangeNames := by
    intro n x hx
    have : ∀ e ∈ defaultExchanges.entries, e.2.name = e.1 := by decide +kernel
    exact this ⟨n, x⟩ (GoMap.mem_entries_iff.mpr hx)
  exchanges := by
    intro n hn
    show (defaultExchanges.get n).map Exchange.meta = none
    rw [get_defaultExchanges_of_not hn]
    rfl
  storedNames := nofun
  filed := ⟨fun _ _ hb => absurd hb not_mem_nil, fun _ _ hb => absurd hb not_mem_nil⟩
  bindings := fun _ => ⟨fun ⟨_, hb⟩ => absurd hb not_mem_nil, nofun⟩
  storedKeys := nofun

/-- In every run of which the store is told, a restart brings the metadata back. -/
theorem restartable_of_told (calls : List MetaCall)
    (h : Along step Told empty calls) :
    Restartable (calls.foldl step empty) :=
  (Along.inv (fun _ call hp ht => hp.step call ht) mirrored_empty h).restartable

/-! ## What a restart changes -/

def exclusiveGone : List MetaCall :=
  [.declareQueue default (str "q") false true false [] (some 7), .removeExclusive (some 7)]

/-- The restarted server has the queue again. -/
theorem exclusiveGone_restored :
    ((exclusiveGone.foldl step empty).server.queues.get (str "q")).isNone ∧
      ((restoreFromStore default
        ⟨newServer, (exclusiveGone.foldl step empty).store⟩
        (exclusiveGone.foldl step empty).store.listing).server.queues.get
          (str "q")).isSome ∧
      ¬ Restartable (exclusiveGone.foldl step empty) := by
  have hlive : ((exclusiveGone.foldl step empty).server.queues.get
      (str "q")).isNone := by decide +kernel
  have hback : ((restoreFromStore default
      ⟨newServer, (exclusiveGone.foldl step empty).store⟩
      (exclusiveGone.foldl step empty).store.listing).server.queues.get
        (str "q")).isSome := by decide +kernel
  refine ⟨hlive, hback, fun h => ?_⟩
  have hq := (h default (MemoryStore.listing _)).queues (str "q")
  rw [Option.isNone_iff_eq_none.mp hlive] at hq
  obtain ⟨x, hx⟩ := Option.isSome_iff_exists.mp hback
  rw [hx] at hq
  cases hq

/-- Two bindings of one queue to one exchange under one key share a place in the store. -/
example :
    ([MetaCall.bind (str "amq.headers") (str "q") [] [(str "a", .bool true)],
      .bind (str "amq.headers") (str "q") [] [(str "b", .bool true)]].foldl step
      empty).store.bindings.vals.length = 1 := by decide +kernel

def declareAndBind : List MetaCall :=
  [.declareQueue default (str "q") true false false [] none,
    .bind (str "amq.fanout") (str "q") [] []]

theorem declareAndBind_restartable :
    Restartable (declareAndBind.foldl step empty) :=
  restartable_of_told declareAndBind
    ⟨trivial, fun _ hb => absurd hb.choose_spec not_mem_nil, trivial⟩

end Gomq.Broker
