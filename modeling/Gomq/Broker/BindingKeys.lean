import Gomq.Broker.Metadata
import Gomq.Lib.KeyedMap
import Gomq.Lib.Run

/-!
# The keys of stored bindings

`MemoryStore` keeps a binding under its three names joined by bars, and names may have bars in them.
The store is a map from triples of names as long as no binding is saved or deleted whose key is that
of another one in the store (`loadBindings_exact_iff`), which names without bars never do
(`clear_of_noBar`).
-/

namespace Gomq.Broker

abbrev Triple := GoString × GoString × GoString

def Triple.key (t : Triple) : GoString := bindingKey t.1 t.2.1 t.2.2

def BindingMeta.triple (m : BindingMeta) : Triple := (m.exchange, m.queue, m.routingKey)

inductive BindingCall where
  | save (m : BindingMeta)
  | delete (exchange queue routingKey : GoString)

def BindingCall.triple : BindingCall → Triple
  | .save m => m.triple
  | .delete exchange queue routingKey => (exchange, queue, routingKey)

structure TripleStore where
  store : MemoryStore
  saved : GoMap Triple BindingMeta

namespace TripleStore

def empty : TripleStore := ⟨newMemoryStore, ∅⟩

def step (s : TripleStore) : BindingCall → TripleStore
  | .save m => ⟨s.store.saveBinding m, s.saved.set m.triple m⟩
  | .delete exchange queue routingKey =>
    ⟨s.store.deleteBinding exchange queue routingKey, s.saved.del (exchange, queue, routingKey)⟩

/-- `LoadBindings` returns what was saved, in whatever order it ranges over its map. -/
def Exact (s : TripleStore) : Prop := ∀ l : s.store.Listing, l.bindings.Perm s.saved.vals

def Clear (s : TripleStore) (c : BindingCall) : Prop := SoleKey Triple.key s.saved c.triple

def Mirrored (s : TripleStore) : Prop := Mirrors Triple.key id s.saved s.store.bindings

theorem exact_iff (s : TripleStore) : s.Exact ↔ s.store.bindings.vals.Perm s.saved.vals :=
  ⟨fun h => h s.store.listing, fun h l => l.bindings_perm.trans h⟩

theorem Mirrored.exact {s : TripleStore} (h : s.Mirrored) : s.Exact := by
  rw [exact_iff, GoMap.vals_eq_filterMap, GoMap.vals_eq_filterMap]
  simpa using h.filter_perm fun _ => true

theorem Exact.length_eq {s : TripleStore} (h : s.Exact) :
    (s.store.bindings.keys.filter fun _ => true).length =
      (s.saved.keys.filter ((fun _ => true) ∘ Triple.key)).length := by
  have hlen := ((exact_iff s).mp h).length_eq
  rw [GoMap.vals_eq_filterMap, GoMap.vals_eq_filterMap,
    GoMap.length_filterMap_get fun _ hk => hk, GoMap.length_filterMap_get fun _ hk => hk] at hlen
  simpa using hlen

theorem mirrored_step {s : TripleStore} {c : BindingCall} (h : s.Mirrored) (hc : s.Clear c) :
    (s.step c).Mirrored := by
  cases c with
  | save m => exact Mirrors.set h hc m
  | delete e q k => exact Mirrors.del h hc

theorem clear_of_exact {s : TripleStore} {c : BindingCall} (h : s.Mirrored)
    (hexact : (s.step c).Exact) : s.Clear c := by
  by_contra hc
  have hlen := hexact.length_eq
  cases c with
  | save m => exact (Mirrors.length_set_lt h hc (P := fun _ => true) rfl m m).ne hlen
  | delete e q k => exact (Mirrors.length_del_lt h hc (P := fun _ => true) rfl).ne hlen

/-- In every sequence of saves and deletes, `LoadBindings` returns after each call what a map keyed
by triples would, exactly if each call is clear. -/
theorem loadBindings_exact_iff (calls : List BindingCall) :
    Along step (fun s c => (s.step c).Exact) empty calls ↔ Along step Clear empty calls :=
  Along.iff_of_kept (I := Mirrored) (fun _ _ h hc => mirrored_step h hc)
    (fun _ _ h => ⟨clear_of_exact h, fun hc => (mirrored_step h hc).exact⟩) Mirrors.empty

/-! ## Names without bars -/

def NoBar (t : Triple) : Prop := 0x7c ∉ t.1 ∧ 0x7c ∉ t.2.1

theorem key_eq (t : Triple) : t.key = t.1 ++ 0x7c :: (t.2.1 ++ 0x7c :: t.2.2) := by
  obtain ⟨e, q, k⟩ := t
  unfold Triple.key bindingKey
  have hbar : str "|" = [0x7c] := by decide
  simp [hbar]

/-- The first bar ends the exchange, the second one the queue. -/
theorem key_inj {t t' : Triple} (ht : NoBar t) (ht' : NoBar t') (h : t.key = t'.key) : t = t' := by
  rw [key_eq, key_eq] at h
  obtain ⟨he, hrest⟩ := append_cons_inj ht.1 ht'.1 h
  obtain ⟨hq, hk⟩ := append_cons_inj ht.2 ht'.2 hrest
  exact Prod.ext he (Prod.ext hq hk)

theorem keys_step {s : TripleStore} (hs : ∀ t ∈ s.saved.keys, NoBar t) {c : BindingCall}
    (hc : NoBar c.triple) : ∀ t ∈ (s.step c).saved.keys, NoBar t := by
  cases c with
  | save m => exact GoMap.forall_mem_keys_set hs hc m
  | delete e q k => exact GoMap.forall_mem_keys_del hs (e, q, k)

theorem clear_of_noBar {s : TripleStore} (hs : ∀ t ∈ s.saved.keys, NoBar t)
    {calls : List BindingCall} (h : ∀ c ∈ calls, NoBar c.triple) : Along step Clear s calls := by
  refine Along.of_inv (I := fun s => ∀ t ∈ s.saved.keys, NoBar t) ?_ ?_ hs (Along.of_forall h s)
  · intro s c hs hc
    exact keys_step hs hc
  · intro s c hs hc t ht heq
    exact key_inj (hs t ht) hc heq

/-- With names without bars, `LoadBindings` returns after each call what was saved. -/
theorem loadBindings_of_noBar (calls : List BindingCall) (h : ∀ c ∈ calls, NoBar c.triple) :
    Along step (fun s c => (s.step c).Exact) empty calls :=
  Along.of_inv (I := Mirrored) (fun _ _ hs hc => mirrored_step hs hc)
    (fun _ _ hs hc => (mirrored_step hs hc).exact) Mirrors.empty
    (clear_of_noBar (fun _ ht => absurd ht List.not_mem_nil) h)

/-- The routing key may have bars in it. -/
theorem loadBindings_of_noBar_two :
    let calls :=
      [BindingCall.save ⟨str "a", str "c", str "x|y", []⟩, .delete (str "a") (str "c") []]
    (calls.foldl step empty).saved.keys = [(str "a", str "c", str "x|y")] ∧
      Along step (fun s c => (s.step c).Exact) empty calls :=
  ⟨by decide, loadBindings_of_noBar _ (by simp only [List.forall_mem_cons, NoBar]; decide)⟩

/-- Exchange `a|b` and queue `c`, then exchange `a` and queue `b|c`: one binding is left of two. -/
theorem loadBindings_collides :
    let s := [BindingCall.save ⟨str "a|b", str "c", [], []⟩,
      .save ⟨str "a", str "b|c", [], []⟩].foldl step empty
    s.store.bindings.vals.map BindingMeta.exchange = [str "a"] ∧
      s.saved.vals.map BindingMeta.exchange = [str "a", str "a|b"] ∧ ¬ s.Exact := by
  have hlen : ∀ s : TripleStore, s.store.bindings.vals.length ≠ s.saved.vals.length →
      ¬ s.Exact := fun s hne h => hne ((exact_iff s).mp h).length_eq
  exact ⟨by decide, by decide, hlen _ (by decide)⟩

end TripleStore

end Gomq.Broker
