import Gomq.Broker.Cascade

/-!
# Cycles of the exchange graph

`Exchange.Bind` looks for a cycle under the lock of the binding manager, lets go of it, and takes it
again to store the binding. `HasCycle` is exact (`hasCycle_iff`), so requests that are handled one
after the other never close a cycle (`acyclic_run`). With several connections another one can store
its binding between the two locks. `BindSystem` has the locked steps of all connections in any
order; the graph stays free of cycles exactly as long as each binding is stored in a state in which
the check would still pass (`neverCyclic_iff`).
-/

namespace Gomq.Broker

open Wire List

namespace E2EBindingManager

def targets (m : E2EBindingManager) (source : GoString) : List GoString :=
  (m.getBindings source).map E2EBinding.destination

def Acyclic (m : E2EBindingManager) : Prop := Dfs.Acyclic (Dfs.Edge m.targets)

/-! ## The search -/

theorem dfs_eq_search (m : E2EBindingManager) (source : GoString) (fuel : ℕ) :
    ∀ (node : GoString) (visited : List GoString),
      m.dfs source fuel node visited = Dfs.search m.targets source fuel node visited := by
  induction fuel with
  | zero => exact fun _ _ => rfl
  | succ fuel ih =>
    intro node visited
    unfold dfs Dfs.search targets
    simp only [ih, foldl_map]
    rfl

theorem targets_eq_nil {m : E2EBindingManager} {k : GoString} (h : k ∉ m.keys) :
    m.targets k = [] := by
  have hnone : GoMap.get m k = none := by
    by_contra hne
    exact h (GoMap.mem_keys_iff.mpr (Option.ne_none_iff_exists'.mp hne))
  simp [targets, getBindings, GoMap.getD_of_none hnone]

theorem hasCycle_iff (m : E2EBindingManager) (source destination : GoString) :
    m.hasCycle source destination = true ↔
      Relation.ReflTransGen (Dfs.Edge m.targets) destination source := by
  unfold hasCycle
  rw [dfs_eq_search]
  apply Dfs.search_iff (U := m.keys.toFinset)
  · intro k hk
    by_contra hmem
    exact hk (targets_eq_nil (by simpa using hmem))
  · have := toFinset_card_le m.keys
    omega

theorem searches_hasCycle (m : E2EBindingManager) (source destination : GoString) :
    ∃ vis, ∀ r, Dfs.Searches m.targets source [destination] [] r ↔
      r = (m.hasCycle source destination, vis) := by
  have hends : Dfs.Searches m.targets source [destination] []
      (m.dfs source (m.keys.length + 2) destination []) := by
    rw [dfs_eq_search]
    apply Dfs.searches_search (U := m.keys.toFinset)
    · intro k hk
      by_contra hmem
      exact hk (targets_eq_nil (by simpa using hmem))
    · have := toFinset_card_le m.keys
      simp only [toFinset_nil, Finset.sdiff_empty]
      omega
  refine ⟨(m.dfs source (m.keys.length + 2) destination []).2, fun r => ⟨fun h => ?_, ?_⟩⟩
  · exact h.unique hends
  · rintro rfl
    exact hends

/-! ## What the operations do to the graph -/

theorem mem_targets_bind {m : E2EBindingManager} {source destination key k : GoString}
    {args : Table} {e : GoString} :
    e ∈ (m.bind source destination key args).targets k ↔
      e ∈ m.targets k ∨ (k = source ∧ e = destination) := by
  unfold bind
  dsimp only
  split
  · -- a duplicate is not stored again
    rename_i hdup
    obtain ⟨b, hb, heq⟩ := any_eq_true.mp hdup
    simp only [Bool.and_eq_true, beq_iff_eq] at heq
    constructor
    · exact Or.inl
    · rintro (h | ⟨rfl, rfl⟩)
      · exact h
      · exact mem_map.mpr ⟨b, hb, heq.1⟩
  · unfold targets getBindings
    rw [GoMap.getD_set]
    by_cases hk : k = source
    · subst hk; simp
    · simp [hk]

theorem mem_targets_unbind {m : E2EBindingManager} {source destination key k e : GoString}
    (h : e ∈ (m.unbind source destination key).targets k) : e ∈ m.targets k := by
  unfold unbind at h
  dsimp only at h
  split at h
  · unfold targets getBindings at h ⊢
    rw [GoMap.getD_set] at h
    by_cases hk : k = source
    · subst hk
      rw [if_pos rfl] at h
      exact map_subset _ eraseP_subset h
    · rwa [if_neg hk] at h
  · exact h

theorem mem_targets_unbindAllForExchange {m : E2EBindingManager} {exchange k e : GoString}
    (h : e ∈ (m.unbindAllForExchange exchange).targets k) : e ∈ m.targets k := by
  unfold targets at h ⊢
  rw [getBindings_unbindAllForExchange] at h
  by_cases hk : k = exchange
  · simp [hk] at h
  · rw [if_neg hk] at h
    exact map_subset _ (filter_subset_self _) h

theorem acyclic_empty : Acyclic (∅ : GoMap GoString (List E2EBinding)) := by
  intro ex h
  obtain ⟨c, hc, -⟩ := Relation.TransGen.head'_iff.mp h
  exact absurd hc not_mem_nil

namespace Acyclic

variable {m : E2EBindingManager} (h : m.Acyclic)

include h

theorem bind_iff (source destination key : GoString) (args : Table) :
    (m.bind source destination key args).Acyclic ↔ m.hasCycle source destination = false := by
  rw [← Bool.not_eq_true, hasCycle_iff]
  exact Dfs.acyclic_addEdge_iff h fun a b => mem_targets_bind

theorem unbind (source destination key : GoString) :
    (m.unbind source destination key).Acyclic := h.mono fun _ _ => mem_targets_unbind

theorem unbindAllForExchange (exchange : GoString) : (m.unbindAllForExchange exchange).Acyclic :=
  h.mono fun _ _ => mem_targets_unbindAllForExchange

end Acyclic

/-- On every graph the search of `HasCycle` ends, with one outcome, and its answer is whether the
destination leads to the source, over no binding or more. On a graph without cycles this is whether
the new binding would close one. -/
theorem hasCycle_exact (m : E2EBindingManager) (source destination : GoString) :
    (∃ vis, ∀ r, Dfs.Searches m.targets source [destination] [] r ↔
      r = (m.hasCycle source destination, vis)) ∧
      (m.hasCycle source destination = true ↔
        Relation.ReflTransGen (Dfs.Edge m.targets) destination source) ∧
      (m.Acyclic → ∀ key args, (m.hasCycle source destination = true ↔
        ¬ (m.bind source destination key args).Acyclic)) := by
  refine ⟨m.searches_hasCycle source destination, m.hasCycle_iff source destination, ?_⟩
  intro h key args
  rw [h.bind_iff source destination key args, Bool.not_eq_false]

end E2EBindingManager

/-! ## One request after the other -/

theorem acyclic_configure (req : Request) (c : Config) (h : c.e2eBindings.Acyclic) :
    (req.configure c).e2eBindings.Acyclic := by
  cases req with
  | exchangeBind dst src key noWait args =>
    unfold Request.configure
    dsimp only
    split
    · exact h
    · rename_i hcycle
      exact (h.bind_iff src dst key args).mpr (Bool.eq_false_iff.mpr hcycle)
  | exchangeUnbind dst src key noWait => exact h.unbind src dst key
  | exchangeDelete e ifUnused noWait => exact h.unbindAllForExchange e
  | queueDeclare => unfold Request.configure; dsimp only; split <;> exact h
  | exchangeDeclare => unfold Request.configure; dsimp only; split <;> exact h
  | _ => exact h

theorem acyclic_run (conns : Heap Connection) (chans : Heap Channel) (acl : Option (List Rule))
    (evs : List ProtocolEvent) :
    (evs.foldl protocolStep (Server.fresh conns chans acl)).e2eBindings.Acyclic :=
  foldlRecOn (motive := fun s : Server => s.config.e2eBindings.Acyclic) evs protocolStep
    E2EBindingManager.acyclic_empty
    (fun _ h ev _ => config_inv (I := fun c => c.e2eBindings.Acyclic) acyclic_configure h ev)

/-! ## The locked steps of many connections -/

structure PendingBind where
  source : GoString
  destination : GoString
  routingKey : GoString
  args : Table

structure BindSystem where
  graph : E2EBindingManager
  pending : ConnRef → Option PendingBind

inductive BindAction where
  /-- `Exchange.Bind` up to the return of `HasCycle`. -/
  | check (c : ConnRef) (p : PendingBind)
  /-- The `Bind` of the request that passed the check. -/
  | bind (c : ConnRef)
  /-- The `Unbind` of `Exchange.Unbind`. -/
  | unbind (c : ConnRef) (source destination routingKey : GoString)
  /-- The `UnbindAllForExchange` of `Exchange.Delete`. -/
  | delete (c : ConnRef) (exchange : GoString)

/-- A connection handles one request at a time: with a binding pending it starts no other. -/
def bindStep (s : BindSystem) : BindAction → BindSystem
  | .check c p =>
    if (s.pending c).isSome || s.graph.hasCycle p.source p.destination then s
    else { s with pending := Function.update s.pending c (some p) }
  | .bind c =>
    match s.pending c with
    | none => s
    | some p =>
      { graph := s.graph.bind p.source p.destination p.routingKey p.args
        pending := Function.update s.pending c none }
  | .unbind c source destination routingKey =>
    if (s.pending c).isSome then s
    else { s with graph := s.graph.unbind source destination routingKey }
  | .delete c exchange =>
    if (s.pending c).isSome then s else { s with graph := s.graph.unbindAllForExchange exchange }

def BindSystem.idle (m : E2EBindingManager) : BindSystem := ⟨m, fun _ => none⟩

def Request.bindActions (c : ConnRef) : Request → List BindAction
  | .exchangeBind destination source key _ args =>
    [.check c ⟨source, destination, key, args⟩, .bind c]
  | .exchangeUnbind destination source key _ => [.unbind c source destination key]
  | .exchangeDelete exchange _ _ => [.delete c exchange]
  | _ => []

/-- A handler that nothing interrupts does what the steps of its request do. -/
theorem graph_bindActions (env : Env) (ch : ChanRef) (c : ConnRef) (req : Request) (s : Server) :
    (perform env ch req s).2.e2eBindings =
      ((req.bindActions c).foldl bindStep (.idle s.e2eBindings)).graph := by
  have hconf : (perform env ch req s).2.e2eBindings = (req.configure s.config).e2eBindings := by
    rw [← config_perform env ch req s]; rfl
  rw [hconf]
  cases req with
  | exchangeBind dst src key noWait args =>
    unfold Request.configure
    simp only [Request.bindActions, foldl_cons, foldl_nil, bindStep, BindSystem.idle,
      Option.isSome_none, Bool.false_or]
    by_cases hcycle : s.e2eBindings.hasCycle src dst = true
    · simp [hcycle, Server.config]
    · simp [hcycle, Server.config]
  | queueDeclare => unfold Request.configure; dsimp only; split <;> rfl
  | exchangeDeclare => unfold Request.configure; dsimp only; split <;> rfl
  | _ => rfl

/-- What is stored is stored while the check would still pass. -/
def ChecksHold (s : BindSystem) : BindAction → Prop
  | .bind c => ∀ p, s.pending c = some p → s.graph.hasCycle p.source p.destination = false
  | _ => True

theorem acyclic_bindStep_iff {s : BindSystem} (h : s.graph.Acyclic) (a : BindAction) :
    (bindStep s a).graph.Acyclic ↔ ChecksHold s a := by
  cases a with
  | check c p =>
    unfold bindStep
    dsimp only
    split <;> exact iff_of_true h True.intro
  | bind c =>
    unfold bindStep ChecksHold
    dsimp only
    cases hp : s.pending c with
    | none => simpa using h
    | some p => simpa using h.bind_iff p.source p.destination p.routingKey p.args
  | unbind c source destination key =>
    unfold bindStep
    dsimp only
    split
    · exact iff_of_true h True.intro
    · exact iff_of_true (h.unbind source destination key) True.intro
  | delete c exchange =>
    unfold bindStep
    dsimp only
    split
    · exact iff_of_true h True.intro
    · exact iff_of_true (h.unbindAllForExchange exchange) True.intro

/-- From no bindings on, the graph is free of cycles after every step exactly if each `Bind` comes
while the check of its request would still pass. -/
theorem neverCyclic_iff (as : List BindAction) :
    Along bindStep (fun s a => (bindStep s a).graph.Acyclic) (.idle ∅) as ↔
      Along bindStep ChecksHold (.idle ∅) as :=
  Along.iff_of_kept (I := fun s : BindSystem => s.graph.Acyclic)
    (fun _ a h hc => (acyclic_bindStep_iff h a).mpr hc) (fun _ a h => acyclic_bindStep_iff h a)
    E2EBindingManager.acyclic_empty

def crossedBinds : List BindAction :=
  [.check 0 ⟨str "a", str "b", [], []⟩, .check 1 ⟨str "b", str "a", [], []⟩, .bind 0, .bind 1]

theorem crossedBinds_cyclic :
    (crossedBinds.foldl bindStep (.idle ∅)).graph.targets (str "a") = [str "b"] ∧
      (crossedBinds.foldl bindStep (.idle ∅)).graph.targets (str "b") = [str "a"] ∧
      ¬ Along bindStep (fun s a => (bindStep s a).graph.Acyclic) (.idle ∅) crossedBinds := by
  have hab : (crossedBinds.foldl bindStep (.idle ∅)).graph.targets (str "a") = [str "b"] := by
    decide
  have hba : (crossedBinds.foldl bindStep (.idle ∅)).graph.targets (str "b") = [str "a"] := by
    decide
  refine ⟨hab, hba, fun h => ?_⟩
  have hlast : (crossedBinds.foldl bindStep (.idle ∅)).graph.Acyclic := h.2.2.2.1
  have hforth : Dfs.Edge (crossedBinds.foldl bindStep (.idle ∅)).graph.targets
      (str "a") (str "b") := by
    rw [Dfs.Edge, hab]
    simp
  have hback : Dfs.Edge (crossedBinds.foldl bindStep (.idle ∅)).graph.targets
      (str "b") (str "a") := by
    rw [Dfs.Edge, hba]
    simp
  exact hlast (str "a") (.tail (.single hforth) hback)

end Gomq.Broker
