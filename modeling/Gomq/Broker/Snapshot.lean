import Gomq.Broker.Reach
import Gomq.Broker.Restart

/-!
# Restoring from a snapshot

A snapshot lists exchanges, queues and bindings. It has no place for exchange-to-exchange bindings,
and a new server keeps its own built-in exchanges when it is restored. So a publish reaches the same
queues after the restore exactly if the named exchange selects by itself, with the router it is
restored with, what the walk over exchange-to-exchange bindings selects (`snapshotComplete_iff`).
-/

namespace Gomq.Broker

open Wire

/-! ## Capture and restore -/

/-- The part of a snapshot that routing depends on. The entries of a snapshot have the fields of the
stored metadata. -/
structure SnapshotData where
  version : GoString
  exchanges : List ExchangeMeta
  queues : List QueueMeta
  bindings : List BindingMeta

def snapshotVersion : GoString := str "1"

/-- `unsupported snapshot version %q (expected %q)` -/
structure VersionError where
  version : GoString
  expected : GoString

namespace Server

structure Lists (s : Server) where
  exchanges : List Exchange
  queues : List Queue
  bindings : List (List Binding)
  exchanges_perm : exchanges.Perm s.exchanges.vals
  queues_perm : queues.Perm s.queues.vals
  bindings_perm : bindings.Perm s.bindings.byExchange.vals

def lists (s : Server) : s.Lists :=
  ⟨s.exchanges.vals, s.queues.vals, s.bindings.byExchange.vals, .rfl, .rfl, .rfl⟩

/-- `capture`. Each binding is one record in the lists by exchange, so `ListAll` sees it once. -/
def capture (s : Server) (l : s.Lists) : SnapshotData where
  version := snapshotVersion
  exchanges := l.exchanges.map Exchange.meta
  queues := l.queues.map Queue.meta
  bindings := l.bindings.flatten.map Binding.meta

/-- `RestoreFromSnapshot` without a metadata store; a declare that fails is logged. -/
def restoreFromSnapshot (env : Env) (s : Server) (data : SnapshotData) :
    Option VersionError × Server :=
  if data.version ≠ snapshotVersion then (some ⟨data.version, snapshotVersion⟩, s)
  else
    let s := data.exchanges.foldl (fun s m =>
      (s.declareExchange m.name (restoredType m.type) m.durable m.autoDelete m.internal m.args).2) s
    let s := data.queues.foldl (fun s m =>
      (s.declareQueue env m.name m.durable m.exclusive m.autoDelete m.args).2) s
    let s := data.bindings.foldl (fun s m =>
      { s with bindings := s.bindings.bind m.exchange m.queue m.routingKey m.args }) s
    (none, s)

theorem restoreFromSnapshot_eq {env : Env} {s : Server} {data : SnapshotData}
    (h : data.version = snapshotVersion) :
    restoreFromSnapshot env s data =
      (none, s.restored data.queues data.exchanges data.bindings) := by
  unfold restoreFromSnapshot
  rw [if_neg (not_not.mpr h)]
  dsimp only
  rw [foldl_declareExchange, foldl_declareQueue, foldl_bind]
  rfl

end Server

/-! ## Names as keys -/

namespace Config

/-- The managers file exchanges and queues under their names, and bindings under both of theirs. -/
structure Indexed (cfg : Config) : Prop where
  exchanges : ∀ n x, cfg.exchanges.get n = some x → x.name = n
  queues : ∀ n q, cfg.queues.get n = some q → q.name = n
  bindings : cfg.bindings.Filed

theorem named_setNew {V : Type} {name : V → GoString} {m : GoMap GoString V}
    (h : ∀ n v, m.get n = some v → name v = n) {k : GoString} {w : V} (hw : name w = k) :
    ∀ n v, (m.setNew k w).get n = some v → name v = n := by
  intro n v hv
  rw [GoMap.get_setNew] at hv
  cases hm : m.get n with
  | some v' => rw [hm] at hv; exact h n v (hm.trans hv)
  | none =>
    rw [hm, Option.none_or] at hv
    by_cases hk : k = n
    · rw [if_pos hk] at hv
      rw [← Option.some.inj hv, hw, hk]
    · rw [if_neg hk] at hv
      cases hv

theorem named_del {V : Type} {name : V → GoString} {m : GoMap GoString V}
    (h : ∀ n v, m.get n = some v → name v = n) (k : GoString) :
    ∀ n v, (m.del k).get n = some v → name v = n := by
  intro n v hv
  rw [GoMap.get_del] at hv
  by_cases hk : n = k
  · rw [if_pos hk] at hv; cases hv
  · rw [if_neg hk] at hv; exact h n v hv

theorem Indexed.configure (req : Request) (cfg : Config) (h : cfg.Indexed) :
    (req.configure cfg).Indexed := by
  cases req with
  | queueDeclare q p d e a n args =>
    dsimp only [Request.configure]
    split
    · exact h
    · exact ⟨h.exchanges, named_setNew h.queues rfl, h.bindings⟩
  | queueBind q e key nw args => exact ⟨h.exchanges, h.queues, h.bindings.bind e q key args⟩
  | queueDelete q u e nw => exact ⟨h.exchanges, named_del h.queues q, h.bindings⟩
  | queueUnbind q e key args => exact ⟨h.exchanges, h.queues, h.bindings.unbind e q key⟩
  | exchangeDeclare e ty p d a i n args =>
    dsimp only [Request.configure]
    split
    · exact h
    · exact ⟨named_setNew h.exchanges rfl, h.queues, h.bindings⟩
  | exchangeDelete e u nw => exact ⟨named_del h.exchanges e, h.queues, h.bindings⟩
  | exchangeBind dst src key nw args =>
    dsimp only [Request.configure]
    split
    · exact h
    · exact ⟨h.exchanges, h.queues, h.bindings⟩
  | exchangeUnbind dst src key nw => exact ⟨h.exchanges, h.queues, h.bindings⟩
  | _ => exact h

theorem indexed_newServer : newServer.config.Indexed where
  exchanges := mirrored_empty.exchangeNames
  queues := mirrored_empty.queueNames
  bindings := mirrored_empty.filed

theorem indexed_run (evs : List ProtocolEvent) :
    (evs.foldl protocolStep newServer).config.Indexed :=
  List.foldlRecOn (motive := fun s : Server => s.config.Indexed) evs protocolStep
    indexed_newServer (fun _ h ev _ => config_inv Indexed.configure h ev)

end Config

/-! ## The restored configuration -/

section Restored

/-- The exchange that a restored server has under a name: a built-in one if there is one. -/
def Config.keptExchange (cfg : Config) (ex : GoString) : Option Exchange :=
  (defaultExchanges.get ex).or (cfg.exchanges.get ex)

variable {s : Server} (hs : s.config.Indexed) (env : Env) (l : s.Lists)

def Server.recovered (env : Env) (s : Server) (l : s.Lists) : Server :=
  (newServer.restoreFromSnapshot env (s.capture l)).2

theorem recovered_eq (env : Env) (l : s.Lists) :
    s.recovered env l = newServer.restored (l.queues.map Queue.meta)
      (l.exchanges.map Exchange.meta) (l.bindings.flatten.map Binding.meta) := by
  unfold Server.recovered
  rw [Server.restoreFromSnapshot_eq rfl]
  rfl

theorem bound_iff_mem_flatten (l : s.Lists) (b : Binding) :
    b ∈ l.bindings.flatten ↔ s.bindings.Bound b := by
  unfold BindingManager.Bound BindingManager.getBindings
  simp only [List.mem_flatten, l.bindings_perm.mem_iff, GoMap.mem_vals_iff]
  constructor
  · rintro ⟨bs, ⟨e, he⟩, hb⟩
    exact ⟨e, by rw [GoMap.getD, he]; exact hb⟩
  · rintro ⟨e, hb⟩
    cases he : s.bindings.byExchange.get e with
    | none => rw [GoMap.getD, he] at hb; exact absurd hb List.not_mem_nil
    | some bs => rw [GoMap.getD, he] at hb; exact ⟨bs, ⟨e, he⟩, hb⟩

theorem Config.deliveries_of_empty {cfg : Config} (h : cfg.e2eBindings = ∅) (headers : Table)
    (ex key : GoString) : cfg.deliveries headers ex key = cfg.routeAt headers (ex, key) := by
  have hnone : E2EBindingManager.getBindings cfg.e2eBindings ex = [] := by rw [h]; rfl
  unfold Config.deliveries Config.visits
  cases hx : cfg.exchanges.get ex with
  | none =>
    rw [Dfs.visits_missing List.not_mem_nil (Config.links_of_none hx), Config.routeAt, hx]
    rfl
  | some x =>
    rw [Config.visits_of_some List.not_mem_nil hx, hnone, List.flatMap_cons]
    exact List.append_nil _

include hs

theorem queues_recovered (q : GoString) :
    ((s.recovered env l).config.queues.get q).isSome = (s.config.queues.get q).isSome := by
  have hget : (s.recovered env l).config.queues.get q =
      ((l.queues.map Queue.meta).find? fun m => m.name = q).map QueueMeta.toQueue := by
    rw [recovered_eq]
    exact (GoMap.get_foldl_setNew QueueMeta.name QueueMeta.toQueue _ _ q).trans (Option.none_or)
  have hfind : (l.queues.find? fun x => x.name = q) = s.queues.get q :=
    GoMap.find?_vals hs.queues l.queues_perm q
  rw [hget, List.find?_map, Option.map_map, Option.isSome_map]
  exact congrArg Option.isSome hfind

theorem exchanges_recovered (ex : GoString) :
    (s.recovered env l).config.exchanges.get ex = s.config.keptExchange ex := by
  have hget : (s.recovered env l).config.exchanges.get ex = (defaultExchanges.get ex).or
      (((l.exchanges.map Exchange.meta).find? fun m => m.name = ex).map
        ExchangeMeta.toExchange) := by
    rw [recovered_eq]
    exact GoMap.get_foldl_setNew ExchangeMeta.name ExchangeMeta.toExchange _ _ ex
  have hfind : (l.exchanges.find? fun x => x.name = ex) = s.exchanges.get ex :=
    GoMap.find?_vals hs.exchanges l.exchanges_perm ex
  have hround : ExchangeMeta.toExchange ∘ Exchange.meta = id := by
    funext x
    exact x.toExchange_meta
  rw [hget, List.find?_map, Option.map_map, hround, Option.map_id]
  exact congrArg (Option.or _) hfind

theorem bindings_recovered (b : Binding) (e : GoString) :
    b ∈ (s.recovered env l).config.bindings.getBindings e ↔
      b ∈ s.config.bindings.getBindings e := by
  rw [recovered_eq, hs.bindings.mem_getBindings_iff]
  refine (mem_getBindings_foldl_bind _ b e).trans ?_
  rw [List.mem_map_of_injective Binding.meta_injective, bound_iff_mem_flatten]
  rfl

theorem deliveries_recovered (headers : Table) (ex key q : GoString) :
    q ∈ (s.recovered env l).config.deliveries headers ex key ↔
      ∃ x, s.config.keptExchange ex = some x ∧
        q ∈ x.route key headers (s.config.bindings.getBindings ex) := by
  have hnone : (s.recovered env l).config.e2eBindings = ∅ := by rw [recovered_eq]; rfl
  have hroute : ∀ x : Exchange,
      q ∈ x.route key headers ((s.recovered env l).config.bindings.getBindings ex) ↔
        q ∈ x.route key headers (s.config.bindings.getBindings ex) := by
    intro x
    simp only [Exchange.route, mem_collect, bindings_recovered hs]
  rw [Config.deliveries_of_empty hnone, Config.mem_routeAt_iff, exchanges_recovered hs]
  simp only [hroute]

end Restored

/-! ## When the restore is complete -/

/-- Every existing queue that the walk over exchange-to-exchange bindings selects is selected by the
exchange itself, with the router it is restored with, and no other. -/
def Config.StandsAlone (cfg : Config) (headers : Table) (ex key : GoString) : Prop :=
  ∀ q, (cfg.queues.get q).isSome →
    ((∃ v ∈ cfg.visits ex key, q ∈ cfg.routeAt headers v) ↔
      ∃ x, cfg.keptExchange ex = some x ∧
        q ∈ x.route key headers (cfg.bindings.getBindings ex))

/-- After a restore from a snapshot a publish reaches the same queues exactly if the exchange stands
alone. -/
theorem snapshotComplete_iff (env : Env) (s : Server) (hs : s.config.Indexed) (l : s.Lists)
    (headers : Table) (ex key : GoString) :
    (∀ q, s.config.Reaches headers ex key q ↔
      (s.recovered env l).config.Reaches headers ex key q) ↔
      s.config.StandsAlone headers ex key := by
  simp only [Config.reaches_iff, queues_recovered hs, deliveries_recovered hs,
    Config.mem_deliveries, Config.StandsAlone, and_congr_right_iff]

/-! ## A forwarded message -/

def forwarding : Server :=
  [ProtocolEvent.request default 0 (.queueDeclare (str "q") false false false false true []),
    .request default 0 (.exchangeDeclare (str "a") (str "fanout") false false false false true []),
    .request default 0 (.exchangeDeclare (str "b") (str "fanout") false false false false true []),
    .request default 0 (.queueBind (str "q") (str "b") [] true []),
    .request default 0 (.exchangeBind (str "b") (str "a") [] true [])].foldl protocolStep newServer

/-- After the restore, a message that goes to `a` is in no queue. -/
theorem forwarding_notRestored :
    forwarding.config.Indexed ∧
      (forwarding.publish default (str "a") [] 0 0).2.ready (str "q") = [0] ∧
      ((forwarding.recovered default forwarding.lists).publish default (str "a") [] 0 0).2.ready
        (str "q") = [] ∧
      ¬ ∀ q, forwarding.config.Reaches [] (str "a") [] q ↔
        (forwarding.recovered default forwarding.lists).config.Reaches [] (str "a") [] q := by
  have hlost : ((forwarding.recovered default forwarding.lists).publish default (str "a") [] 0
      0).2.ready (str "q") = [] := by decide +kernel
  refine ⟨Config.indexed_run _, by decide +kernel, hlost, fun hsame => ?_⟩
  have hreach : forwarding.config.Reaches [] (str "a") [] (str "q") :=
    (Config.reaches_iff ..).mpr ⟨by decide +kernel, by decide +kernel⟩
  have hmem := ((hsame (str "q")).mp hreach).2 default 0
    (forwarding.recovered default forwarding.lists) 0 rfl rfl rfl
  rw [hlost] at hmem
  exact absurd hmem List.not_mem_nil

/-- A message that goes to `b` reaches the same queues. -/
theorem forwarding_restored :
    forwarding.config.Indexed ∧ ∀ q, forwarding.config.Reaches [] (str "b") [] q ↔
      (forwarding.recovered default forwarding.lists).config.Reaches [] (str "b") [] q := by
  refine ⟨Config.indexed_run _, (snapshotComplete_iff default forwarding (Config.indexed_run _)
    forwarding.lists [] (str "b") []).mpr fun q _ => ?_⟩
  have hvisits : forwarding.config.visits (str "b") [] = [(str "b", [])] := by decide +kernel
  have hkept : forwarding.config.keptExchange (str "b") =
      forwarding.config.exchanges.get (str "b") := rfl
  rw [hvisits, hkept, ← Config.mem_routeAt_iff]
  simp

end Gomq.Broker
