import Gomq.Broker.BindingIndex
import Gomq.Broker.Snapshot

/-!
# Restoring twice

Declaring a queue, an exchange or a virtual host that exists changes nothing, so a second restore
from the same snapshot leaves them as they are. `Bind` appends without looking, so that each further
restore adds another copy of every binding, and `Unbind` takes away one copy only
(`restore_twice_iff`).
-/

namespace Gomq.Broker

open Wire List

/-! ## Virtual hosts -/

structure VHost where
  name : GoString
  description : GoString
  createdAt : ℕ

abbrev VHostManager := GoMap GoString VHost

def VHostManager.create (env : Env) (m : VHostManager) (name description : GoString) :
    Option VHost × VHostManager :=
  if name = [] ∨ name = str "/" then (none, m)
  else
    match GoMap.get m name with
    | some _ => (none, m)
    | none =>
      let vh : VHost := ⟨name, description, env.now⟩
      (some vh, GoMap.set m name vh)

structure VHostSnap where
  name : GoString
  description : GoString

namespace VHostSnap

/-- `Create` refuses the empty name and that of the default host. -/
def allowed (vh : VHostSnap) : Bool := vh.name != [] && vh.name != str "/"

def toVHost (env : Env) (vh : VHostSnap) : VHost := ⟨vh.name, vh.description, env.now⟩

end VHostSnap

structure HostsSnapshot extends SnapshotData where
  vhosts : List VHostSnap

structure HostedServer where
  server : Server
  vhosts : VHostManager

namespace HostedServer

/-- The default host is skipped. -/
def restoreVHost (env : Env) (m : VHostManager) (vh : VHostSnap) : VHostManager :=
  if vh.name = str "/" then m else (VHostManager.create env m vh.name vh.description).2

def restoreFromSnapshot (env : Env) (s : HostedServer) (data : HostsSnapshot) :
    Option VersionError × HostedServer :=
  match s.server.restoreFromSnapshot env data.toSnapshotData with
  | (some e, server) => (some e, ⟨server, s.vhosts⟩)
  | (none, server) => (none, ⟨server, data.vhosts.foldl (restoreVHost env) s.vhosts⟩)

def restored (env : Env) (s : HostedServer) (data : HostsSnapshot) : HostedServer :=
  (s.restoreFromSnapshot env data).2

structure SameNames (s s' : HostedServer) : Prop where
  queues : ∀ n, s.server.queues.get n = s'.server.queues.get n
  exchanges : ∀ n, s.server.exchanges.get n = s'.server.exchanges.get n
  vhosts : ∀ n, GoMap.get s.vhosts n = GoMap.get s'.vhosts n

structure Same (s s' : HostedServer) : Prop extends SameNames s s' where
  byExchange : ∀ e, (s.server.bindings.getBindings e).Perm (s'.server.bindings.getBindings e)
  byQueue : ∀ q,
    (s.server.bindings.getBindingsForQueue q).Perm (s'.server.bindings.getBindingsForQueue q)

/-- One `Unbind` leaves no binding with the names and the key of this one. -/
def UnbindRemoves (s : HostedServer) (m : BindingMeta) : Prop :=
  ∀ b ∈ (s.server.bindings.unbind m.exchange m.queue m.routingKey).getBindings m.exchange,
    ¬ (b.queueName = m.queue ∧ b.routingKey = m.routingKey)

end HostedServer

/-! ## What a restore adds -/

namespace BindingManager

theorem getD_foldl_file (l : List BindingMeta) (name : BindingMeta → GoString)
    (idx : GoMap GoString (List Binding)) (x : GoString) :
    (l.foldl (fun idx m => idx.set (name m) (idx.getD (name m) [] ++ [m.toBinding])) idx).getD x
        [] = idx.getD x [] ++ (l.filter fun m => name m == x).map BindingMeta.toBinding := by
  induction l generalizing idx with
  | nil => exact (append_nil _).symm
  | cons m l ih =>
    rw [foldl_cons, ih, GoMap.getD_set]
    by_cases hx : x = name m
    · rw [if_pos hx, filter_cons_of_pos (by simp [hx]), map_cons, hx, append_assoc]
      rfl
    · rw [if_neg hx, filter_cons_of_neg (by simpa using Ne.symm hx)]

variable (l : List BindingMeta) (m : BindingManager)

theorem getBindings_foldl_bind (e : GoString) :
    (l.foldl (fun m x => m.bind x.exchange x.queue x.routingKey x.args) m).getBindings e =
      m.getBindings e ++ (l.filter fun x => x.exchange == e).map BindingMeta.toBinding := by
  refine Eq.trans ?_ (getD_foldl_file l BindingMeta.exchange m.byExchange e)
  exact congrArg (GoMap.getD · e []) (foldl_hom byExchange fun _ _ => rfl).symm

theorem getBindingsForQueue_foldl_bind (q : GoString) :
    (l.foldl (fun m x => m.bind x.exchange x.queue x.routingKey x.args) m).getBindingsForQueue q =
      m.getBindingsForQueue q ++ (l.filter fun x => x.queue == q).map BindingMeta.toBinding := by
  refine Eq.trans ?_ (getD_foldl_file l BindingMeta.queue m.byQueue q)
  exact congrArg (GoMap.getD · q []) (foldl_hom byQueue fun _ _ => rfl).symm

end BindingManager

namespace HostedServer

section Restored

variable {env : Env} {s : HostedServer} {data : HostsSnapshot}

theorem server_restored (h : data.version = snapshotVersion) :
    (s.restored env data).server = s.server.restored data.queues data.exchanges data.bindings := by
  unfold restored restoreFromSnapshot
  rw [Server.restoreFromSnapshot_eq h]

theorem vhosts_restored (h : data.version = snapshotVersion) :
    (s.restored env data).vhosts = data.vhosts.foldl (restoreVHost env) s.vhosts := by
  unfold restored restoreFromSnapshot
  rw [Server.restoreFromSnapshot_eq h]

theorem restoreVHost_eq (env : Env) (m : VHostManager) (vh : VHostSnap) :
    restoreVHost env m vh =
      if vh.allowed then GoMap.setNew m vh.name (vh.toVHost env) else m := by
  unfold restoreVHost VHostManager.create VHostSnap.allowed GoMap.setNew
  by_cases hroot : vh.name = str "/"
  · simp [hroot]
  · by_cases hempty : vh.name = []
    · simp [hempty]
    · cases GoMap.get m vh.name <;> simp [hroot, hempty, VHostSnap.toVHost]

theorem get_vhosts_restored (h : data.version = snapshotVersion) (n : GoString) :
    GoMap.get (s.restored env data).vhosts n =
      (GoMap.get s.vhosts n).or
        (((data.vhosts.filter VHostSnap.allowed).find? fun vh => vh.name = n).map
          (VHostSnap.toVHost env)) := by
  rw [vhosts_restored h, ← GoMap.get_foldl_setNew, foldl_filter]
  congr 2
  funext m vh
  exact restoreVHost_eq env m vh

theorem get_queues_restored (h : data.version = snapshotVersion) (n : GoString) :
    (s.restored env data).server.queues.get n =
      (s.server.queues.get n).or
        ((data.queues.find? fun m => m.name = n).map QueueMeta.toQueue) := by
  rw [server_restored h]
  exact GoMap.get_foldl_setNew QueueMeta.name QueueMeta.toQueue _ _ n

theorem get_exchanges_restored (h : data.version = snapshotVersion) (n : GoString) :
    (s.restored env data).server.exchanges.get n =
      (s.server.exchanges.get n).or
        ((data.exchanges.find? fun m => m.name = n).map ExchangeMeta.toExchange) := by
  rw [server_restored h]
  exact GoMap.get_foldl_setNew ExchangeMeta.name ExchangeMeta.toExchange _ _ n

theorem getBindings_restored (h : data.version = snapshotVersion) (e : GoString) :
    (s.restored env data).server.bindings.getBindings e =
      s.server.bindings.getBindings e ++
        (data.bindings.filter fun m => m.exchange == e).map BindingMeta.toBinding := by
  rw [server_restored h]
  exact BindingManager.getBindings_foldl_bind data.bindings _ e

theorem getBindingsForQueue_restored (h : data.version = snapshotVersion) (q : GoString) :
    (s.restored env data).server.bindings.getBindingsForQueue q =
      s.server.bindings.getBindingsForQueue q ++
        (data.bindings.filter fun m => m.queue == q).map BindingMeta.toBinding := by
  rw [server_restored h]
  exact BindingManager.getBindingsForQueue_foldl_bind data.bindings _ q

end Restored

/-! ## The second restore -/

section Twice

variable (env env' : Env) (s : HostedServer) {data : HostsSnapshot}
  (h : data.version = snapshotVersion)
include h

theorem sameNames_restored_twice :
    ((s.restored env data).restored env' data).SameNames (s.restored env data) where
  queues n := by
    rw [get_queues_restored h, get_queues_restored h, Option.or_assoc, Option.or_self]
  exchanges n := by
    rw [get_exchanges_restored h, get_exchanges_restored h, Option.or_assoc, Option.or_self]
  vhosts n := by
    rw [get_vhosts_restored h, get_vhosts_restored h, Option.or_assoc]
    cases (data.vhosts.filter VHostSnap.allowed).find? fun vh => vh.name = n <;> rfl

theorem same_restored_twice_iff :
    ((s.restored env data).restored env' data).Same (s.restored env data) ↔
      data.bindings = [] := by
  constructor
  · intro hsame
    by_contra hne
    obtain ⟨m, l, hl⟩ := exists_cons_of_ne_nil hne
    have hlen := (hsame.byExchange m.exchange).length_eq
    rw [getBindings_restored h, length_append, length_map, hl,
      filter_cons_of_pos (by simp), length_cons] at hlen
    omega
  · intro hnil
    refine ⟨sameNames_restored_twice env env' s h, fun e => ?_, fun q => ?_⟩
    · rw [getBindings_restored h, hnil]
      simp
    · rw [getBindingsForQueue_restored h, hnil]
      simp

theorem not_unbindRemoves {m : BindingMeta} (hm : m ∈ data.bindings) :
    ¬ ((s.restored env data).restored env' data).UnbindRemoves m := by
  intro hremoves
  have hmem : m.toBinding ∈
      (data.bindings.filter fun x => x.exchange == m.exchange).map BindingMeta.toBinding :=
    mem_map.mpr ⟨m, mem_filter.mpr ⟨hm, by simp⟩, rfl⟩
  refine hremoves m.toBinding ?_ ⟨rfl, rfl⟩
  rw [BindingManager.getBindings_unbind, if_pos rfl, getBindings_restored h]
  -- the copy that is erased is one of the first restore
  have hfirst : m.toBinding ∈ (s.restored env data).server.bindings.getBindings m.exchange := by
    rw [getBindings_restored h]
    exact mem_append_right _ hmem
  rw [eraseP_append_left (a := m.toBinding) (by simp [BindingMeta.toBinding]) _ hfirst]
  exact mem_append_right _ hmem

end Twice

/-- For every server and every snapshot of the current version, a second restore leaves queues,
exchanges, virtual hosts and bindings as the first one did, exactly if the snapshot has no binding;
and only then does one `Unbind` remove each restored binding. -/
theorem restore_twice_iff (env env' : Env) (s : HostedServer) (data : HostsSnapshot)
    (h : data.version = snapshotVersion) :
    (((s.restored env data).restored env' data).Same (s.restored env data) ↔
        data.bindings = []) ∧
      ((∀ m ∈ data.bindings, ((s.restored env data).restored env' data).UnbindRemoves m) ↔
        data.bindings = []) := by
  refine ⟨same_restored_twice_iff env env' s h, fun hall => ?_, fun hnil m hm => ?_⟩
  · refine eq_nil_iff_forall_not_mem.mpr fun m hm => ?_
    exact not_unbindRemoves env env' s h hm (hall m hm)
  · rw [hnil] at hm
    exact absurd hm not_mem_nil

def snapshotWith (bindings : List BindingMeta) : HostsSnapshot where
  version := snapshotVersion
  exchanges := []
  queues := [⟨str "q", true, false, false, []⟩]
  bindings := bindings
  vhosts := [⟨str "dev", []⟩]

theorem restore_twice_noBinding :
    (snapshotWith []).version = snapshotVersion ∧
      ((restored default ⟨newServer, ∅⟩ (snapshotWith [])).restored default (snapshotWith [])).Same
        (restored default ⟨newServer, ∅⟩ (snapshotWith [])) :=
  ⟨rfl, (restore_twice_iff default default ⟨newServer, ∅⟩ (snapshotWith []) rfl).1.mpr rfl⟩

/-- One binding is there twice after the second restore, and once after an `Unbind`. -/
theorem restore_twice_doubles :
    let data := snapshotWith [⟨str "ex", str "q", str "k", []⟩]
    let once := restored default ⟨newServer, ∅⟩ data
    let twice := once.restored default data
    (once.server.bindings.getBindings (str "ex")).length = 1 ∧
      (twice.server.bindings.getBindings (str "ex")).length = 2 ∧
      ((twice.server.bindings.unbind (str "ex") (str "q") (str "k")).getBindings
        (str "ex")).length = 1 := by
  decide

end HostedServer

end Gomq.Broker
