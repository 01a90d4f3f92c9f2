import Mathlib.Algebra.Order.Ring.Rat
import Mathlib.Data.Rat.Floor
import Gomq.Lib.Bytes

/-!
# The configuration of the server

The sections of a configuration file, and which differences between two configurations need a
restart. The two floating-point settings are only compared with zero and converted from and to
integers, so their type is a parameter.
-/

namespace Gomq.Reload

/-- What is done with a floating-point number. -/
class GoFloat (F : Type) where
  /-- `x > 0` -/
  pos : F → Bool
  /-- `int(x)` -/
  toInt : F → ℤ
  /-- `float64(n)` -/
  ofInt : ℤ → F

/-- Numbers without rounding. -/
instance : GoFloat ℚ where
  pos x := decide (0 < x)
  toInt x := if 0 ≤ x then ⌊x⌋ else ⌈x⌉
  ofInt n := n

structure Network where
  listeners : List GoString
  heartbeat : ℤ
  frameMax : ℤ
  channelMax : ℤ

structure TLS where
  enabled : Bool
  certFile : GoString
  keyFile : GoString
  caFile : GoString
  verifyClient : Bool
  cipherSuites : List GoString

structure Log where
  level : GoString
  output : GoString

structure Cluster where
  nodeID : GoString
  discovery : GoString
  nodes : List GoString
  etcdEndpoints : List GoString

structure Web where
  enabled : Bool
  listen : GoString
  pathPrefix : GoString
  username : GoString
  password : GoString

structure Metrics where
  enabled : Bool
  listen : GoString

structure Management where
  healthEnabled : Bool
  pprofEnabled : Bool
  bindAddress : GoString

structure Memory where
  compressionThreshold : ℤ
  maxInMemoryMessages : ℤ
  pageDir : GoString

structure Limits (F : Type) where
  maxConnectionsPerSecond : F
  memoryThresholdPercent : F
  backPressureEnabled : Bool

structure Snapshot where
  enabled : Bool
  interval : ℤ
  retainCount : ℤ
  outputDir : GoString

structure Audit where
  enabled : Bool
  maxEvents : ℤ
  traceEnabled : Bool
  traceMaxEvents : ℤ

structure ACLRule where
  user : GoString
  vhost : GoString
  resourceType : GoString
  resourceName : GoString
  permission : GoString
  allow : Bool

structure ACL where
  rules : List ACLRule

structure Config (F : Type) where
  network : Network
  log : Log
  cluster : Cluster
  web : Web
  audit : Audit
  acl : ACL
  tls : TLS
  metrics : Metrics
  management : Management
  memory : Memory
  limits : Limits F
  snapshot : Snapshot

def defaultConfig {F : Type} [GoFloat F] : Config F where
  network := ⟨[str "0.0.0.0:5672"], 60, 131072, 2048⟩
  log := ⟨str "info", str "stdout"⟩
  cluster := ⟨str "node-1", str "static", [], []⟩
  web := ⟨true, str "0.0.0.0:15672", str "/", str "admin", str "admin"⟩
  audit := ⟨false, 10000, false, 10000⟩
  acl := ⟨[]⟩
  tls := ⟨false, [], [], [], false, []⟩
  metrics := ⟨false, []⟩
  management := ⟨true, false, []⟩
  memory := ⟨0, 0, str "/var/lib/gomq/pages"⟩
  limits := ⟨GoFloat.ofInt 0, GoFloat.ofInt 0, false⟩
  snapshot := ⟨false, 3600, 5, str "/var/lib/gomq/snapshots"⟩

/-! ## What a reload can change -/

section

variable {F : Type} (oldCfg newCfg : Config F)

/-- The keys that are compared, in order, and whether their values differ. -/
def comparedKeys : List (GoString × Bool) :=
  [(str "network.listeners", oldCfg.network.listeners ≠ newCfg.network.listeners),
    (str "network.heartbeat", oldCfg.network.heartbeat ≠ newCfg.network.heartbeat),
    (str "network.frame_max", oldCfg.network.frameMax ≠ newCfg.network.frameMax),
    (str "network.channel_max", oldCfg.network.channelMax ≠ newCfg.network.channelMax),
    (str "cluster.node_id", oldCfg.cluster.nodeID ≠ newCfg.cluster.nodeID),
    (str "cluster.discovery", oldCfg.cluster.discovery ≠ newCfg.cluster.discovery),
    (str "cluster.nodes", oldCfg.cluster.nodes ≠ newCfg.cluster.nodes),
    (str "cluster.etcd_endpoints", oldCfg.cluster.etcdEndpoints ≠ newCfg.cluster.etcdEndpoints),
    (str "web.enabled", oldCfg.web.enabled ≠ newCfg.web.enabled),
    (str "web.listen", oldCfg.web.listen ≠ newCfg.web.listen),
    (str "web.path_prefix", oldCfg.web.pathPrefix ≠ newCfg.web.pathPrefix),
    (str "metrics.enabled", oldCfg.metrics.enabled ≠ newCfg.metrics.enabled),
    (str "metrics.listen", oldCfg.metrics.listen ≠ newCfg.metrics.listen)]

/-- `IsReloadable`: whether all differences can be applied, and the keys that cannot. -/
def isReloadable : Bool × List GoString :=
  let ignored := ((comparedKeys oldCfg newCfg).filter Prod.snd).map Prod.fst
  (ignored.length == 0, ignored)

end

end Gomq.Reload
