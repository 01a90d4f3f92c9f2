import Gomq.Broker.Restart
import Gomq.Broker.Visits

/-!
# The metadata store in etcd

`EtcdStore` keeps each binding as a JSON document under a path that ends in its three names, and
loads what is stored under keys that start with the path of the bindings. Neither etcd nor
`encoding/json` is part of the broker: etcd is a map from keys to documents that can be read by the
start of the key, and `Json` says of the encoding what its documentation says about strings,
booleans and integers.
-/

namespace Gomq

open Wire

/-! ## Values in JSON -/

namespace Wire.Value

def asInteger : Value → Option ℤ
  | int v => some v.toInt
  | int8 v => some v.toInt
  | int16 v => some v.toInt
  | int32 v => some v.toInt
  | int64 v => some v.toInt
  | uint v => some v.toNat
  | uint8 v => some v.toNat
  | uint16 v => some v.toNat
  | uint32 v => some v.toNat
  | uint64 v => some v.toNat
  | _ => none

def basic : Value → Bool
  | string _ => true
  | bool _ => true
  | v => v.asInteger.isSome

def Storable (Text : GoString → Prop) : Value → Prop
  | string s => Text s
  | bool _ => True
  | v => ∃ n, v.asInteger = some n ∧ n.natAbs < 2 ^ 53

/-- What a string, a boolean or an integer is decoded to: every number is a `float64`. -/
def throughJson (v : Value) : Value :=
  match v.asInteger with
  | some n => float64 n
  | none => v

end Wire.Value

namespace Broker

structure BindingMeta.Storable (Text : GoString → Prop) (m : BindingMeta) : Prop where
  exchange : Text m.exchange
  queue : Text m.queue
  routingKey : Text m.routingKey
  args : ∀ kv ∈ m.args, Text kv.1 ∧ kv.2.Storable Text

def BindingMeta.throughJson (m : BindingMeta) : BindingMeta :=
  { m with args := m.args.map fun kv => (kv.1, kv.2.throughJson) }

/-- `encoding/json` for bindings. `Text` are the strings that it gives back as they are, those in
UTF-8; nothing is said about values that are not strings, booleans or small integers. -/
structure Json where
  Doc : Type
  Text : GoString → Prop
  marshal : BindingMeta → Option Doc
  unmarshal : Doc → Option BindingMeta
  unmarshal_marshal : ∀ m : BindingMeta, m.Storable Text →
    ∃ d, marshal m = some d ∧ unmarshal d = some m.throughJson

/-! ## Paths -/

/-- One element in `path.Clean`, with the elements so far, the last one first. -/
def cleanElement (rooted : Bool) (out : List GoString) (element : GoString) : List GoString :=
  if element = [] ∨ element = str "." then out
  else if element = str ".." then
    match out with
    | [] => if rooted then [] else [element]
    | top :: rest => if top = str ".." then element :: out else rest
  else element :: out

def pathClean (path : GoString) : GoString :=
  let rooted := path.head? == some 0x2f
  let body := [0x2f].intercalate ((path.splitOn 0x2f).foldl (cleanElement rooted) []).reverse
  if rooted then 0x2f :: body else if body = [] then str "." else body

def pathJoin (elements : List GoString) : GoString :=
  let elements := elements.filter (· ≠ [])
  if elements = [] then [] else pathClean ([0x2f].intercalate elements)

example : pathJoin [str "/gomq", str "bindings", str "e|q|a/../b"] = str "/gomq/bindings/b" := by
  decide

/-! ## The store -/

/-- `EtcdStore`; `root` is its prefix, `kvs` what etcd holds. -/
structure EtcdStore (json : Json) where
  root : GoString
  kvs : GoMap GoString json.Doc

def bindingsPath (root : GoString) : GoString := pathJoin [root, str "bindings"]

def bindingPath (root : GoString) (m : BindingMeta) : GoString :=
  pathJoin [root, str "bindings", bindingKey m.exchange m.queue m.routingKey]

namespace EtcdStore

variable {json : Json}

/-- `SaveBinding`; a binding that cannot be encoded is not stored. -/
def saveBinding (st : EtcdStore json) (m : BindingMeta) : EtcdStore json :=
  match json.marshal m with
  | none => st
  | some d => { st with kvs := st.kvs.set (bindingPath st.root m) d }

/-- What etcd answers to a read of all keys that start with the path of the bindings, in any
order. -/
structure Reading (st : EtcdStore json) where
  docs : List json.Doc
  perm : docs.Perm ((st.kvs.keys.filter fun k => (bindingsPath st.root).isPrefixOf k).filterMap
    st.kvs.get)

def reading (st : EtcdStore json) : st.Reading := ⟨_, .rfl⟩

/-- `LoadBindings`; it fails if a document cannot be decoded. -/
def loadBindings (st : EtcdStore json) (r : st.Reading) : Option (List BindingMeta) :=
  r.docs.mapM json.unmarshal

end EtcdStore

theorem mapM_eq_filterMap {α β : Type} {f : α → Option β} {l : List α}
    (h : ∀ a ∈ l, (f a).isSome) : l.mapM f = some (l.filterMap f) := by
  induction l with
  | nil => rfl
  | cons a l ih =>
    obtain ⟨b, hb⟩ := Option.isSome_iff_exists.mp (h a List.mem_cons_self)
    have htail := ih fun x hx => h x (List.mem_cons_of_mem a hx)
    simp [List.mapM_cons, hb, htail]

/-! ## A server with an etcd store -/

structure EtcdServer (json : Json) where
  server : Server
  store : EtcdStore json

inductive RestoreError where
  /-- `load bindings: %w` -/
  | loadBindings

namespace EtcdServer

variable {json : Json}

def bind (p : EtcdServer json) (m : BindingMeta) : EtcdServer json where
  server := { p.server with
    bindings := p.server.bindings.bind m.exchange m.queue m.routingKey m.args }
  store := p.store.saveBinding m

/-- `RestoreFromStore`, with the queues and exchanges that their loads return. -/
def restoreFromStore (env : Env) (p : EtcdServer json) (queues : List QueueMeta)
    (exchanges : List ExchangeMeta) (r : p.store.Reading) :
    Option RestoreError × EtcdServer json :=
  let s := queues.foldl (fun s m =>
    (s.declareQueue env m.name m.durable m.exclusive m.autoDelete m.args).2) p.server
  let s := exchanges.foldl (fun s m =>
    (s.declareExchange m.name (restoredType m.type) m.durable m.autoDelete m.internal m.args).2) s
  match p.store.loadBindings r with
  | none => (some .loadBindings, { p with server := s })
  | some bindings => (none, bindings.foldl bind { p with server := s })

end EtcdServer

end Broker

end Gomq
