import Gomq.Broker.Operations

/-!
# The metadata store

A server can be given a store for its metadata. The managers then save what is declared and bound,
and delete what is deleted and unbound; `RestoreFromStore` declares and binds everything in the
store again. `MemoryStore` keeps queues and exchanges under their names, and a binding under its
three names joined by bars.
-/

namespace Gomq.Broker

open Wire

/-! ## Stored metadata -/

structure QueueMeta where
  name : GoString
  durable : Bool
  exclusive : Bool
  autoDelete : Bool
  args : Table

structure ExchangeMeta where
  name : GoString
  type : GoString
  durable : Bool
  autoDelete : Bool
  internal : Bool
  args : Table

structure BindingMeta where
  exchange : GoString
  queue : GoString
  routingKey : GoString
  args : Table

def ExchangeType.toGoString : ExchangeType → GoString
  | .direct => str "direct"
  | .fanout => str "fanout"
  | .topic => str "topic"
  | .headers => str "headers"

/-- The type of a stored exchange; an unknown name is taken for `direct`. -/
def restoredType (type : GoString) : ExchangeType :=
  if type = str "direct" then .direct
  else if type = str "fanout" then .fanout
  else if type = str "topic" then .topic
  else if type = str "headers" then .headers
  else .direct

@[simp] theorem restoredType_toGoString (t : ExchangeType) : restoredType t.toGoString = t := by
  cases t <;> decide

/-- The stored form of a queue; its owner is not stored. -/
def Queue.meta (q : Queue) : QueueMeta := ⟨q.name, q.durable, q.exclusive, q.autoDelete, q.args⟩

def Exchange.meta (x : Exchange) : ExchangeMeta :=
  ⟨x.name, x.type.toGoString, x.durable, x.autoDelete, x.internal, x.args⟩

def Binding.meta (b : Binding) : BindingMeta :=
  ⟨b.exchangeName, b.queueName, b.routingKey, b.args⟩

theorem Binding.meta_injective : Function.Injective Binding.meta := by
  rintro ⟨e, q, k, a⟩ ⟨e', q', k', a'⟩ h
  simpa [Binding.meta] using h

/-! ## The store -/

structure MemoryStore where
  queues : GoMap GoString QueueMeta
  exchanges : GoMap GoString ExchangeMeta
  bindings : GoMap GoString BindingMeta

def newMemoryStore : MemoryStore := ⟨∅, ∅, ∅⟩

def bindingKey (exchange queue routingKey : GoString) : GoString :=
  exchange ++ str "|" ++ queue ++ str "|" ++ routingKey

def Binding.storeKey (b : Binding) : GoString := bindingKey b.exchangeName b.queueName b.routingKey

namespace MemoryStore

def saveQueue (st : MemoryStore) (m : QueueMeta) : MemoryStore :=
  { st with queues := st.queues.set m.name m }

def deleteQueue (st : MemoryStore) (name : GoString) : MemoryStore :=
  { st with queues := st.queues.del name }

def saveExchange (st : MemoryStore) (m : ExchangeMeta) : MemoryStore :=
  { st with exchanges := st.exchanges.set m.name m }

def deleteExchange (st : MemoryStore) (name : GoString) : MemoryStore :=
  { st with exchanges := st.exchanges.del name }

def saveBinding (st : MemoryStore) (m : BindingMeta) : MemoryStore :=
  { st with bindings := st.bindings.set (bindingKey m.exchange m.queue m.routingKey) m }

def deleteBinding (st : MemoryStore) (exchange queue routingKey : GoString) : MemoryStore :=
  { st with bindings := st.bindings.del (bindingKey exchange queue routingKey) }

/-- What the loads of a store return: the values of its maps, in any order. -/
structure Listing (st : MemoryStore) where
  queues : List QueueMeta
  exchanges : List ExchangeMeta
  bindings : List BindingMeta
  queues_perm : queues.Perm st.queues.vals
  exchanges_perm : exchanges.Perm st.exchanges.vals
  bindings_perm : bindings.Perm st.bindings.vals

def listing (st : MemoryStore) : st.Listing :=
  ⟨st.queues.vals, st.exchanges.vals, st.bindings.vals, .rfl, .rfl, .rfl⟩

end MemoryStore

/-! ## Managers with a store -/

structure Persisted where
  server : Server
  store : MemoryStore

namespace Persisted

def declareQueue (env : Env) (p : Persisted) (name : GoString)
    (durable exclusive autoDelete : Bool) (args : Table) (owner : Option ConnRef) :
    Option Queue × Persisted :=
  match p.server.queues.get name with
  | some q => if q.matchArgs env durable exclusive autoDelete args then (some q, p) else (none, p)
  | none =>
    let q : Queue := ⟨name, durable, exclusive, autoDelete, args, owner⟩
    (some q,
      { server := { p.server with queues := p.server.queues.set name q }
        store := p.store.saveQueue q.meta })

def deleteQueue (p : Persisted) (name : GoString) : Persisted :=
  match p.server.queues.get name with
  | none => p
  | some _ =>
    { server := { p.server with queues := p.server.queues.del name }
      store := p.store.deleteQueue name }

def ownedBy (s : Server) (conn : Option ConnRef) : List GoString :=
  s.queues.keys.filter fun name =>
    match s.queues.get name with
    | some q => q.owner == conn
    | none => false

/-- `RemoveExclusive`: the store is not told. -/
def removeExclusive (p : Persisted) (conn : Option ConnRef) : Persisted :=
  { p with server :=
      { p.server with queues := (ownedBy p.server conn).foldl GoMap.del p.server.queues } }

def declareExchange (p : Persisted) (name : GoString) (exType : ExchangeType)
    (durable autoDelete internal : Bool) (args : Table) : Option Exchange × Persisted :=
  match p.server.exchanges.get name with
  | some x => if x.type = exType then (some x, p) else (none, p)
  | none =>
    let x : Exchange := ⟨name, exType, durable, autoDelete, internal, args⟩
    (some x,
      { server := { p.server with exchanges := p.server.exchanges.set name x }
        store := p.store.saveExchange x.meta })

def deleteExchange (p : Persisted) (name : GoString) : Persisted :=
  match p.server.exchanges.get name with
  | none => p
  | some _ =>
    { server := { p.server with exchanges := p.server.exchanges.del name }
      store := p.store.deleteExchange name }

def bind (p : Persisted) (exchange queue routingKey : GoString) (args : Table) : Persisted :=
  { server := { p.server with bindings := p.server.bindings.bind exchange queue routingKey args }
    store := p.store.saveBinding ⟨exchange, queue, routingKey, args⟩ }

/-- `Unbind` tells the store only if the by-exchange index had the binding. -/
def unbind (p : Persisted) (exchange queue routingKey : GoString) : Persisted :=
  { server := { p.server with bindings := p.server.bindings.unbind exchange queue routingKey }
    store :=
      if (BindingManager.removeFrom p.server.bindings.byExchange exchange queue routingKey).1 then
        p.store.deleteBinding exchange queue routingKey
      else p.store }

/-- The store is not told. -/
def unbindAllForExchange (p : Persisted) (exchange : GoString) : Persisted :=
  { p with
    server := { p.server with bindings := p.server.bindings.unbindAllForExchange exchange } }

/-- The store is not told. -/
def unbindAllForQueue (p : Persisted) (queue : GoString) : Persisted :=
  { p with server := { p.server with bindings := p.server.bindings.unbindAllForQueue queue } }

/-! ## Restoring -/

def restoreQueue (env : Env) (p : Persisted) (m : QueueMeta) : Persisted :=
  (p.declareQueue env m.name m.durable m.exclusive m.autoDelete m.args none).2

def restoreExchange (p : Persisted) (m : ExchangeMeta) : Persisted :=
  (p.declareExchange m.name (restoredType m.type) m.durable m.autoDelete m.internal m.args).2

def restoreBinding (p : Persisted) (m : BindingMeta) : Persisted :=
  p.bind m.exchange m.queue m.routingKey m.args

/-- `RestoreFromStore` on what the loads return. -/
def restoreFromStore (env : Env) (p : Persisted) (l : p.store.Listing) : Persisted :=
  l.bindings.foldl restoreBinding
    (l.exchanges.foldl restoreExchange (l.queues.foldl (restoreQueue env) p))

/-! ## What a declare does to the server -/

theorem declareQueue_server (env : Env) (p : Persisted) (name : GoString)
    (durable exclusive autoDelete : Bool) (args : Table) :
    (p.declareQueue env name durable exclusive autoDelete args none).2.server =
      (p.server.declareQueue env name durable exclusive autoDelete args).2 := by
  unfold declareQueue Server.declareQueue
  cases p.server.queues.get name with
  | none => rfl
  | some q => dsimp only; split <;> rfl

theorem declareExchange_server (p : Persisted) (name : GoString) (exType : ExchangeType)
    (durable autoDelete internal : Bool) (args : Table) :
    (p.declareExchange name exType durable autoDelete internal args).2.server =
      (p.server.declareExchange name exType durable autoDelete internal args).2 := by
  unfold declareExchange Server.declareExchange
  cases p.server.exchanges.get name with
  | none => rfl
  | some x => dsimp only; split <;> rfl

end Persisted

def QueueMeta.toQueue (m : QueueMeta) : Queue :=
  ⟨m.name, m.durable, m.exclusive, m.autoDelete, m.args, none⟩

def ExchangeMeta.toExchange (m : ExchangeMeta) : Exchange :=
  ⟨m.name, restoredType m.type, m.durable, m.autoDelete, m.internal, m.args⟩

def BindingMeta.toBinding (m : BindingMeta) : Binding :=
  ⟨m.exchange, m.queue, m.routingKey, m.args⟩

@[simp] theorem QueueMeta.meta_toQueue (m : QueueMeta) : m.toQueue.meta = m := rfl

@[simp] theorem Exchange.toExchange_meta (x : Exchange) : x.meta.toExchange = x := by
  simp [Exchange.meta, ExchangeMeta.toExchange]

namespace Server

def restored (qs : List QueueMeta) (es : List ExchangeMeta) (bs : List BindingMeta) (s : Server) :
    Server :=
  { s with
    queues := qs.foldl (fun queues m => queues.setNew m.name m.toQueue) s.queues
    exchanges := es.foldl (fun exchanges m => exchanges.setNew m.name m.toExchange) s.exchanges
    bindings := bs.foldl (fun bindings m =>
      bindings.bind m.exchange m.queue m.routingKey m.args) s.bindings }

theorem declareQueue_eq (env : Env) (s : Server) (m : QueueMeta) :
    (s.declareQueue env m.name m.durable m.exclusive m.autoDelete m.args).2 =
      { s with queues := s.queues.setNew m.name m.toQueue } := by
  unfold declareQueue GoMap.setNew
  cases s.queues.get m.name with
  | none => rfl
  | some q => dsimp only; split <;> rfl

theorem declareExchange_eq (s : Server) (x : Exchange) :
    (s.declareExchange x.name x.type x.durable x.autoDelete x.internal x.args).2 =
      { s with exchanges := s.exchanges.setNew x.name x } := by
  unfold declareExchange GoMap.setNew
  cases s.exchanges.get x.name with
  | none => rfl
  | some x => dsimp only; split <;> rfl

theorem foldl_declareExchange (l : List ExchangeMeta) (s : Server) :
    l.foldl (fun s m =>
      (s.declareExchange m.name (restoredType m.type) m.durable m.autoDelete m.internal m.args).2)
      s = s.restored [] l [] := by
  induction l generalizing s with
  | nil => rfl
  | cons m l ih =>
    rw [List.foldl_cons, ih]
    exact congrArg (restored [] l []) (s.declareExchange_eq m.toExchange)

theorem foldl_declareQueue (env : Env) (l : List QueueMeta) (s : Server) :
    l.foldl (fun s m =>
      (s.declareQueue env m.name m.durable m.exclusive m.autoDelete m.args).2) s =
      s.restored l [] [] := by
  induction l generalizing s with
  | nil => rfl
  | cons m l ih =>
    rw [List.foldl_cons, ih, declareQueue_eq]
    rfl

theorem foldl_bind (l : List BindingMeta) (s : Server) :
    l.foldl (fun s m =>
      { s with bindings := s.bindings.bind m.exchange m.queue m.routingKey m.args }) s =
      s.restored [] [] l := by
  induction l generalizing s with
  | nil => rfl
  | cons m l ih =>
    rw [List.foldl_cons, ih]
    rfl

end Server

namespace Persisted

theorem foldl_restoreQueue (env : Env) (l : List QueueMeta) (p : Persisted) :
    (l.foldl (restoreQueue env) p).server = p.server.restored l [] [] := by
  induction l generalizing p with
  | nil => rfl
  | cons m l ih =>
    rw [List.foldl_cons, ih, restoreQueue, declareQueue_server, Server.declareQueue_eq]
    rfl

theorem foldl_restoreExchange (l : List ExchangeMeta) (p : Persisted) :
    (l.foldl restoreExchange p).server = p.server.restored [] l [] := by
  induction l generalizing p with
  | nil => rfl
  | cons m l ih =>
    rw [List.foldl_cons, ih, restoreExchange, declareExchange_server]
    exact congrArg (Server.restored [] l []) (p.server.declareExchange_eq m.toExchange)

theorem foldl_restoreBinding (l : List BindingMeta) (p : Persisted) :
    (l.foldl restoreBinding p).server = p.server.restored [] [] l := by
  induction l generalizing p with
  | nil => rfl
  | cons m l ih =>
    rw [List.foldl_cons, ih]
    rfl

theorem restoreFromStore_server (env : Env) (p : Persisted) (l : p.store.Listing) :
    (p.restoreFromStore env l).server = p.server.restored l.queues l.exchanges l.bindings := by
  unfold restoreFromStore
  rw [foldl_restoreBinding, foldl_restoreExchange, foldl_restoreQueue]
  rfl

end Persisted

end Gomq.Broker
