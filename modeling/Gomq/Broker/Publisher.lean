import Gomq.Broker.Consumers

/-!
# The publisher

`publishInternal` walks the exchange-to-exchange graph from the named exchange. An overflowing
queue gives up its oldest message to its dead-letter exchange, which starts a walk of its own with
the overflow check off; so a dead letter never causes another, and the two walks are one function
with the handling of evicted messages as a parameter.
-/

namespace Gomq.Broker

open Wire

namespace Server

def evictOldest (deadLetter : MsgRef → Table → Server → Server) (s : Server) (qn : GoString)
    (args : Table) : Server :=
  if 0 < maxLength args ∧ (maxLength args).toInt ≤ (s.ready qn).length then
    match s.dequeue qn with
    | (some oldest, s) => deadLetter oldest args s
    | (none, s) => s
  else s

/-- `Enqueue` or, for a queue with `x-max-priority`, `EnqueuePriority`. -/
def storeIn (s : Server) (qn : GoString) (args : Table) (msg : MsgRef) : Server :=
  if 0 < maxPriority args then s.enqueuePriority qn msg else s.enqueue qn msg

/-- The body of the loop over the routed queues. -/
def publishTo (env : Env) (deadLetter : MsgRef → Table → Server → Server) (checkDLX : Bool)
    (msg : MsgRef) (channelID : UInt16) (s : Server) (qn : GoString) : Server :=
  match s.queues.get qn with
  | none => s
  | some q =>
    let s := if checkDLX then s.evictOldest deadLetter qn q.args else s
    let s := s.modifyMsg msg fun m => m.setEnqueuedAt (some env.now)
    let s := s.storeIn qn q.args msg
    if isExpired env.now (s.msgs.read msg) q.args then s else s.deliver env msg qn channelID

/-- `publishInternal`: the state, the visited exchanges, and the number of routed queues. Every
call that does not return at once visits another existing exchange, so one more than there are
exchanges is fuel enough. -/
def publishInternal (env : Env) (deadLetter : MsgRef → Table → Server → Server)
    (checkDLX : Bool) (msg : MsgRef) (channelID : UInt16) :
    ℕ → GoString → GoString → List GoString → Server →
      Server × List GoString × Except GoError ℕ
  | 0, exchangeName, _, visited, s => (s, visited, .error (.exchangeLoop exchangeName))
  | fuel + 1, exchangeName, routingKey, visited, s =>
    if exchangeName ∈ visited then (s, visited, .error (.exchangeLoop exchangeName))
    else
      let visited := exchangeName :: visited
      match s.exchanges.get exchangeName with
      | none => (s, visited, .error (.exchangeNotFound exchangeName))
      | some ex =>
        let queues := ex.route routingKey (s.msgs.read msg).properties.headers
          (s.bindings.getBindings exchangeName)
        let s := queues.foldl (publishTo env deadLetter checkDLX msg channelID) s
        let e2eList := E2EBindingManager.getBindings s.e2eBindings exchangeName
        let r := e2eList.foldl (fun (acc : Server × List GoString × ℕ) eb =>
          match publishInternal env deadLetter checkDLX msg channelID fuel eb.destination
              eb.routingKey acc.2.1 acc.1 with
          | (s, visited, .error _) => (s, visited, acc.2.2)
          | (s, visited, .ok n) => (s, visited, acc.2.2 + n)) (s, visited, queues.length)
        (r.1, r.2.1, .ok r.2.2)

def walkFuel (s : Server) : ℕ := s.exchanges.keys.length + 1

/-- `RouteDeadLetter` through `publishInternal`; its error is dropped. -/
def deadLetter (env : Env) (msg : MsgRef) (args : Table) (s : Server) : Server :=
  match getDeadLetterConfig args with
  | none => s
  | some cfg =>
    let original := (s.msgs.read msg).routingKey
    let s := s.modifyMsg msg fun m =>
      { m with properties :=
        { m.properties with
          headers := m.properties.headers.set (str "x-original-routing-key") (.string original) } }
    let rk := if cfg.routingKey = [] then original else cfg.routingKey
    (publishInternal env (fun _ _ s => s) false msg 0 s.walkFuel cfg.exchange rk [] s).1

def recordStats (s : Server) (name : GoString) (routed : ℕ) : Server :=
  let st := s.stats.getD name ⟨0, 0⟩
  { s with stats := s.stats.set name ⟨st.in_ + 1, st.out + routed⟩ }

def publish (env : Env) (s : Server) (exchangeName routingKey : GoString) (msg : MsgRef)
    (channelID : UInt16) : Except GoError ℕ × Server :=
  match publishInternal env (deadLetter env) true msg channelID s.walkFuel exchangeName
      routingKey [] s with
  | (s, _, .ok n) => (.ok n, s.recordStats exchangeName n)
  | (s, _, .error e) => (.error e, s)

end Server

end Gomq.Broker
