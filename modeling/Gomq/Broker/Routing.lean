import Gomq.Lib.GoMap
import Gomq.Broker.Message

/-!
# Exchanges, bindings and routers

The four routers differ in which bindings they select; the loop that collects the queues, each
once and in the order of first selection, is the same in all of them (`collect`).
-/

namespace Gomq.Broker

open Wire List

inductive ExchangeType where
  | direct
  | fanout
  | topic
  | headers
  deriving DecidableEq

structure Exchange where
  name : GoString
  type : ExchangeType
  durable : Bool
  autoDelete : Bool
  internal : Bool
  args : Table

structure Binding where
  exchangeName : GoString
  queueName : GoString
  routingKey : GoString
  args : Table

structure E2EBinding where
  source : GoString
  destination : GoString
  routingKey : GoString
  args : Table

/-! ## Routers -/

/-- The loop of every `Route`: the queues of the selected bindings, skipping those seen. -/
def collect (sel : Binding → Bool) (bindings : List Binding) : List GoString :=
  bindings.foldl (fun queues b =>
    if sel b && !queues.contains b.queueName then queues ++ [b.queueName] else queues) []

section Collect

variable (sel : Binding → Bool)

theorem foldl_collect (l : List Binding) (seen : List GoString) (hseen : seen.Nodup) :
    (l.foldl (fun queues b =>
        if sel b && !queues.contains b.queueName then queues ++ [b.queueName] else queues)
      seen).Nodup ∧
    ∀ q, q ∈ l.foldl (fun queues b =>
        if sel b && !queues.contains b.queueName then queues ++ [b.queueName] else queues) seen ↔
      q ∈ seen ∨ ∃ b ∈ l, sel b ∧ b.queueName = q := by
  induction l generalizing seen with
  | nil => simpa using hseen
  | cons b l ih =>
    rw [foldl_cons]
    by_cases hb : (sel b && !seen.contains b.queueName) = true
    · rw [if_pos hb]
      simp only [Bool.and_eq_true, Bool.not_eq_true', contains_eq_mem,
        decide_eq_false_iff_not] at hb
      obtain ⟨hnodup, hmem⟩ := ih (seen ++ [b.queueName])
        (nodup_append.mpr ⟨hseen, nodup_singleton _, by
          rintro a ha _ hc rfl
          exact hb.2 (mem_singleton.mp hc ▸ ha)⟩)
      refine ⟨hnodup, fun q => ?_⟩
      rw [hmem, mem_append, mem_singleton]
      simp only [mem_cons, exists_eq_or_imp, hb.1, true_and, or_assoc]
      rw [eq_comm (a := q)]
    · rw [if_neg hb]
      obtain ⟨hnodup, hmem⟩ := ih seen hseen
      refine ⟨hnodup, fun q => ?_⟩
      rw [hmem]
      simp only [mem_cons, exists_eq_or_imp]
      have hskip : sel b ∧ b.queueName = q → q ∈ seen := by
        rintro ⟨hsel, rfl⟩
        simpa [hsel] using hb
      grind

theorem nodup_collect (l : List Binding) : (collect sel l).Nodup :=
  (foldl_collect sel l [] nodup_nil).1

theorem mem_collect (l : List Binding) (q : GoString) :
    q ∈ collect sel l ↔ ∃ b ∈ l, sel b ∧ b.queueName = q := by
  unfold collect
  rw [(foldl_collect sel l [] nodup_nil).2]
  simp

end Collect

/-- `matchParts`: `#` takes any number of words, `*` takes one. -/
def matchParts : List GoString → List GoString → Bool
  | msg, [] => msg.isEmpty
  | msg, p :: pat =>
    if p = str "#" then
      if pat.isEmpty then true else msg.tails.any fun m => matchParts m pat
    else if p = str "*" then
      match msg with
      | [] => false
      | _ :: m => matchParts m pat
    else
      match msg with
      | [] => false
      | w :: m => w == p && matchParts m pat

/-- `strings.Split(s, ".")`. -/
def splitDots (s : GoString) : List GoString := s.splitOn 0x2e

def matchTopicPattern (msgParts : List GoString) (pattern : GoString) : Bool :=
  if pattern = str "#" then true else matchParts msgParts (splitDots pattern)

def toInt64 : Value → Int64
  | .int v => v
  | .int8 v => v.toInt64
  | .int16 v => v.toInt64
  | .int32 v => v.toInt64
  | .int64 v => v
  | _ => 0

def toUint64 : Value → UInt64
  | .uint v => v
  | .uint8 v => v.toUInt64
  | .uint16 v => v.toUInt64
  | .uint32 v => v.toUInt64
  | .uint64 v => v
  | _ => 0

/-- `float64(n)` of an integer. -/
def floatOfInt (n : ℤ) : ℚ := n.sign * roundFloat 53 n.natAbs

def toFloat64 : Value → ℚ
  | .float32 v => v
  | .float64 v => v
  | .int v => floatOfInt v.toInt
  | .int8 v => floatOfInt v.toInt
  | .int16 v => floatOfInt v.toInt
  | .int32 v => floatOfInt v.toInt
  | .int64 v => floatOfInt v.toInt
  | .uint v => floatOfInt v.toNat
  | .uint8 v => floatOfInt v.toNat
  | .uint16 v => floatOfInt v.toNat
  | .uint32 v => floatOfInt v.toNat
  | .uint64 v => floatOfInt v.toNat
  | _ => 0

/-- The kind of the first value decides how the second is converted. -/
def valuesEqual (a b : Value) : Bool :=
  match a with
  | .string av => match b with | .string bv => av == bv | _ => false
  | .bool av => match b with | .bool bv => av == bv | _ => false
  | .int av => av == toInt64 b
  | .int8 av => av.toInt64 == toInt64 b
  | .int16 av => av.toInt64 == toInt64 b
  | .int32 av => av.toInt64 == toInt64 b
  | .int64 av => av == toInt64 b
  | .uint av => av == toUint64 b
  | .uint8 av => av.toUInt64 == toUint64 b
  | .uint16 av => av.toUInt64 == toUint64 b
  | .uint32 av => av.toUInt64 == toUint64 b
  | .uint64 av => av == toUint64 b
  | .float32 av => av == toFloat64 b
  | .float64 av => av == toFloat64 b
  | _ => false

def headerMatches (msgHeaders : Table) (k : GoString) (v : Value) : Bool :=
  match msgHeaders.get k with
  | none => false
  | some mv => valuesEqual mv v

def matchHeaders (msgHeaders args : Table) : Bool :=
  if args.isEmpty then false
  else
    let mode := match args.get (str "x-match") with | some (.string s) => s | _ => str "all"
    if mode = str "any" then
      args.any fun kv => kv.1 != str "x-match" && headerMatches msgHeaders kv.1 kv.2
    else
      args.all fun kv => kv.1 == str "x-match" || headerMatches msgHeaders kv.1 kv.2

def selects : ExchangeType → GoString → Table → Binding → Bool
  | .direct, key, _, b => b.routingKey == key
  | .fanout, _, _, _ => true
  | .topic, key, _, b => matchTopicPattern (splitDots key) b.routingKey
  | .headers, _, headers, b => matchHeaders headers b.args

/-- `ex.Router().Route(routingKey, headers, bindings)`. -/
def Exchange.route (ex : Exchange) (routingKey : GoString) (headers : Table)
    (bindings : List Binding) : List GoString :=
  collect (selects ex.type routingKey headers) bindings

section Route

variable (ex : Exchange) (routingKey : GoString) (headers : Table)

/-- The queues that `Route` returns, without their order. -/
def Exchange.routed (bindings : List Binding) : Set GoString :=
  {q | q ∈ ex.route routingKey headers bindings}

theorem Exchange.routed_eq_iUnion (bindings : List Binding) :
    ex.routed routingKey headers bindings =
      ⋃ b ∈ bindings, ex.routed routingKey headers [b] := by
  ext q
  simp only [routed, route, mem_collect, Set.mem_ofPred_eq, Set.mem_iUnion, mem_singleton,
    exists_eq_left, exists_prop]

theorem Exchange.routed_congr {bindings bindings' : List Binding}
    (h : ∀ b, b ∈ bindings' ↔ b ∈ bindings) :
    ex.routed routingKey headers bindings' = ex.routed routingKey headers bindings := by
  rw [routed_eq_iUnion, routed_eq_iUnion]
  simp only [h]

/-- For every type of exchange, every routing key, headers and bindings: no queue is returned
twice, and the queues returned are the same for the bindings in another order and with any of them
repeated, and are those that the bindings yield one by one. -/
theorem Exchange.routed_by_binding (bindings : List Binding) :
    (ex.route routingKey headers bindings).Nodup ∧
      (∀ permuted, permuted.Perm bindings →
        ex.routed routingKey headers permuted = ex.routed routingKey headers bindings) ∧
      (∀ copies, copies ⊆ bindings → ∀ repeated, repeated.Perm (bindings ++ copies) →
        ex.routed routingKey headers repeated = ex.routed routingKey headers bindings) ∧
      ex.routed routingKey headers bindings =
        ⋃ b ∈ bindings, ex.routed routingKey headers [b] := by
  refine ⟨nodup_collect _ bindings, fun permuted hperm => ?_, fun copies hsub repeated hperm => ?_,
    ex.routed_eq_iUnion routingKey headers bindings⟩
  · exact ex.routed_congr routingKey headers fun b => hperm.mem_iff
  · apply ex.routed_congr routingKey headers
    intro b
    rw [hperm.mem_iff, mem_append]
    exact or_iff_left_of_imp fun hb => hsub hb

end Route

/-! ## Binding managers -/

structure BindingManager where
  byExchange : GoMap GoString (List Binding)
  byQueue : GoMap GoString (List Binding)

namespace BindingManager

def getBindings (m : BindingManager) (exchange : GoString) : List Binding :=
  m.byExchange.getD exchange []

def bind (m : BindingManager) (exchange queue routingKey : GoString) (args : Table) :
    BindingManager :=
  let b : Binding := ⟨exchange, queue, routingKey, args⟩
  { byExchange := m.byExchange.set exchange (m.byExchange.getD exchange [] ++ [b])
    byQueue := m.byQueue.set queue (m.byQueue.getD queue [] ++ [b]) }

/-- Drop the first binding with the given queue name and key from the list under `key`. -/
def removeFrom (idx : GoMap GoString (List Binding)) (key targetQueue targetKey : GoString) :
    Bool × GoMap GoString (List Binding) :=
  let list := idx.getD key []
  let hit := fun b : Binding => b.queueName == targetQueue && b.routingKey == targetKey
  if list.any hit then (true, idx.set key (list.eraseP hit)) else (false, idx)

/-- `Unbind`. The by-queue index is searched with the exchange in the place of the queue name. -/
def unbind (m : BindingManager) (exchange queue routingKey : GoString) : BindingManager :=
  { byExchange := (removeFrom m.byExchange exchange queue routingKey).2
    byQueue := (removeFrom m.byQueue queue exchange routingKey).2 }

/-- `UnbindAllForExchange`. The by-queue index is searched as in `unbind`. -/
def unbindAllForExchange (m : BindingManager) (exchange : GoString) : BindingManager :=
  (m.byExchange.getD exchange []).foldl (fun m b =>
    { m with byQueue := (removeFrom m.byQueue b.queueName b.exchangeName b.routingKey).2 })
    { m with byExchange := m.byExchange.del exchange }

def unbindAllForQueue (m : BindingManager) (queue : GoString) : BindingManager :=
  (m.byQueue.getD queue []).foldl (fun m b =>
    { m with byExchange := (removeFrom m.byExchange b.exchangeName b.queueName b.routingKey).2 })
    { m with byQueue := m.byQueue.del queue }

end BindingManager

abbrev E2EBindingManager := GoMap GoString (List E2EBinding)

namespace E2EBindingManager

def getBindings (m : E2EBindingManager) (source : GoString) : List E2EBinding :=
  GoMap.getD m source []

def bind (m : E2EBindingManager) (source destination routingKey : GoString) (args : Table) :
    E2EBindingManager :=
  let list := GoMap.getD m source []
  if list.any fun b => b.destination == destination && b.routingKey == routingKey then m
  else GoMap.set m source (list ++ [⟨source, destination, routingKey, args⟩])

def unbind (m : E2EBindingManager) (source destination routingKey : GoString) :
    E2EBindingManager :=
  let list := GoMap.getD m source []
  let hit := fun b : E2EBinding => b.destination == destination && b.routingKey == routingKey
  if list.any hit then GoMap.set m source (list.eraseP hit) else m

/-- `UnbindAllForExchange`: every other source keeps the bindings that lead elsewhere. -/
def unbindAllForExchange (m : E2EBindingManager) (exchange : GoString) : E2EBindingManager :=
  let m := GoMap.del m exchange
  m.keys.foldl (fun acc src =>
    GoMap.set acc src ((GoMap.getD m src []).filter fun b => b.destination != exchange)) m

/-- The depth-first search of `HasCycle` with its shared set of visited nodes. A path that has
more nodes than there are sources repeats one, so `m.keys.length + 2` is fuel enough. -/
def dfs (m : E2EBindingManager) (source : GoString) :
    ℕ → GoString → List GoString → Bool × List GoString
  | 0, _, visited => (false, visited)
  | fuel + 1, node, visited =>
    if node = source then (true, visited)
    else if node ∈ visited then (false, visited)
    else
      (getBindings m node).foldl
        (fun acc b => if acc.1 then acc else dfs m source fuel b.destination acc.2)
        (false, node :: visited)

def hasCycle (m : E2EBindingManager) (source destination : GoString) : Bool :=
  (dfs m source (m.keys.length + 2) destination []).1

end E2EBindingManager

end Gomq.Broker
