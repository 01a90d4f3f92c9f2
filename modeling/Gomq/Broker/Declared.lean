import Gomq.Broker.Metadata
import Gomq.Broker.Visits

/-!
# The type of a declared exchange

`handleExchangeDeclare` knows `direct` and `fanout` and takes every other type for `direct`. A
declared topic or headers exchange therefore compares routing keys: it routes as its type says only
when the keys of the bindings happen to select the same queues (`routesAsDeclared_iff`). The
exchanges that the server creates itself, `amq.topic` and `amq.headers`, have their own routers.
-/

namespace Gomq.Broker

open Wire

/-! ## The direct router in the place of another -/

theorem matchParts_self (words : List GoString) : matchParts words words = true := by
  induction words with
  | nil => rfl
  | cons w words ih =>
    unfold matchParts
    split
    · split
      · rfl
      · exact List.any_eq_true.mpr ⟨words, by simp, ih⟩
    · simp [ih]

theorem matchTopicPattern_self (key : GoString) : matchTopicPattern (splitDots key) key = true := by
  unfold matchTopicPattern
  split
  · rfl
  · exact matchParts_self (splitDots key)

/-- Every queue that the router of the type selects has a binding whose key is the routing key
itself, and every queue with such a binding is selected. For topics the second part is no condition,
by `matchTopicPattern_self`. -/
def KeysSuffice : ExchangeType → GoString → Table → List Binding → Prop
  | .direct, _, _, _ => True
  | .fanout, _, _, _ => True
  | .topic, key, _, bindings =>
    ∀ b ∈ bindings, matchTopicPattern (splitDots key) b.routingKey →
      ∃ b' ∈ bindings, b'.routingKey = key ∧ b'.queueName = b.queueName
  | .headers, key, headers, bindings =>
    (∀ b ∈ bindings, matchHeaders headers b.args →
      ∃ b' ∈ bindings, b'.routingKey = key ∧ b'.queueName = b.queueName) ∧
    ∀ b ∈ bindings, b.routingKey = key →
      ∃ b' ∈ bindings, matchHeaders headers b'.args ∧ b'.queueName = b.queueName

theorem collect_same_iff (sel sel' : Binding → Bool) (bindings : List Binding) :
    (∀ q, q ∈ collect sel bindings ↔ q ∈ collect sel' bindings) ↔
      (∀ b ∈ bindings, sel' b → ∃ b' ∈ bindings, sel b' ∧ b'.queueName = b.queueName) ∧
      ∀ b ∈ bindings, sel b → ∃ b' ∈ bindings, sel' b' ∧ b'.queueName = b.queueName := by
  simp only [mem_collect]
  constructor
  · intro h
    exact ⟨fun b hb hsel => (h b.queueName).mpr ⟨b, hb, hsel, rfl⟩,
      fun b hb hsel => (h b.queueName).mp ⟨b, hb, hsel, rfl⟩⟩
  · rintro ⟨h, h'⟩ q
    constructor
    · rintro ⟨b, hb, hsel, rfl⟩
      exact h' b hb hsel
    · rintro ⟨b, hb, hsel, rfl⟩
      exact h b hb hsel

theorem collect_declared_iff (t : ExchangeType) (key : GoString) (headers : Table)
    (bindings : List Binding) :
    (∀ q, q ∈ collect (selects (Server.exchangeTypeOf t.toGoString) key headers) bindings ↔
        q ∈ collect (selects t key headers) bindings) ↔
      KeysSuffice t key headers bindings := by
  cases t with
  | direct => exact iff_of_true (fun q => Iff.rfl) trivial
  | fanout => exact iff_of_true (fun q => Iff.rfl) trivial
  | topic =>
    rw [show Server.exchangeTypeOf ExchangeType.topic.toGoString = .direct by decide,
      collect_same_iff]
    simp only [selects, beq_iff_eq, KeysSuffice, and_iff_left_iff_imp]
    rintro - b hb rfl
    exact ⟨b, hb, matchTopicPattern_self b.routingKey, rfl⟩
  | headers =>
    rw [show Server.exchangeTypeOf ExchangeType.headers.toGoString = .direct by decide,
      collect_same_iff]
    simp only [selects, beq_iff_eq, KeysSuffice]

theorem keysSuffice_always_iff (t : ExchangeType) :
    (∀ key headers bindings, KeysSuffice t key headers bindings) ↔ t = .direct ∨ t = .fanout := by
  constructor
  · intro h
    cases t with
    | direct => exact .inl rfl
    | fanout => exact .inr rfl
    | topic =>
      obtain ⟨b, hb, hkey, -⟩ := h (str "a") [] [⟨[], [], str "*", []⟩] _
        (List.mem_singleton_self _) (by decide)
      rw [List.mem_singleton.mp hb] at hkey
      exact absurd hkey (by decide)
    | headers =>
      obtain ⟨b, hb, hmatch, -⟩ := (h (str "a") [] [⟨[], [], str "a", []⟩]).2 _
        (List.mem_singleton_self _) rfl
      rw [List.mem_singleton.mp hb] at hmatch
      exact absurd hmatch (by decide)
  · rintro (rfl | rfl) key headers bindings <;> trivial

/-! ## The handler -/

theorem exchanges_handleExchangeDeclare (env : Env) (ch : ChanRef) {s : Server}
    {payload rest : Bytes} {e exType : GoString} {durable autoDelete internal noWait : Bool}
    {args : Table}
    (hdecode : decodeExchangeDeclare (s.check ch) payload =
      .ok (.exchangeDeclare e exType false durable autoDelete internal noWait args, rest))
    (hnew : s.exchanges.get e = none) :
    (handleExchangeDeclare env ch payload s).2.exchanges.get e =
      some ⟨e, Server.exchangeTypeOf exType, false, false, false, args⟩ := by
  have hhandle : handleExchangeDeclare env ch payload s = perform env ch
      (.exchangeDeclare e exType false durable autoDelete internal noWait args) s := by
    unfold handleExchangeDeclare handleWith
    rw [hdecode]
  have hconfig := config_perform env ch
    (.exchangeDeclare e exType false durable autoDelete internal noWait args) s
  rw [hhandle, show Server.exchanges _ = _ from congrArg Config.exchanges hconfig]
  simp only [Request.configure, Bool.false_eq_true, if_false, GoMap.get_setNew]
  rw [show s.config.exchanges.get e = none from hnew]
  simp

theorem routeAt_created (env : Env) (ch : ChanRef) {s : Server} {payload rest : Bytes}
    {e exType : GoString} {durable autoDelete internal noWait : Bool} {args : Table}
    (hdecode : decodeExchangeDeclare (s.check ch) payload =
      .ok (.exchangeDeclare e exType false durable autoDelete internal noWait args, rest))
    (hnew : s.exchanges.get e = none) {c : Config}
    (hc : c.exchanges.get e = (handleExchangeDeclare env ch payload s).2.exchanges.get e)
    (headers : Table) (key : GoString) :
    c.routeAt headers (e, key) =
      collect (selects (Server.exchangeTypeOf exType) key headers) (c.bindings.getBindings e) := by
  rw [exchanges_handleExchangeDeclare env ch hdecode hnew] at hc
  unfold Config.routeAt
  rw [hc]
  rfl

/-- Let the handler create exchange `e` with type `t`. A message is then routed to the queues that
the router of `t` selects exactly if the type is `direct` or `fanout` or the keys suffice, whatever
else is configured; it is for all bindings and all messages only if the type is `direct` or
`fanout`. -/
theorem routesAsDeclared_iff (env : Env) (ch : ChanRef) (s : Server) (payload rest : Bytes)
    (e : GoString) (t : ExchangeType) (durable autoDelete internal noWait : Bool) (args : Table)
    (hdecode : decodeExchangeDeclare (s.check ch) payload =
      .ok (.exchangeDeclare e t.toGoString false durable autoDelete internal noWait args, rest))
    (hnew : s.exchanges.get e = none) :
    ((handleExchangeDeclare env ch payload s).2.exchanges.get e).isSome ∧
      (∀ c : Config,
        c.exchanges.get e = (handleExchangeDeclare env ch payload s).2.exchanges.get e →
        ∀ headers key,
          (∀ q, q ∈ c.routeAt headers (e, key) ↔
              q ∈ collect (selects t key headers) (c.bindings.getBindings e)) ↔
            KeysSuffice t key headers (c.bindings.getBindings e)) ∧
      ((∀ c : Config,
        c.exchanges.get e = (handleExchangeDeclare env ch payload s).2.exchanges.get e →
        ∀ headers key q, q ∈ c.routeAt headers (e, key) ↔
          q ∈ collect (selects t key headers) (c.bindings.getBindings e)) ↔
        t = .direct ∨ t = .fanout) := by
  have hroute : ∀ c : Config,
      c.exchanges.get e = (handleExchangeDeclare env ch payload s).2.exchanges.get e →
      ∀ headers key,
        (∀ q, q ∈ c.routeAt headers (e, key) ↔
            q ∈ collect (selects t key headers) (c.bindings.getBindings e)) ↔
          KeysSuffice t key headers (c.bindings.getBindings e) := by
    intro c hc headers key
    rw [routeAt_created env ch hdecode hnew hc]
    exact collect_declared_iff t key headers _
  refine ⟨?_, hroute, ?_⟩
  · rw [exchanges_handleExchangeDeclare env ch hdecode hnew]
    rfl
  · rw [← keysSuffice_always_iff t]
    constructor
    · intro h key headers bindings
      -- a configuration with the exchange and any bindings
      let c : Config := { (handleExchangeDeclare env ch payload s).2.config with
        bindings := ⟨(∅ : GoMap GoString (List Binding)).set e bindings, ∅⟩ }
      have hget : c.bindings.getBindings e = bindings := GoMap.getD_set_self ..
      rw [← hget]
      exact (hroute c rfl headers key).mp (h c rfl headers key)
    · intro h c hc headers key
      exact (hroute c hc headers key).mpr (h key headers _)

def declareE (t : ExchangeType) : Bytes :=
  writeUint16 0 ++ writeShortString (str "e") ++ writeShortString t.toGoString ++ writeUint8 0x10 ++
    writeUint32 0

def boundToPattern (t : ExchangeType) : Server :=
  [ProtocolEvent.request default 0 (.queueDeclare (str "q") false false false false true []),
    .request default 0 (.queueBind (str "q") (str "e") (str "a.*") true []),
    .request default 0 (.queueBind (str "q") (str "amq.topic") (str "a.*") true [])].foldl
      protocolStep (handleExchangeDeclare default 0 (declareE t) newServer).2

/-- A message with key `a.b` reaches the queue through `amq.topic` and not through the topic
exchange that was declared. -/
theorem declaredTopic_misroutes :
    (decodeExchangeDeclare (newServer.check 0) (declareE .topic)).map Prod.fst =
        .ok (.exchangeDeclare (str "e") (str "topic") false false false false true []) ∧
      newServer.exchanges.get (str "e") = none ∧
      str "q" ∈ collect (selects .topic (str "a.b") [])
        ((boundToPattern .topic).bindings.getBindings (str "e")) ∧
      ((boundToPattern .topic).publish default (str "amq.topic") (str "a.b") 0 0).2.ready
        (str "q") = [0] ∧
      ((boundToPattern .topic).publish default (str "e") (str "a.b") 0 0).2.ready (str "q") = [] :=
  ⟨by rfl, by rfl, by decide +kernel, by decide +kernel, by decide +kernel⟩

/-- A declared fanout exchange routes every message as a fanout exchange does. -/
theorem declaredFanout_routes :
    decodeExchangeDeclare (newServer.check 0) (declareE .fanout) =
        .ok (.exchangeDeclare (str "e") (str "fanout") false false false false true [], []) ∧
      newServer.exchanges.get (str "e") = none ∧
      ∀ headers key q, q ∈ (boundToPattern .fanout).config.routeAt headers (str "e", key) ↔
        q ∈ collect (selects .fanout key headers)
          ((boundToPattern .fanout).bindings.getBindings (str "e")) := by
  refine ⟨by rfl, by rfl, fun headers key q => ?_⟩
  exact (routesAsDeclared_iff default 0 newServer (declareE .fanout) [] (str "e") .fanout false
    false false true [] (by rfl) (by rfl)).2.2.mpr (.inr rfl) (boundToPattern .fanout).config
    (by rfl) headers key q

end Gomq.Broker
