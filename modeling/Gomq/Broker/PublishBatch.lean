import Gomq.Lib.Run
import Gomq.Broker.Message

/-!
# Publish batches

A publish batch keeps one destination, that of the first message in the buffer, and passes it to the
callback with all of them. A flush empties the buffer whatever the callback returns. Every message
is passed to the callback once and in order; it is passed faithfully exactly if every message that
joins others has their destination and no flush fails (`publishBatch_faithful_iff`).
-/

namespace Gomq.Broker

open Wire List

structure BatchConfig where
  maxSize : Int64
  maxBytes : Int64

structure Destination where
  exchange : GoString
  routingKey : GoString
  channelID : UInt16
  deriving DecidableEq

structure FlushCall where
  msgs : List Message
  dest : Destination
  ok : Bool

def FlushCall.routes (f : FlushCall) : List (Message × Destination) :=
  f.msgs.map fun msg => (msg, f.dest)

structure PublishBatch where
  cfg : BatchConfig
  msgs : List Message
  dest : Destination
  bytes : Int64
  calls : List FlushCall

namespace PublishBatch

def newPublishBatch (cfg : BatchConfig) : PublishBatch := ⟨cfg, [], ⟨[], [], 0⟩, 0, []⟩

/-- `Flush`; `ok` is what the callback answers if it is called. -/
def flush (b : PublishBatch) (ok : Bool) : PublishBatch :=
  if b.msgs = [] then b
  -- the buffer is emptied whatever the callback answers
  else { b with msgs := [], bytes := 0, calls := b.calls ++ [⟨b.msgs, b.dest, ok⟩] }

def append (b : PublishBatch) (msg : Message) (dest : Destination) : PublishBatch :=
  { b with
    -- only the first message of a buffer sets the destination
    dest := if b.msgs = [] then dest else b.dest
    msgs := b.msgs ++ [msg]
    bytes := b.bytes + Int64.ofNat msg.payload.length }

def Full (b : PublishBatch) : Prop :=
  b.cfg.maxSize.toInt ≤ b.msgs.length ∨ b.cfg.maxBytes ≤ b.bytes

instance (b : PublishBatch) : Decidable b.Full := inferInstanceAs (Decidable (_ ∨ _))

/-- `Add`; `ok` is what the callback answers if it is called. -/
def add (b : PublishBatch) (msg : Message) (dest : Destination) (ok : Bool) : PublishBatch :=
  if (b.append msg dest).Full then (b.append msg dest).flush ok else b.append msg dest

end PublishBatch

inductive BatchOp where
  | add (msg : Message) (dest : Destination) (ok : Bool)
  | flush (ok : Bool)

def batchStep (b : PublishBatch) : BatchOp → PublishBatch
  | .add msg dest ok => b.add msg dest ok
  | .flush ok => b.flush ok

def given (ops : List BatchOp) : List (Message × Destination) :=
  ops.filterMap fun op =>
    match op with
    | .add msg dest _ => some (msg, dest)
    | .flush _ => none

namespace PublishBatch

def sent (b : PublishBatch) : List (Message × Destination) :=
  (b.calls.filter (·.ok)).flatMap FlushCall.routes

/-- What was given was sent, in order and with its destination, up to a rest that is buffered. -/
def Faithful (b : PublishBatch) (l : List (Message × Destination)) : Prop :=
  ∃ rest, l = b.sent ++ rest ∧ rest.map Prod.fst = b.msgs

/-- A message that joins others has their destination, and the callback does not fail. -/
def Regular (b : PublishBatch) : BatchOp → Prop
  | .add msg dest ok => (b.msgs ≠ [] → dest = b.dest) ∧ ((b.append msg dest).Full → ok = true)
  | .flush ok => b.msgs ≠ [] → ok = true

/-! ## Where the messages go -/

def routes (b : PublishBatch) : List (Message × Destination) :=
  b.calls.flatMap FlushCall.routes ++ b.msgs.map fun msg => (msg, b.dest)

def AllOk (b : PublishBatch) : Prop := ∀ f ∈ b.calls, f.ok = true

def newRoute (b : PublishBatch) : BatchOp → List (Message × Destination)
  | .add msg dest _ => [(msg, if b.msgs = [] then dest else b.dest)]
  | .flush _ => []

def flushCalls (b : PublishBatch) (ok : Bool) : List FlushCall :=
  if b.msgs = [] then [] else [⟨b.msgs, b.dest, ok⟩]

def newCalls (b : PublishBatch) : BatchOp → List FlushCall
  | .add msg dest ok =>
    if (b.append msg dest).Full then (b.append msg dest).flushCalls ok else []
  | .flush ok => b.flushCalls ok

variable (b : PublishBatch)

theorem msgs_flush (ok : Bool) : (b.flush ok).msgs = [] := by
  unfold flush
  split
  · assumption
  · rfl

theorem calls_flush (ok : Bool) : (b.flush ok).calls = b.calls ++ b.flushCalls ok := by
  unfold flush flushCalls
  split
  · exact (append_nil _).symm
  · rfl

theorem routes_flush (ok : Bool) : (b.flush ok).routes = b.routes := by
  unfold flush
  split
  · rfl
  · unfold routes
    dsimp only
    rw [flatMap_append, flatMap_singleton, map_nil, append_nil]
    rfl

theorem routes_append (msg : Message) (dest : Destination) :
    (b.append msg dest).routes = b.routes ++ [(msg, if b.msgs = [] then dest else b.dest)] := by
  unfold append routes
  dsimp only
  rw [map_append, ← append_assoc]
  by_cases h : b.msgs = []
  · simp [h]
  · simp [h]

theorem msgs_append_ne_nil (msg : Message) (dest : Destination) :
    (b.append msg dest).msgs ≠ [] := append_ne_nil_of_right_ne_nil _ (cons_ne_nil _ _)

theorem routes_step (op : BatchOp) : (batchStep b op).routes = b.routes ++ b.newRoute op := by
  cases op with
  | add msg dest ok =>
    show (b.add msg dest ok).routes = _
    unfold add
    split
    · rw [routes_flush, routes_append]
      rfl
    · exact b.routes_append msg dest
  | flush ok => exact (b.routes_flush ok).trans (append_nil _).symm

theorem calls_step (op : BatchOp) : (batchStep b op).calls = b.calls ++ b.newCalls op := by
  cases op with
  | add msg dest ok =>
    show (b.add msg dest ok).calls = _
    unfold add newCalls
    dsimp only
    by_cases hfull : (b.append msg dest).Full
    · rw [if_pos hfull, if_pos hfull, calls_flush]
      rfl
    · rw [if_neg hfull, if_neg hfull]
      exact (append_nil _).symm
  | flush ok => exact b.calls_flush ok

theorem newCalls_ne_nil (op : BatchOp) : ∀ f ∈ b.newCalls op, f.msgs ≠ [] := by
  have hflush : ∀ (u : PublishBatch) (ok : Bool), ∀ f ∈ u.flushCalls ok, f.msgs ≠ [] := by
    intro u ok f hf
    unfold flushCalls at hf
    split at hf
    · cases hf
    · rename_i hne
      rw [mem_singleton.mp hf]
      exact hne
  cases op with
  | add msg dest ok =>
    intro f hf
    unfold newCalls at hf
    dsimp only at hf
    split at hf
    · exact hflush _ ok f hf
    · cases hf
  | flush ok => exact hflush b ok

theorem newRoute_fst (op : BatchOp) :
    (b.newRoute op).map Prod.fst = (given [op]).map Prod.fst := by
  cases op <;> rfl

theorem regular_iff (op : BatchOp) :
    b.Regular op ↔ b.newRoute op = given [op] ∧ ∀ f ∈ b.newCalls op, f.ok = true := by
  have hflush : ∀ (u : PublishBatch) (ok : Bool),
      (∀ f ∈ u.flushCalls ok, f.ok = true) ↔ (u.msgs ≠ [] → ok = true) := by
    intro u ok
    unfold flushCalls
    by_cases h : u.msgs = []
    · simp [h]
    · simp [h]
  cases op with
  | add msg dest ok =>
    refine and_congr ?_ ?_
    · show _ ↔ [(msg, if b.msgs = [] then dest else b.dest)] = [(msg, dest)]
      by_cases h : b.msgs = []
      · simp [h]
      · simp [h, eq_comm]
    · unfold newCalls
      by_cases hfull : (b.append msg dest).Full
      · have hok := hflush (b.append msg dest) ok
        simp only [b.msgs_append_ne_nil msg dest, ne_eq, not_false_eq_true, true_imp_iff] at hok
        simp only [hfull, if_true, true_imp_iff]
        exact hok.symm
      · simp [hfull]
  | flush ok => exact (hflush b ok).symm.trans (and_iff_right rfl).symm

/-! ## Runs -/

theorem given_cons (op : BatchOp) (ops : List BatchOp) :
    given (op :: ops) = given [op] ++ given ops :=
  filterMap_append (l := [op])

theorem run_extends (b : PublishBatch) (ops : List BatchOp) :
    ∃ l calls, (ops.foldl batchStep b).routes = b.routes ++ l ∧
      l.map Prod.fst = (given ops).map Prod.fst ∧
      (ops.foldl batchStep b).calls = b.calls ++ calls ∧ ∀ f ∈ calls, f.msgs ≠ [] := by
  induction ops generalizing b with
  | nil =>
    exact ⟨[], [], (append_nil _).symm, rfl, (append_nil _).symm, forall_mem_nil _⟩
  | cons op ops ih =>
    obtain ⟨l, calls, hl, hfst, hcalls, hne⟩ := ih (batchStep b op)
    refine ⟨b.newRoute op ++ l, b.newCalls op ++ calls, ?_, ?_, ?_, ?_⟩
    · rw [foldl_cons, hl, routes_step, append_assoc]
    · rw [given_cons op ops, map_append, map_append, newRoute_fst, hfst]
    · rw [foldl_cons, hcalls, calls_step, append_assoc]
    · exact forall_mem_append.mpr ⟨b.newCalls_ne_nil op, hne⟩

theorem regular_run_iff (b : PublishBatch) (hb : b.AllOk) (ops : List BatchOp) :
    ((ops.foldl batchStep b).routes = b.routes ++ given ops ∧ (ops.foldl batchStep b).AllOk) ↔
      Along batchStep Regular b ops := by
  induction ops generalizing b with
  | nil => exact iff_of_true ⟨(append_nil _).symm, hb⟩ True.intro
  | cons op ops ih =>
    obtain ⟨l, calls, hl, -, hcalls, -⟩ := run_extends (batchStep b op) ops
    have hstep : (batchStep b op).AllOk ↔ ∀ f ∈ b.newCalls op, f.ok = true := by
      unfold AllOk
      rw [calls_step, forall_mem_append]
      exact and_iff_right hb
    constructor
    · rintro ⟨hroutes, hok⟩
      rw [foldl_cons] at hroutes hok
      have hok' : (batchStep b op).AllOk := by
        intro f hf
        refine hok f ?_
        rw [hcalls]
        exact mem_append_left _ hf
      -- the route of the first message is found at its place in the end
      have hplace : b.newRoute op ++ l = given [op] ++ given ops := by
        rw [hl, routes_step, append_assoc, given_cons op ops] at hroutes
        exact append_cancel_left hroutes
      have hlen : (b.newRoute op).length = (given [op]).length := by
        rw [← length_map Prod.fst, newRoute_fst, length_map]
      obtain ⟨hnew, rfl⟩ := append_inj hplace hlen
      exact ⟨(b.regular_iff op).mpr ⟨hnew, hstep.mp hok'⟩, (ih _ hok').mp ⟨hl, hok⟩⟩
    · rintro ⟨hregular, hrest⟩
      obtain ⟨hnew, hcallsOk⟩ := (b.regular_iff op).mp hregular
      obtain ⟨hroutes, hok⟩ := (ih _ (hstep.mpr hcallsOk)).mpr hrest
      refine ⟨?_, hok⟩
      rw [foldl_cons, hroutes, routes_step, hnew, append_assoc, given_cons op ops]

theorem allOk_of_length_sent (hne : ∀ f ∈ b.calls, f.msgs ≠ [])
    (hlen : b.sent.length = (b.calls.flatMap FlushCall.routes).length) : b.AllOk := by
  have hperm := (filter_append_perm (fun f : FlushCall => f.ok) b.calls).flatMap_right
    FlushCall.routes
  have hsum := hperm.length_eq
  rw [flatMap_append, length_append] at hsum
  have hzero : ((b.calls.filter fun f => !f.ok).flatMap FlushCall.routes).length = 0 := by
    unfold sent at hlen
    omega
  intro f hf
  by_contra hfail
  have hmem : f ∈ b.calls.filter fun f => !f.ok :=
    mem_filter.mpr ⟨hf, by simpa using hfail⟩
  have hnil := flatMap_eq_nil_iff.mp (length_eq_zero_iff.mp hzero) f hmem
  exact hne f hf (map_eq_nil_iff.mp hnil)

theorem faithful_iff_of_empty (hmsgs : b.msgs = []) (hne : ∀ f ∈ b.calls, f.msgs ≠ [])
    {l : List (Message × Destination)} (hl : l.length = b.routes.length) :
    b.Faithful l ↔ b.routes = l ∧ b.AllOk := by
  have hroutes : b.routes = b.calls.flatMap FlushCall.routes := by
    unfold routes
    rw [hmsgs, map_nil, append_nil]
  have hall : b.AllOk → b.sent = b.calls.flatMap FlushCall.routes := by
    intro hok
    unfold sent
    rw [filter_eq_self.mpr hok]
  unfold Faithful
  rw [hmsgs]
  constructor
  · rintro ⟨rest, rfl, hrest⟩
    rw [map_eq_nil_iff.mp hrest, append_nil] at hl ⊢
    have hok := b.allOk_of_length_sent hne (hroutes ▸ hl)
    exact ⟨hroutes.trans (hall hok).symm, hok⟩
  · rintro ⟨rfl, hok⟩
    exact ⟨[], by rw [hall hok, hroutes, append_nil], rfl⟩

/-- For every configuration and every sequence of calls that ends in `Flush`, the callback is passed
every message once and in order. The messages reach successful flushes with the destinations given
for them, or stay buffered, exactly if every message that joins others has their destination and no
flush fails. -/
theorem publishBatch_faithful_iff (cfg : BatchConfig) (ops : List BatchOp) (ok : Bool) :
    ((((ops ++ [BatchOp.flush ok]).foldl batchStep (newPublishBatch cfg)).calls.flatMap
        FlushCall.msgs) = (given ops).map Prod.fst) ∧
      (((ops ++ [BatchOp.flush ok]).foldl batchStep (newPublishBatch cfg)).Faithful (given ops) ↔
        Along batchStep Regular (newPublishBatch cfg) (ops ++ [BatchOp.flush ok])) := by
  set final := (ops ++ [BatchOp.flush ok]).foldl batchStep (newPublishBatch cfg) with hfinal
  have hgiven : given (ops ++ [BatchOp.flush ok]) = given ops := by
    unfold given
    rw [filterMap_append]
    exact append_nil _
  have hmsgs : final.msgs = [] := by
    rw [hfinal, foldl_append]
    exact msgs_flush _ ok
  obtain ⟨l, calls, hl, hfst, hcalls, hne⟩ :=
    run_extends (newPublishBatch cfg) (ops ++ [BatchOp.flush ok])
  have hstart : (newPublishBatch cfg).AllOk := forall_mem_nil _
  have hregular := regular_run_iff (newPublishBatch cfg) hstart (ops ++ [BatchOp.flush ok])
  rw [← hfinal, hgiven] at hregular
  rw [← hfinal] at hl hcalls
  rw [hgiven] at hfst
  have hroutes : final.routes = l := hl
  have hnonempty : ∀ f ∈ final.calls, f.msgs ≠ [] := by
    rw [hcalls]
    exact hne
  constructor
  · have hpassed : final.calls.flatMap FlushCall.msgs = final.routes.map Prod.fst := by
      unfold routes
      rw [hmsgs, map_nil, append_nil, map_flatMap]
      refine flatMap_congr fun f _ => ?_
      unfold FlushCall.routes
      rw [map_map]
      exact (map_id _).symm
    rw [hpassed, hroutes, hfst]
  · have hlen : (given ops).length = final.routes.length := by
      rw [← length_map Prod.fst, ← hfst, length_map, hroutes]
    exact (final.faithful_iff_of_empty hmsgs hnonempty hlen).trans hregular

def defaultBatchConfig : BatchConfig := ⟨64, 1048576⟩

def publishOp (exchange : GoString) : BatchOp :=
  .add (newMessage [] {}) ⟨exchange, [], 1⟩ true

/-- Two messages for two exchanges are both passed for the first one, and a message whose flush
fails is gone. -/
theorem publishBatch_not_faithful :
    ¬ (([publishOp (str "a"), publishOp (str "b"), .flush true].foldl batchStep
        (newPublishBatch defaultBatchConfig)).Faithful
      (given [publishOp (str "a"), publishOp (str "b")])) ∧
    ¬ (([publishOp (str "a"), .flush false].foldl batchStep
        (newPublishBatch defaultBatchConfig)).Faithful (given [publishOp (str "a")])) := by
  have hfirst : ([publishOp (str "a"), publishOp (str "b"), .flush true].foldl batchStep
      (newPublishBatch defaultBatchConfig)).sent.map Prod.snd =
      [⟨str "a", [], 1⟩, ⟨str "a", [], 1⟩] := by decide
  have hfailed : ([publishOp (str "a"), .flush false].foldl batchStep
      (newPublishBatch defaultBatchConfig)).sent.map Prod.snd = [] := by decide
  constructor
  · rintro ⟨rest, hsent, hrest⟩
    have hdest := congrArg (List.map Prod.snd) hsent
    rw [map_append, hfirst] at hdest
    exact absurd (congrArg (fun l => l[1]?) hdest) (by simp [given, publishOp]; decide)
  · rintro ⟨rest, hsent, hrest⟩
    obtain rfl : rest = [] := map_eq_nil_iff.mp hrest
    have hdest := congrArg (List.map Prod.snd) hsent
    rw [map_append, hfailed] at hdest
    cases hdest

end PublishBatch

end Gomq.Broker
