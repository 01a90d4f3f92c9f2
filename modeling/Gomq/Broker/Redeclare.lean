import Mathlib.Data.List.Perm.Subperm
import Gomq.Broker.HeaderValues
import Gomq.Lib.Decimal

/-!
# Declaring again

`QueueManager.Declare` compares the arguments of an existing queue with the new ones as `%v` prints
them, so that a string passes for the boolean or the integer it spells. `ExchangeManager.Declare`
compares nothing but the type. `redeclare_exact_iff` says which declarations are judged right.
-/

namespace Gomq.Wire.Value

/-- A string, a boolean or an integer, whatever its width. -/
inductive Scalar where
  | string (s : GoString)
  | bool (b : Bool)
  | int (n : ℤ)
  deriving DecidableEq

def scalar : Value → Option Scalar
  | .string s => some (.string s)
  | .bool b => some (.bool b)
  | v => v.asInteger.map .int

namespace Scalar

def text : Scalar → GoString
  | .string s => s
  | .bool b => if b then str "true" else str "false"
  | .int n => intDecimal n

/-- One is a string that spells the other, which is none. -/
def Confused : Scalar → Scalar → Prop
  | .string s, .bool b => s = text (.bool b)
  | .string s, .int n => s = text (.int n)
  | .bool b, .string s => s = text (.bool b)
  | .int n, .string s => s = text (.int n)
  | _, _ => False

theorem not_confused_self (x : Scalar) : ¬ x.Confused x := by
  cases x <;> exact id

theorem intDecimal_ne_text_bool (n : ℤ) (b : Bool) : intDecimal n ≠ text (.bool b) := by
  intro h
  have hletter : ∃ c ∈ text (.bool b), 0x39 < c.toNat := by
    cases b
    · exact ⟨0x66, by decide, by decide⟩
    · exact ⟨0x74, by decide, by decide⟩
  obtain ⟨c, hc, hlt⟩ := hletter
  rw [← h] at hc
  exact absurd (intDecimal_le hc) (not_le.mpr hlt)

theorem text_eq_iff (x y : Scalar) : x.text = y.text ↔ x = y ∨ x.Confused y := by
  cases x with
  | string s => cases y <;> simp [text, Confused]
  | bool b =>
    cases y with
    | string s => simp [text, Confused, eq_comm]
    | bool c => cases b <;> cases c <;> simp [text, Confused] <;> decide
    | int n =>
      refine iff_of_false (fun h => intDecimal_ne_text_bool n b h.symm) ?_
      simp [Confused]
  | int n =>
    cases y with
    | string s => simp [text, Confused, eq_comm]
    | bool c =>
      refine iff_of_false (intDecimal_ne_text_bool n c) ?_
      simp [Confused]
    | int m => simp [text, Confused, intDecimal_injective.eq_iff]

end Scalar

variable {a b : Value}

theorem isSome_scalar (v : Value) : v.scalar.isSome = v.basic := by
  cases v <;> rfl

theorem scalar_eq_string {s : GoString} : a.scalar = some (.string s) ↔ a = .string s := by
  cases a <;> simp [scalar, asInteger]

theorem scalar_eq_bool {x : Bool} : a.scalar = some (.bool x) ↔ a = .bool x := by
  cases a <;> simp [scalar, asInteger]

theorem scalar_eq_int {n : ℤ} : a.scalar = some (.int n) ↔ a.asInteger = some n := by
  cases a <;> simp [scalar, asInteger]

theorem same_iff_scalar : Same a b ↔ ∃ x, a.scalar = some x ∧ b.scalar = some x := by
  unfold Same
  constructor
  · rintro (⟨s, ha, hb⟩ | ⟨x, ha, hb⟩ | ⟨n, ha, hb⟩)
    · exact ⟨.string s, scalar_eq_string.mpr ha, scalar_eq_string.mpr hb⟩
    · exact ⟨.bool x, scalar_eq_bool.mpr ha, scalar_eq_bool.mpr hb⟩
    · exact ⟨.int n, scalar_eq_int.mpr ha, scalar_eq_int.mpr hb⟩
  · rintro ⟨s | x | n, ha, hb⟩
    · exact .inl ⟨s, scalar_eq_string.mp ha, scalar_eq_string.mp hb⟩
    · exact .inr (.inl ⟨x, scalar_eq_bool.mp ha, scalar_eq_bool.mp hb⟩)
    · exact .inr (.inr ⟨n, scalar_eq_int.mp ha, scalar_eq_int.mp hb⟩)

end Gomq.Wire.Value

namespace Gomq.Broker

open Wire List

/-! ## Printed values -/

/-- `%v` prints strings, booleans and integers as documented; the other kinds as it likes. -/
def Env.PrintsScalars (env : Env) : Prop :=
  ∀ (v : Value) x, v.scalar = some x → env.sprint v = x.text

/-- The values are different and print alike: one is a string that spells the other, or the first is
of another kind. -/
def Confused (env : Env) (a b : Value) : Prop :=
  ∃ y, b.scalar = some y ∧
    ((∃ x, a.scalar = some x ∧ x.Confused y) ∨ a.scalar = none ∧ env.sprint a = y.text)

section Values

variable {env : Env} {a b : Value}

theorem sprint_eq_iff (henv : env.PrintsScalars) (hb : b.basic) :
    env.sprint a = env.sprint b ↔ a.Same b ∨ Confused env a b := by
  rw [← Value.isSome_scalar] at hb
  obtain ⟨y, hy⟩ := Option.isSome_iff_exists.mp hb
  unfold Confused
  rw [Value.same_iff_scalar, henv b y hy, hy]
  cases hx : a.scalar with
  | none => simp
  | some x =>
    rw [henv a x hx, Value.Scalar.text_eq_iff]
    simp [eq_comm]

theorem not_same_of_confused (h : Confused env a b) : ¬ a.Same b := by
  obtain ⟨y, hy, ⟨x, hx, hxy⟩ | ⟨hx, -⟩⟩ := h
  · rw [Value.same_iff_scalar]
    rintro ⟨z, ha, hb⟩
    obtain rfl := Option.some.inj (hx.symm.trans ha)
    obtain rfl := Option.some.inj (hy.symm.trans hb)
    exact Value.Scalar.not_confused_self _ hxy
  · rw [Value.same_iff_scalar]
    rintro ⟨z, ha, -⟩
    rw [hx] at ha
    cases ha

end Values

/-! ## Argument maps -/

def Keyed (t : Table) : Prop := (t.map Prod.fst).Nodup

def SameArgs (a b : Table) : Prop := ∀ k, Option.Rel Value.Same (a.get k) (b.get k)

/-- The same keys, and the values of some of them are confused. -/
def ConfusedArgs (env : Env) (a b : Table) : Prop :=
  (∀ k, Option.Rel (fun x y => Value.Same x y ∨ Confused env x y) (a.get k) (b.get k)) ∧
    ∃ k x y, a.get k = some x ∧ b.get k = some y ∧ Confused env x y

section Args

variable {env : Env} {a b : Table}

theorem get_eq_some_iff (h : Keyed a) {k : GoString} {v : Value} :
    a.get k = some v ↔ (k, v) ∈ a := by
  unfold Table.get
  rw [lookup_eq_some_iff]
  constructor
  · rintro ⟨l₁, l₂, rfl, -⟩
    exact mem_append_right _ mem_cons_self
  · intro hmem
    obtain ⟨l₁, l₂, rfl⟩ := append_of_mem hmem
    refine ⟨l₁, l₂, rfl, fun p hp => ?_⟩
    unfold Keyed at h
    rw [map_append, map_cons, nodup_append] at h
    exact bne_iff_ne.mpr (h.2.2 p.1 (mem_map_of_mem hp) k mem_cons_self).symm

theorem get_eq_none_iff {k : GoString} : a.get k = none ↔ k ∉ a.map Prod.fst := by
  unfold Table.get
  rw [lookup_eq_none_iff, mem_map, not_exists]
  refine forall_congr' fun p => ?_
  rw [not_and, bne_iff_ne]
  exact forall_congr' fun _ => not_congr eq_comm

theorem rel_iff {R : Value → Value → Prop} {o o' : Option Value} :
    Option.Rel R o o' ↔
      (o = none ∧ o' = none) ∨ ∃ x y, o = some x ∧ o' = some y ∧ R x y := by
  constructor
  · rintro (h | _)
    · exact .inr ⟨_, _, rfl, rfl, h⟩
    · exact .inl ⟨rfl, rfl⟩
  · rintro (⟨rfl, rfl⟩ | ⟨x, y, rfl, rfl, h⟩)
    · exact .none
    · exact .some h

theorem argsEqual_iff_entries : argsEqual env a b = true ↔
    a.length = b.length ∧
      ∀ kv ∈ a, ∃ y, b.get kv.1 = some y ∧ env.sprint kv.2 = env.sprint y := by
  unfold argsEqual
  rw [Bool.and_eq_true, beq_iff_eq, all_eq_true]
  refine and_congr_right fun _ => forall₂_congr fun kv _ => ?_
  cases b.get kv.1 with
  | none => simp
  | some y => simp

theorem argsEqual_iff (ha : Keyed a) (hb : Keyed b) :
    argsEqual env a b = true ↔
      ∀ k, Option.Rel (fun x y => env.sprint x = env.sprint y) (a.get k) (b.get k) := by
  rw [argsEqual_iff_entries]
  constructor
  · rintro ⟨hlen, hall⟩ k
    have hsub : a.map Prod.fst ⊆ b.map Prod.fst := by
      intro k hk
      obtain ⟨kv, hkv, rfl⟩ := mem_map.mp hk
      obtain ⟨y, hy, -⟩ := hall kv hkv
      by_contra hnot
      rw [get_eq_none_iff.mpr hnot] at hy
      cases hy
    have hperm : (a.map Prod.fst).Perm (b.map Prod.fst) :=
      (subperm_of_subset ha hsub).perm_of_length_le (by simp [hlen])
    cases hx : a.get k with
    | none =>
      have hnone : b.get k = none := by
        rw [get_eq_none_iff, ← hperm.mem_iff]
        exact get_eq_none_iff.mp hx
      rw [hnone]
      exact .none
    | some x =>
      obtain ⟨y, hy, hxy⟩ := hall (k, x) ((get_eq_some_iff ha).mp hx)
      rw [hy]
      exact .some hxy
  · intro hrel
    have hkeys : ∀ k, k ∈ a.map Prod.fst ↔ k ∈ b.map Prod.fst := by
      intro k
      rw [← not_iff_not, ← get_eq_none_iff, ← get_eq_none_iff]
      rcases rel_iff.mp (hrel k) with ⟨hx, hy⟩ | ⟨x, y, hx, hy, -⟩
      · rw [hx, hy]
      · simp [hx, hy]
    have hperm := (perm_ext_iff_of_nodup ha hb).mpr hkeys
    refine ⟨by simpa using hperm.length_eq, fun kv hkv => ?_⟩
    have hget : a.get kv.1 = some kv.2 := (get_eq_some_iff ha).mpr hkv
    rcases rel_iff.mp (hrel kv.1) with ⟨hx, -⟩ | ⟨x, y, hx, hy, hxy⟩
    · rw [hget] at hx
      cases hx
    · rw [hget] at hx
      cases hx
      exact ⟨y, hy, hxy⟩

theorem argsEqual_iff_or (henv : env.PrintsScalars) (ha : Keyed a) (hb : Keyed b)
    (hbasic : ∀ kv ∈ b, kv.2.basic) :
    argsEqual env a b = true ↔ SameArgs a b ∨ ConfusedArgs env a b := by
  have hprint : ∀ k, Option.Rel (fun x y => env.sprint x = env.sprint y) (a.get k) (b.get k) ↔
      Option.Rel (fun x y => Value.Same x y ∨ Confused env x y) (a.get k) (b.get k) := by
    intro k
    rw [rel_iff, rel_iff]
    refine or_congr_right (exists₂_congr fun x y => and_congr_right fun _ =>
      and_congr_right fun hy => ?_)
    exact sprint_eq_iff henv (hbasic (k, y) ((get_eq_some_iff hb).mp hy))
  rw [argsEqual_iff ha hb]
  constructor
  · intro hrel
    by_cases hconf : ∃ k x y, a.get k = some x ∧ b.get k = some y ∧ Confused env x y
    · exact .inr ⟨fun k => (hprint k).mp (hrel k), hconf⟩
    · refine .inl fun k => rel_iff.mpr ?_
      rcases rel_iff.mp ((hprint k).mp (hrel k)) with hnone | ⟨x, y, hx, hy, hsame | hxy⟩
      · exact .inl hnone
      · exact .inr ⟨x, y, hx, hy, hsame⟩
      · exact absurd ⟨k, x, y, hx, hy, hxy⟩ hconf
  · rintro (hsame | ⟨hrel, -⟩) k
    · rw [hprint]
      rcases rel_iff.mp (hsame k) with hnone | ⟨x, y, hx, hy, hxy⟩
      · exact rel_iff.mpr (.inl hnone)
      · exact rel_iff.mpr (.inr ⟨x, y, hx, hy, .inl hxy⟩)
    · exact (hprint k).mpr (hrel k)

theorem not_sameArgs_of_confusedArgs (h : ConfusedArgs env a b) : ¬ SameArgs a b := by
  obtain ⟨-, k, x, y, hx, hy, hxy⟩ := h
  intro hsame
  rcases rel_iff.mp (hsame k) with ⟨hnone, -⟩ | ⟨x', y', hx', hy', hsame'⟩
  · rw [hx] at hnone
    cases hnone
  · obtain rfl := Option.some.inj (hx.symm.trans hx')
    obtain rfl := Option.some.inj (hy.symm.trans hy')
    exact not_same_of_confused hxy hsame'

end Args

/-! ## The two managers -/

namespace Server

variable (env : Env) (s : Server)

def QueueExact (name : GoString) (q : Queue) (durable exclusive autoDelete : Bool)
    (args : Table) : Prop :=
  (s.declareQueue env name durable exclusive autoDelete args).1.isSome ↔
    (q.durable = durable ∧ q.exclusive = exclusive ∧ q.autoDelete = autoDelete) ∧
      SameArgs q.args args

def ExchangeExact (name : GoString) (x : Exchange) (exType : ExchangeType)
    (durable autoDelete internal : Bool) (args : Table) : Prop :=
  (s.declareExchange name exType durable autoDelete internal args).1.isSome ↔
    x.type = exType ∧ (x.durable = durable ∧ x.autoDelete = autoDelete ∧ x.internal = internal) ∧
      SameArgs x.args args

variable {env s}

theorem declareQueue_isSome {name : GoString} {q : Queue} (hq : s.queues.get name = some q)
    (durable exclusive autoDelete : Bool) (args : Table) :
    (s.declareQueue env name durable exclusive autoDelete args).1.isSome ↔
      (q.durable = durable ∧ q.exclusive = exclusive ∧ q.autoDelete = autoDelete) ∧
        argsEqual env q.args args = true := by
  unfold declareQueue Queue.matchArgs
  rw [hq]
  dsimp only
  split
  · rename_i h
    simpa [and_assoc] using h
  · rename_i h
    simpa [and_assoc] using h

theorem declareExchange_isSome {name : GoString} {x : Exchange}
    (hx : s.exchanges.get name = some x) (exType : ExchangeType)
    (durable autoDelete internal : Bool) (args : Table) :
    (s.declareExchange name exType durable autoDelete internal args).1.isSome ↔
      x.type = exType := by
  unfold declareExchange
  rw [hx]
  dsimp only
  split
  · rename_i h
    simpa using h
  · rename_i h
    simpa using h

theorem queueExact_iff (henv : env.PrintsScalars) {name : GoString} {q : Queue}
    (hq : s.queues.get name = some q) (hkeys : Keyed q.args) (durable exclusive autoDelete : Bool)
    {args : Table} (hargs : Keyed args) (hbasic : ∀ kv ∈ args, kv.2.basic) :
    s.QueueExact env name q durable exclusive autoDelete args ↔
      ¬ ((q.durable = durable ∧ q.exclusive = exclusive ∧ q.autoDelete = autoDelete) ∧
        ConfusedArgs env q.args args) := by
  have hexcl : ConfusedArgs env q.args args → ¬ SameArgs q.args args :=
    not_sameArgs_of_confusedArgs
  unfold QueueExact
  rw [declareQueue_isSome hq, argsEqual_iff_or henv hkeys hargs hbasic]
  constructor
  · rintro h ⟨hflags, hconfused⟩
    exact hexcl hconfused (h.mp ⟨hflags, .inr hconfused⟩).2
  · intro h
    constructor
    · rintro ⟨hflags, hsame⟩
      exact ⟨hflags, hsame.resolve_right fun hconfused => h ⟨hflags, hconfused⟩⟩
    · rintro ⟨hflags, hsame⟩
      exact ⟨hflags, .inl hsame⟩

theorem exchangeExact_iff {name : GoString} {x : Exchange} (hx : s.exchanges.get name = some x)
    (exType : ExchangeType) (durable autoDelete internal : Bool) (args : Table) :
    s.ExchangeExact name x exType durable autoDelete internal args ↔
      (x.type = exType →
        (x.durable = durable ∧ x.autoDelete = autoDelete ∧ x.internal = internal) ∧
          SameArgs x.args args) := by
  unfold ExchangeExact
  rw [declareExchange_isSome hx]
  exact ⟨fun h htype => (h.mp htype).2, fun h => ⟨fun htype => ⟨htype, h htype⟩, fun h' => h'.1⟩⟩

end Server

/-- For every existing queue and exchange and every declaration of them with strings, booleans and
integers for arguments: the check of the queue manager is exact unless only confused arguments stand
between the two, and that of the exchange manager unless the types agree and something else does
not. -/
theorem redeclare_exact_iff (env : Env) (henv : env.PrintsScalars) (s : Server)
    (name : GoString) (args : Table) (hargs : Keyed args) (hbasic : ∀ kv ∈ args, kv.2.basic)
    (durable exclusive autoDelete internal : Bool) (exType : ExchangeType) :
    (∀ q, s.queues.get name = some q → Keyed q.args →
      (s.QueueExact env name q durable exclusive autoDelete args ↔
        ¬ ((q.durable = durable ∧ q.exclusive = exclusive ∧ q.autoDelete = autoDelete) ∧
          ConfusedArgs env q.args args))) ∧
      ∀ x, s.exchanges.get name = some x →
        (s.ExchangeExact name x exType durable autoDelete internal args ↔
          (x.type = exType →
            (x.durable = durable ∧ x.autoDelete = autoDelete ∧ x.internal = internal) ∧
              SameArgs x.args args)) :=
  ⟨fun _ hq hkeys =>
      Server.queueExact_iff henv hq hkeys durable exclusive autoDelete hargs hbasic,
    fun _ hx => Server.exchangeExact_iff hx exType durable autoDelete internal args⟩

/-! ## A string for a number -/

def documented : Env :=
  { (default : Env) with
    sprint := fun v =>
      match v.scalar with
      | some x => x.text
      | none => [] }

theorem printsScalars_documented : documented.PrintsScalars := by
  intro v x h
  show (match v.scalar with | some x => x.text | none => []) = x.text
  rw [h]

def fiveQueue : Queue :=
  ⟨str "q", true, false, false, [(str "x-max-length", .int32 5)], none⟩

def fiveServer : Server := { newServer with queues := GoMap.set ∅ (str "q") fiveQueue }

theorem redeclare_exact_five :
    documented.PrintsScalars ∧ Keyed fiveQueue.args ∧
      (∀ kv ∈ fiveQueue.args, kv.2.basic) ∧
      fiveServer.queues.get (str "q") = some fiveQueue ∧
      fiveServer.QueueExact documented (str "q") fiveQueue true false false
        fiveQueue.args := by
  have hkeyed : Keyed fiveQueue.args := nodup_singleton _
  have hbasic : ∀ kv ∈ fiveQueue.args, kv.2.basic := by decide
  refine ⟨printsScalars_documented, hkeyed, hbasic, rfl, ?_⟩
  refine ((redeclare_exact_iff documented printsScalars_documented fiveServer (str "q")
    fiveQueue.args hkeyed hbasic true false false false .direct).1 fiveQueue rfl
    hkeyed).mpr ?_
  rintro ⟨-, -, k, x, y, hx, hy, hxy⟩
  obtain rfl := Option.some.inj (hx.symm.trans hy)
  obtain ⟨z, hz, -⟩ := id hxy
  exact not_same_of_confused hxy (Value.same_iff_scalar.mpr ⟨z, hz, hz⟩)

/-- The string `5` passes for the number, and an exchange for one that is not durable. -/
theorem redeclare_passes :
    (fiveServer.declareQueue documented (str "q") true false false
        [(str "x-max-length", .string (str "5"))]).1.isSome ∧
      ¬ SameArgs fiveQueue.args [(str "x-max-length", .string (str "5"))] ∧
      (newServer.declareExchange (str "amq.direct") .direct false false false []).1.isSome ∧
      (newServer.exchanges.get (str "amq.direct")).map Exchange.durable = some true := by
  have hfive : documented.sprint (.int32 5) = str "5" := by
    show intDecimal 5 = str "5"
    simp only [intDecimal, natDecimal]
    norm_num
    decide
  refine ⟨?_, fun hsame => ?_, by decide, by decide⟩
  · refine (Server.declareQueue_isSome (q := fiveQueue) rfl ..).mpr ⟨⟨rfl, rfl, rfl⟩, ?_⟩
    show (true && (documented.sprint (.int32 5) == documented.sprint (.string (str "5")) && true)) =
      true
    rw [hfive]
    decide
  · rcases rel_iff.mp (hsame (str "x-max-length")) with ⟨hnone, -⟩ | ⟨x, y, hx, hy, hxy⟩
    · cases hnone
    · cases hx
      cases hy
      rw [Value.same_iff_scalar] at hxy
      obtain ⟨z, hz, hz'⟩ := hxy
      rw [← hz] at hz'
      cases hz'

end Gomq.Broker
