import Gomq.Lib.BoundedLog
import Gomq.Broker.Message

/-!
# The audit log and the message tracer

Two bounded logs that differ in what they record. The limit of each can be changed while the server
runs; a limit below the number of stored records is not enforced by the records that follow, which
drop one old record each.
-/

namespace Gomq.Broker

/-- The time stamp of a record: a zero one is replaced. -/
def stampTime (now : ℕ) (t : Time) : Time := if t = none then some now else t

/-! ## The audit log -/

structure AuditEvent where
  timestamp : Time
  level : GoString
  category : GoString
  action : GoString
  user : GoString
  remote : GoString
  vhost : GoString
  detail : GoString
  success : Bool
  deriving DecidableEq

def AuditEvent.stamp (now : ℕ) (e : AuditEvent) : AuditEvent :=
  { e with timestamp := stampTime now e.timestamp }

abbrev AuditLog := BoundedLog AuditEvent

def newAuditLog (enabled : Bool) (size : ℤ) : AuditLog := BoundedLog.new enabled size

namespace AuditLog

abbrev Call := BoundedLog.Call ℕ AuditEvent

def record (a : AuditLog) (now : ℕ) (e : AuditEvent) : AuditLog :=
  BoundedLog.record AuditEvent.stamp a now e

def setMaxSize (a : AuditLog) (n : ℤ) : AuditLog := BoundedLog.setMaxSize a n

def setEnabled (a : AuditLog) (v : Bool) : AuditLog := BoundedLog.setEnabled a v

def step (a : AuditLog) : Call → AuditLog
  | .record now e => a.record now e
  | .setMaxSize n => a.setMaxSize n
  | .setEnabled v => a.setEnabled v

theorem step_eq : step = BoundedLog.step AuditEvent.stamp := by
  funext a c
  cases c <;> rfl

end AuditLog

/-! ## The message tracer -/

structure MessageTrace where
  messageID : GoString
  exchange : GoString
  routingKey : GoString
  queue : GoString
  stage : GoString
  nodeID : GoString
  timestamp : Time
  detail : GoString
  deriving DecidableEq

def MessageTrace.stamp (now : ℕ) (tr : MessageTrace) : MessageTrace :=
  { tr with timestamp := stampTime now tr.timestamp }

abbrev MessageTracer := BoundedLog MessageTrace

def newMessageTracer (enabled : Bool) (size : ℤ) : MessageTracer := BoundedLog.new enabled size

namespace MessageTracer

abbrev Call := BoundedLog.Call ℕ MessageTrace

def record (t : MessageTracer) (now : ℕ) (tr : MessageTrace) : MessageTracer :=
  BoundedLog.record MessageTrace.stamp t now tr

def setMaxSize (t : MessageTracer) (n : ℤ) : MessageTracer := BoundedLog.setMaxSize t n

def setEnabled (t : MessageTracer) (v : Bool) : MessageTracer := BoundedLog.setEnabled t v

def step (t : MessageTracer) : Call → MessageTracer
  | .record now tr => t.record now tr
  | .setMaxSize n => t.setMaxSize n
  | .setEnabled v => t.setEnabled v

theorem step_eq : step = BoundedLog.step MessageTrace.stamp := by
  funext t c
  cases c <;> rfl

end MessageTracer

/-! ## What the logs keep -/

/-- Every record that the run makes under a limit leaves the newest records. -/
def AuditLog.KeepsNewest (a : AuditLog) (calls : List AuditLog.Call) : Prop :=
  Along AuditLog.step (BoundedLog.KeepsNewest AuditEvent.stamp) a calls

/-- No record of the run finds the log over its limit. -/
def AuditLog.Within (a : AuditLog) (calls : List AuditLog.Call) : Prop :=
  Along AuditLog.step BoundedLog.Within a calls

@[inherit_doc AuditLog.KeepsNewest]
def MessageTracer.KeepsNewest (t : MessageTracer) (calls : List MessageTracer.Call) : Prop :=
  Along MessageTracer.step (BoundedLog.KeepsNewest MessageTrace.stamp) t calls

@[inherit_doc AuditLog.Within]
def MessageTracer.Within (t : MessageTracer) (calls : List MessageTracer.Call) : Prop :=
  Along MessageTracer.step BoundedLog.Within t calls

/-- The two logs keep their newest records during a run exactly if no record of it is made while
more are stored than the limit allows. -/
theorem logs_keepsNewest_iff (a : AuditLog) (auditCalls : List AuditLog.Call) (t : MessageTracer)
    (traceCalls : List MessageTracer.Call) :
    (a.KeepsNewest auditCalls ↔ a.Within auditCalls) ∧
      (t.KeepsNewest traceCalls ↔ t.Within traceCalls) :=
  ⟨Along.congr (BoundedLog.keepsNewest_iff AuditEvent.stamp) a auditCalls,
    Along.congr (BoundedLog.keepsNewest_iff MessageTrace.stamp) t traceCalls⟩

def blankEvent : AuditEvent := ⟨none, [], [], [], [], [], [], [], true⟩

def blankTrace : MessageTrace := ⟨[], [], [], [], [], [], none, []⟩

/-- Three records without a limit, a limit of one, and a fourth record: three are stored. -/
theorem logs_over_limit :
    (¬ (newAuditLog true 0).KeepsNewest [.record 1 blankEvent, .record 2 blankEvent,
      .record 3 blankEvent, .setMaxSize 1, .record 4 blankEvent]) ∧
    ¬ (newMessageTracer true 0).KeepsNewest [.record 1 blankTrace, .record 2 blankTrace,
      .record 3 blankTrace, .setMaxSize 1, .record 4 blankTrace] := by
  unfold AuditLog.KeepsNewest MessageTracer.KeepsNewest
  decide

/-- A log keeps its newest records as long as its limit is not changed. -/
theorem AuditLog.keepsNewest_of_kept (enabled : Bool) (size : ℤ) {calls : List AuditLog.Call}
    (h : ∀ c ∈ calls, ∀ n, c ≠ .setMaxSize n) : (newAuditLog enabled size).KeepsNewest calls := by
  unfold AuditLog.KeepsNewest
  rw [step_eq]
  exact BoundedLog.new_keepsNewest AuditEvent.stamp enabled size h

@[inherit_doc AuditLog.keepsNewest_of_kept]
theorem MessageTracer.keepsNewest_of_kept (enabled : Bool) (size : ℤ)
    {calls : List MessageTracer.Call} (h : ∀ c ∈ calls, ∀ n, c ≠ .setMaxSize n) :
    (newMessageTracer enabled size).KeepsNewest calls := by
  unfold MessageTracer.KeepsNewest
  rw [step_eq]
  exact BoundedLog.new_keepsNewest MessageTrace.stamp enabled size h

end Gomq.Broker
