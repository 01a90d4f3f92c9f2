import Gomq.Broker.Effects

/-!
# What publishing writes into messages

A publish stamps the message it stores with the time, a hand-over gives it a delivery tag, and a
dead letter gets a header. `Keeps f` says that `f` reads the same from every message before and
after. Publishing keeps what depends on neither tag nor time (`Stampless`) nor on the headers
(`keeps_publish`); without dead letters it keeps the headers too (`keeps_publishTo`).
-/

namespace Gomq.Broker

open Wire

/-- Delivery tag and enqueue time make no difference to `f`. -/
structure Stampless {α : Type} (f : Message → α) : Prop where
  tag : ∀ m t, f (m.setDeliveryTag t) = f m
  time : ∀ m t, f (m.setEnqueuedAt t) = f m

theorem stampless_payload : Stampless Message.payload := ⟨fun _ _ => rfl, fun _ _ => rfl⟩

theorem stampless_priority : Stampless fun m : Message => m.properties.priority :=
  ⟨fun _ _ => rfl, fun _ _ => rfl⟩

theorem stampless_headers : Stampless fun m : Message => m.properties.headers :=
  ⟨fun _ _ => rfl, fun _ _ => rfl⟩

theorem stampless_marks : Stampless fun m : Message => (m.routingKey, m.properties.headers) :=
  ⟨fun _ _ => rfl, fun _ _ => rfl⟩

namespace Server

def Keeps {α : Type} (f : Message → α) (s s' : Server) : Prop :=
  ∀ m, f (s'.msgs.read m) = f (s.msgs.read m)

section Keeps

variable {α : Type} {f : Message → α}

theorem Keeps.of_msgs {s s' : Server} (h : s'.msgs = s.msgs) : Keeps f s s' := by
  intro m
  rw [h]

theorem Keeps.refl (s : Server) : Keeps f s s := .of_msgs rfl

theorem Keeps.trans {s s' s'' : Server} (h : Keeps f s s') (h' : Keeps f s' s'') :
    Keeps f s s'' := fun m => (h' m).trans (h m)

theorem Keeps.foldl {β : Type} {g : Server → β → Server} (hg : ∀ s b, Keeps f s (g s b))
    (l : List β) (s : Server) : Keeps f s (l.foldl g s) := by
  induction l generalizing s with
  | nil => exact .refl s
  | cons b l ih => exact (hg s b).trans (ih (g s b))

theorem keeps_modifyMsg (s : Server) (r : MsgRef) {g : Message → Message}
    (hg : ∀ m, f (g m) = f m) : Keeps f s (s.modifyMsg r g) := by
  intro m
  exact Heap.part_read_modify f g hg

theorem keeps_dequeue (s : Server) (qn : GoString) : Keeps f s (s.dequeue qn).2 := by
  unfold dequeue
  split <;> exact .refl s

theorem keeps_storeIn (s : Server) (qn : GoString) (args : Table) (msg : MsgRef) :
    Keeps f s (s.storeIn qn args msg) := by
  unfold storeIn
  split <;> exact .refl s

section Stampless

variable (hf : Stampless f)

include hf

theorem keeps_deliverTo (s : Server) (msg : MsgRef) (k : Consumer) (qn : GoString) (c : UInt16) :
    Keeps f s (s.deliverTo msg k qn c) := by
  have htag := keeps_modifyMsg (f := f) s msg fun m => hf.tag m 0
  refine htag.trans (.of_msgs ?_)
  unfold deliverTo
  cases k.channel <;> rfl

theorem keeps_deliver (env : Env) (s : Server) (msg : MsgRef) (qn : GoString) (c : UInt16) :
    Keeps f s (s.deliver env msg qn c) := by
  rw [deliver_eq]
  refine (Keeps.foldl (fun u gid => ?_) _ s).trans
    (Keeps.foldl (fun u k => keeps_deliverTo hf u msg k qn c) _ _)
  -- choosing a member moves a counter of its group only
  have hsel : ((u.selectMember (s.getConsumers qn) gid (u.msgs.read msg).routingKey).2).msgs =
      u.msgs := by
    unfold selectMember
    split <;> rfl
  unfold deliverGroup
  rcases h : u.selectMember (s.getConsumers qn) gid (u.msgs.read msg).routingKey with ⟨_ | k, v⟩
  · rw [h] at hsel; exact .of_msgs hsel
  · rw [h] at hsel; exact (Keeps.of_msgs hsel).trans (keeps_deliverTo hf v msg k qn c)

theorem keeps_storeAndDeliver (env : Env) (msg : MsgRef) (c : UInt16) (qn : GoString)
    (args : Table) (s : Server) : Keeps f s (storeAndDeliver env msg c qn args s) := by
  have hstore := (keeps_modifyMsg (f := f) s msg fun m => hf.time m (some env.now)).trans
    (keeps_storeIn _ qn args msg)
  unfold storeAndDeliver
  dsimp only
  split
  · exact hstore
  · exact hstore.trans (keeps_deliver hf env _ msg qn c)

theorem keeps_publishTo {dl : MsgRef → Table → Server → Server}
    (hdl : ∀ m args s, Keeps f s (dl m args s)) (env : Env) (chk : Bool) (msg : MsgRef)
    (c : UInt16) (s : Server) (qn : GoString) : Keeps f s (publishTo env dl chk msg c s qn) :=
  publishTo_inv (P := Keeps f s) (.refl s)
    (fun q _ _ => evictOldest_inv (P := Keeps f s) (.refl s) (keeps_dequeue s qn)
      fun o u hu => hu.trans (hdl o q.args u))
    fun q _ u hu => hu.trans (keeps_storeAndDeliver hf env msg c qn q.args u)

theorem keeps_publishInternal {dl : MsgRef → Table → Server → Server}
    (hdl : ∀ m args s, Keeps f s (dl m args s)) (env : Env) (chk : Bool) (msg : MsgRef)
    (c : UInt16) (fuel : ℕ) (ex key : GoString) (vis : List GoString) (s : Server) :
    Keeps f s (publishInternal env dl chk msg c fuel ex key vis s).1 :=
  publishInternal_inv (P := Keeps f s)
    (fun u qn hu => hu.trans (keeps_publishTo hf hdl env chk msg c u qn)) fuel ex key vis s
    (.refl s)

theorem keeps_deadLetter
    (hh : ∀ m h, f { m with properties := { m.properties with headers := h } } = f m) (env : Env)
    (msg : MsgRef) (args : Table) (s : Server) : Keeps f s (deadLetter env msg args s) :=
  deadLetter_inv (P := Keeps f s) (.refl s) (fun _ => keeps_modifyMsg s msg fun m => hh m _)
    fun qn args u hu => hu.trans (keeps_storeAndDeliver hf env msg 0 qn args u)

theorem keeps_publish
    (hh : ∀ m h, f { m with properties := { m.properties with headers := h } } = f m) (env : Env)
    (s : Server) (ex key : GoString) (msg : MsgRef) (c : UInt16) :
    Keeps f s (s.publish env ex key msg c).2 :=
  publish_inv (P := Keeps f s) (.refl s)
    (fun u qn hu => hu.trans (keeps_publishTo hf (keeps_deadLetter hf hh env) env true msg c u qn))
    fun _ _ hu => hu

end Stampless

end Keeps

end Server

end Gomq.Broker
