import Gomq.Lib.Index
import Gomq.Broker.Consumers

/-!
# The consumer registry

Two managers keep five indexes: consumers by tag and by queue, groups by id and by queue, and the
members of each group. Four of them are secondary indexes in the sense of `Gomq.Index` and are kept
together in `Registry`, which every operation preserves.
-/

namespace Gomq.Broker

open Wire ConsumerGroupManager

/-! ## The operations -/

namespace Server

/-- The argument that exempts a consumer from `CancelByChannel`. -/
def keptOnFailover (args : Table) : Bool :=
  match args.get (str "x-cancel-on-ha-failover") with
  | some (.bool cancel) => !cancel
  | _ => false

/-- One round of `CancelByChannel`; what it does to a consumer is what `Unsubscribe` does. -/
def cancelConsumer (env : Env) (ch : Option ChanRef) (acc : ℕ × Server) (tag : GoString) :
    ℕ × Server :=
  match acc.2.consumers.byTag.get tag with
  | none => acc
  | some c =>
    if c.channel ≠ ch then acc
    else if keptOnFailover c.args then acc
    else (acc.1 + 1, acc.2.unsubscribe env tag)

/-- `CancelByChannel`: the number of consumers removed. -/
def cancelByChannel (env : Env) (s : Server) (ch : Option ChanRef) : ℕ × Server :=
  (env.nameOrder s.consumers.byTag.keys).foldl (cancelConsumer env ch) (0, s)

theorem cancelByChannel_inv {P : Server → Prop} {env : Env} {s : Server} {ch : Option ChanRef}
    (hs : P s) (hP : ∀ u tag, P u → P (u.unsubscribe env tag)) :
    P (s.cancelByChannel env ch).2 := by
  unfold cancelByChannel
  refine List.foldlRecOn (motive := fun acc : ℕ × Server => P acc.2) _ _ hs ?_
  intro acc hacc tag _
  unfold cancelConsumer
  split
  · exact hacc
  · split
    · exact hacc
    · split
      · exact hacc
      · exact hP acc.2 tag hacc

end Server

inductive ConsumerOp where
  | subscribe (tag queueName : GoString) (ch : Option ChanRef) (autoAck exclusive : Bool)
      (args : Table)
  | unsubscribe (tag : GoString)
  | cancelByChannel (ch : Option ChanRef)

def consumerStep (s : Server) : Env × ConsumerOp → Server
  | (_, .subscribe tag queueName ch autoAck exclusive args) =>
    (s.subscribe tag queueName ch autoAck exclusive args).2
  | (env, .unsubscribe tag) => s.unsubscribe env tag
  | (env, .cancelByChannel ch) => (s.cancelByChannel env ch).2

/-! ## The invariant -/

namespace ConsumerManager

def Registered (m : ConsumerManager) (c : Consumer) : Prop := m.byTag.get c.tag = some c

def queue (m : ConsumerManager) (q : GoString) : List Consumer := m.byQueue.getD q []

end ConsumerManager

namespace ConsumerGroupManager

def Live (m : ConsumerGroupManager) (g : GroupRef) : Prop := ∃ id, m.byID.get id = some g

def members (m : ConsumerGroupManager) (id : GoString) : List Consumer :=
  match m.byID.get id with
  | some g => (m.heap.read g).members
  | none => []

def groups (m : ConsumerGroupManager) (q : GoString) : List GroupRef := m.byQueue.getD q []

/-- The group manager on its own: the groups know their ids, none is empty, and the members are the
consumers of `R`, each under its group id. -/
structure Groups (m : ConsumerGroupManager) (R : Consumer → Prop) : Prop where
  group : ∀ id g, m.byID.get id = some g →
    g < m.heap.next ∧ (m.heap.read g).id = id ∧ (m.heap.read g).members ≠ []
  members : Index Consumer.tag Consumer.groupID R m.members
  queues : Index (fun g => (m.heap.read g).id) (fun g => (m.heap.read g).queue) m.Live m.groups

end ConsumerGroupManager

/-- What every operation on the two managers keeps. -/
structure Registry (m : ConsumerManager) (gm : ConsumerGroupManager) : Prop where
  keyed : ∀ tag c, m.byTag.get tag = some c → c.tag = tag
  queues : Index Consumer.tag Consumer.queueName m.Registered m.queue
  groups : gm.Groups fun c => m.Registered c ∧ c.groupID ≠ []

namespace ConsumerGroupManager

variable {gm : ConsumerGroupManager} {R R' : Consumer → Prop} {c : Consumer}

theorem Groups.byID_inj (h : gm.Groups R) {id id' : GoString} {g : GroupRef}
    (hg : gm.byID.get id = some g) (hg' : gm.byID.get id' = some g) : id = id' := by
  rw [← (h.group id g hg).2.1, (h.group id' g hg').2.1]

theorem Groups.live_iff (h : gm.Groups R) {g : GroupRef} :
    gm.Live g ↔ gm.byID.get (gm.heap.read g).id = some g := by
  constructor
  · rintro ⟨id, hg⟩
    rwa [(h.group id g hg).2.1]
  · exact fun hg => ⟨_, hg⟩

theorem members_of_get {id : GoString} {g : GroupRef} (h : gm.byID.get id = some g) :
    gm.members id = (gm.heap.read g).members := by
  unfold members
  rw [h]

theorem members_of_none {id : GoString} (h : gm.byID.get id = none) : gm.members id = [] := by
  unfold members
  rw [h]

theorem members_congr {gm' : ConsumerGroupManager} {id : GoString}
    (hget : gm'.byID.get id = gm.byID.get id)
    (hmem : ∀ g, gm.byID.get id = some g → (gm'.heap.read g).members = (gm.heap.read g).members) :
    gm'.members id = gm.members id := by
  unfold members
  rw [hget]
  cases hg : gm.byID.get id with
  | none => rfl
  | some g => exact hmem g hg

def withMembers (m : ConsumerGroupManager) (g : GroupRef) (l : List Consumer) :
    ConsumerGroupManager :=
  { m with heap := m.heap.modify g fun x => { x with members := l } }

section WithMembers

variable (gm) (g g' : GroupRef) (l : List Consumer)

@[simp] theorem id_withMembers :
    ((gm.withMembers g l).heap.read g').id = (gm.heap.read g').id :=
  Heap.part_read_modify ConsumerGroup.id (fun x => { x with members := l }) fun _ => rfl

@[simp] theorem queue_withMembers :
    ((gm.withMembers g l).heap.read g').queue = (gm.heap.read g').queue :=
  Heap.part_read_modify ConsumerGroup.queue (fun x => { x with members := l }) fun _ => rfl

theorem members_withMembers_self : ((gm.withMembers g l).heap.read g).members = l := by
  simp [withMembers]

theorem members_withMembers_ne (h : g' ≠ g) :
    ((gm.withMembers g l).heap.read g').members = (gm.heap.read g').members := by
  simp [withMembers, h]

end WithMembers

theorem members_withMembers {id : GoString} {g : GroupRef} (h : gm.byID.get id = some g)
    (l : List Consumer) : (gm.withMembers g l).members id = l := by
  have hget : (gm.withMembers g l).byID.get id = some g := h
  rw [members_of_get hget, members_withMembers_self]

theorem Groups.members_other (h : gm.Groups R) {g : GroupRef} {id k : GoString}
    (hg : gm.byID.get id = some g) (hk : k ≠ id) (l : List Consumer) :
    (gm.withMembers g l).members k = gm.members k :=
  members_congr rfl fun g' hg' => members_withMembers_ne gm g g' l fun heq =>
    hk (h.byID_inj hg' (heq ▸ hg))

theorem Groups.queues_withMembers (h : gm.Groups R) (g : GroupRef) (l : List Consumer) :
    Index (fun g' => ((gm.withMembers g l).heap.read g').id)
      (fun g' => ((gm.withMembers g l).heap.read g').queue) gm.Live gm.groups :=
  h.queues.congr (fun _ _ => id_withMembers ..) (fun _ _ => queue_withMembers ..)

theorem Groups.change (h : gm.Groups R) {g : GroupRef} {l : List Consumer} (hl : l ≠ [])
    (hmem : Index Consumer.tag Consumer.groupID R' (gm.withMembers g l).members) :
    (gm.withMembers g l).Groups R' where
  group id' g' hg' := by
    obtain ⟨hlt, hid, hne⟩ := h.group id' g' hg'
    refine ⟨hlt, by rw [id_withMembers, hid], ?_⟩
    by_cases heq : g' = g
    · rw [heq, members_withMembers_self]
      exact hl
    · rwa [members_withMembers_ne gm g g' l heq]
  members := hmem
  queues := h.queues_withMembers g l

def register (m : ConsumerGroupManager) (new : ConsumerGroup) : ConsumerGroupManager where
  heap := m.heap.alloc new
  byID := m.byID.set new.id m.heap.next
  byQueue := m.byQueue.set new.queue (m.groups new.queue ++ [m.heap.next])

theorem live_register {new : ConsumerGroup} (hget : gm.byID.get new.id = none) (g : GroupRef) :
    (gm.register new).Live g ↔ gm.Live g ∨ g = gm.heap.next := by
  constructor
  · rintro ⟨id, hg⟩
    have hg' : (gm.byID.set new.id gm.heap.next).get id = some g := hg
    rw [GoMap.get_set] at hg'
    split at hg'
    · exact .inr (Option.some.inj hg').symm
    · exact .inl ⟨id, hg'⟩
  · rintro (⟨id, hg⟩ | rfl)
    · have hid : id ≠ new.id := fun heq => by rw [heq, hget] at hg; cases hg
      exact ⟨id, (GoMap.get_set_ne hid).trans hg⟩
    · exact ⟨new.id, GoMap.get_set_self ..⟩

theorem Groups.register (h : gm.Groups R) {new : ConsumerGroup} (hget : gm.byID.get new.id = none)
    (hne : new.members ≠ [])
    (hmem : Index Consumer.tag Consumer.groupID R' (gm.register new).members) :
    (gm.register new).Groups R' := by
  have hself : (gm.register new).heap.read gm.heap.next = new := Heap.read_alloc_self _ _
  have hold : ∀ {g}, gm.Live g → (gm.register new).heap.read g = gm.heap.read g := by
    rintro g ⟨id, hg⟩
    exact Heap.read_alloc_ne (h.group id g hg).1.ne
  refine ⟨fun id g hg => ?_, hmem, ?_⟩
  · have hg' : (gm.byID.set new.id gm.heap.next).get id = some g := hg
    rw [GoMap.get_set] at hg'
    by_cases hid : id = new.id
    · rw [if_pos hid] at hg'
      cases hg'
      rw [hself]
      exact ⟨Nat.lt_succ_self _, hid.symm, hne⟩
    · rw [if_neg hid] at hg'
      obtain ⟨hlt, hrest⟩ := h.group id g hg'
      rw [hold ⟨id, hg'⟩]
      exact ⟨Nat.lt_succ_of_lt hlt, hrest⟩
  · have hqueues : Index (fun g => ((gm.register new).heap.read g).id)
        (fun g => ((gm.register new).heap.read g).queue) gm.Live gm.groups :=
      h.queues.congr (fun g hg => by rw [hold hg]) (fun g hg => by rw [hold hg])
    refine hqueues.add (fun g hg => ?_) (live_register hget) ?_ fun q hq => ?_
    · rw [hself, hold hg]
      intro heq
      rw [h.live_iff, heq, hget] at hg
      cases hg
    · rw [hself]
      exact GoMap.getD_set_self ..
    · rw [hself] at hq
      exact GoMap.getD_set_ne hq

theorem join_of_get {g : GroupRef} {id : GoString} (hget : gm.byID.get id = some g)
    (queue strategy : GoString) :
    gm.join id queue c strategy = gm.withMembers g ((gm.heap.read g).members ++ [c]) := by
  unfold join
  rw [hget]
  rfl

theorem join_of_none {id : GoString} (hget : gm.byID.get id = none) (queue strategy : GoString) :
    gm.join id queue c strategy =
      gm.register { newConsumerGroup id queue strategy with members := [c] } := by
  unfold join
  rw [hget]
  rfl

theorem Groups.join (h : gm.Groups R) (hnew : ∀ x, R x → x.tag ≠ c.tag)
    (hR : ∀ x, R' x ↔ R x ∨ x = c) (queue strategy : GoString) :
    (gm.join c.groupID queue c strategy).Groups R' := by
  cases hget : gm.byID.get c.groupID with
  | some g =>
    rw [join_of_get hget]
    refine h.change (by simp) (h.members.add hnew hR ?_ fun k hk => h.members_other hget hk _)
    rw [members_withMembers hget, members_of_get hget]
  | none =>
    rw [join_of_none hget]
    refine h.register hget (by simp) (h.members.add hnew hR ?_ fun k hk => ?_)
    · rw [members_of_none hget]
      exact (members_of_get (GoMap.get_set_self ..)).trans (congrArg _ (Heap.read_alloc_self _ _))
    · refine members_congr (GoMap.get_set_ne hk) fun g hg => congrArg _ ?_
      exact Heap.read_alloc_ne (h.group k g hg).1.ne

def unregister (m : ConsumerGroupManager) (id queue : GoString) : ConsumerGroupManager :=
  { m with
    byID := m.byID.del id
    byQueue := m.byQueue.set queue ((m.groups queue).eraseP fun r => (m.heap.read r).id == id) }

theorem Groups.byID_del (h : gm.Groups R) {g g' : GroupRef} {id id' : GoString}
    (hg : gm.byID.get id = some g) :
    (gm.byID.del id).get id' = some g' ↔ gm.byID.get id' = some g' ∧ g' ≠ g := by
  rw [GoMap.get_del]
  constructor
  · intro h'
    split at h'
    · cases h'
    · rename_i hne
      exact ⟨h', fun heq => hne (h.byID_inj h' (heq ▸ hg))⟩
  · rintro ⟨hg', hne⟩
    rw [if_neg, hg']
    rintro rfl
    exact hne (Option.some.inj (hg'.symm.trans hg))

theorem Groups.unregister (h : gm.Groups R) {g : GroupRef} {id : GoString}
    (hg : gm.byID.get id = some g) (l : List Consumer)
    (hmem : Index Consumer.tag Consumer.groupID R'
      ((gm.withMembers g l).unregister id (gm.heap.read g).queue).members) :
    ((gm.withMembers g l).unregister id (gm.heap.read g).queue).Groups R' := by
  have hid : (gm.heap.read g).id = id := (h.group id g hg).2.1
  refine ⟨fun id' g' hg' => ?_, hmem, ?_⟩
  · obtain ⟨hg', hne⟩ := (h.byID_del hg).mp hg'
    obtain ⟨hlt, hid', hmem'⟩ := h.group id' g' hg'
    refine ⟨hlt, (id_withMembers ..).trans hid', ?_⟩
    rwa [← members_withMembers_ne gm g g' l hne] at hmem'
  · refine (h.queues_withMembers g l).remove (x := g) (fun g' hg' heq => ?_) (fun g' => ?_) ?_
      fun q hq => ?_
    · rw [id_withMembers, id_withMembers, hid] at heq
      rw [h.live_iff, heq, hg] at hg'
      exact (Option.some.inj hg').symm
    · constructor
      · rintro ⟨id', hg'⟩
        obtain ⟨hg', hne⟩ := (h.byID_del hg).mp hg'
        exact ⟨⟨id', hg'⟩, hne⟩
      · rintro ⟨⟨id', hg'⟩, hne⟩
        exact ⟨id', (h.byID_del hg).mpr ⟨hg', hne⟩⟩
    · rw [queue_withMembers, id_withMembers, hid]
      exact GoMap.getD_set_self ..
    · rw [queue_withMembers] at hq
      exact GoMap.getD_set_ne hq

theorem find?_eq_of_iff {α : Type} {l : List α} {p : α → Bool} {a : α} (ha : a ∈ l)
    (h : ∀ x, p x = true ↔ x = a) : l.find? p = some a := by
  cases hfind : l.find? p with
  | none => exact absurd ((h a).mpr rfl) (List.find?_eq_none.mp hfind a ha)
  | some x => rw [(h x).mp (List.find?_some hfind)]

/-- Whatever the order, the group found is the one under the consumer's group id. -/
theorem Groups.leave_eq (h : gm.Groups R) (hc : R c) (hinj : ∀ x, R x → x.tag = c.tag → x = c)
    {g : GroupRef} (hg : gm.byID.get c.groupID = some g) (env : Env) :
    gm.leave env c.tag =
      let left := (gm.heap.read g).members.eraseP fun x => x.tag == c.tag
      if left.isEmpty then
        (gm.withMembers g left).unregister c.groupID (gm.heap.read g).queue
      else gm.withMembers g left := by
  have hfound : (env.nameOrder gm.byID.keys).find? (fun id =>
      match gm.byID.get id with
      | some g => (gm.heap.read g).members.any fun x => x.tag == c.tag
      | none => false) = some c.groupID := by
    refine find?_eq_of_iff ?_ fun id => ?_
    · exact (env.nameOrder_perm _).mem_iff.mpr (GoMap.mem_keys_iff.mpr ⟨g, hg⟩)
    · constructor
      · intro hhit
        cases hget : gm.byID.get id with
        | none => simp [hget] at hhit
        | some g' =>
          simp only [hget, List.any_eq_true, beq_iff_eq] at hhit
          obtain ⟨x, hx, htag⟩ := hhit
          rw [← members_of_get hget, h.members.mem] at hx
          rw [← hx.2, hinj x hx.1 htag]
      · rintro rfl
        have hmem : c ∈ (gm.heap.read g).members := by
          rw [← members_of_get hg, h.members.mem]
          exact ⟨hc, rfl⟩
        simp only [hg, List.any_eq_true, beq_iff_eq]
        exact ⟨c, hmem, rfl⟩
  unfold leave
  dsimp only
  generalize hf : List.find? _ _ = found
  obtain rfl : found = some c.groupID := hf.symm.trans hfound
  simp only [hg]
  rfl

theorem Groups.leave (h : gm.Groups R) (hc : R c) (hinj : ∀ x, R x → x.tag = c.tag → x = c)
    (hR : ∀ x, R' x ↔ R x ∧ x ≠ c) (env : Env) : (gm.leave env c.tag).Groups R' := by
  have hmem : c ∈ gm.members c.groupID := (h.members.mem _ _).mpr ⟨hc, rfl⟩
  cases hg : gm.byID.get c.groupID with
  | none =>
    rw [members_of_none hg] at hmem
    cases hmem
  | some g =>
    rw [h.leave_eq hc hinj hg]
    dsimp only
    set left := (gm.heap.read g).members.eraseP fun x => x.tag == c.tag with hleft
    split
    · rename_i hempty
      refine h.unregister hg left (h.members.remove hinj hR ?_ fun k hk => ?_)
      · rw [members_of_get hg, ← hleft, List.isEmpty_iff.mp hempty]
        exact members_of_none (GoMap.get_del_self ..)
      · rw [← h.members_other hg hk left]
        exact members_congr (GoMap.get_del_ne hk) fun _ _ => rfl
    · rename_i hne
      refine h.change (by simpa using hne) (h.members.remove hinj hR ?_ fun k hk => ?_)
      · rw [members_withMembers hg, members_of_get hg]
      · exact h.members_other hg hk left

end ConsumerGroupManager

/-! ## Every operation keeps it -/

theorem ConsumerGroupManager.Groups.congr {gm : ConsumerGroupManager} {R R' : Consumer → Prop}
    (h : gm.Groups R) (hR : ∀ c, R' c ↔ R c) : gm.Groups R' :=
  ⟨h.group, h.members.congr_right hR fun _ => rfl, h.queues⟩

section Managers

variable {m m' : ConsumerManager} {gm : ConsumerGroupManager} {c : Consumer}

theorem registered_inj {c' : Consumer} (h : m.Registered c) (h' : m.Registered c')
    (htag : c.tag = c'.tag) : c = c' := by
  unfold ConsumerManager.Registered at h h'
  rw [htag, h'] at h
  exact (Option.some.inj h).symm

theorem tag_ne_of_free {x : Consumer} (hfree : m.byTag.get c.tag = none) (hx : m.Registered x) :
    x.tag ≠ c.tag := by
  intro htag
  unfold ConsumerManager.Registered at hx
  rw [htag, hfree] at hx
  cases hx

theorem registered_set (hfree : m.byTag.get c.tag = none) (hbyTag : m'.byTag = m.byTag.set c.tag c)
    (x : Consumer) : m'.Registered x ↔ m.Registered x ∨ x = c := by
  have hne := fun hx : m.Registered x => tag_ne_of_free hfree hx
  unfold ConsumerManager.Registered at hne ⊢
  rw [hbyTag, GoMap.get_set]
  split
  · rename_i htag
    constructor
    · exact fun heq => .inr (Option.some.inj heq).symm
    · rintro (hx | rfl)
      · exact absurd htag (hne hx)
      · rfl
  · rename_i htag
    refine (or_iff_left ?_).symm
    rintro rfl
    exact htag rfl

theorem registered_del (hc : m.Registered c) (hbyTag : m'.byTag = m.byTag.del c.tag)
    (x : Consumer) : m'.Registered x ↔ m.Registered x ∧ x ≠ c := by
  have hinj := fun hx : m.Registered x => registered_inj hx hc
  unfold ConsumerManager.Registered at hinj ⊢
  rw [hbyTag, GoMap.get_del]
  split
  · rename_i htag
    constructor
    · intro hx
      cases hx
    · rintro ⟨hx, hne⟩
      exact absurd (hinj hx htag) hne
  · rename_i htag
    exact (and_iff_left fun heq => htag (by rw [heq])).symm

theorem ConsumerManager.queue_of_set_self {q : GoString} {l : List Consumer}
    (h : m'.byQueue = m.byQueue.set q l) : m'.queue q = l := by
  unfold ConsumerManager.queue
  rw [h, GoMap.getD_set_self]

theorem ConsumerManager.queue_of_set_ne {q q' : GoString} {l : List Consumer}
    (h : m'.byQueue = m.byQueue.set q l) (hq : q' ≠ q) : m'.queue q' = m.queue q' := by
  unfold ConsumerManager.queue
  rw [h, GoMap.getD_set_ne hq]

theorem Registry.add (h : Registry m gm) (hfree : m.byTag.get c.tag = none)
    (hbyTag : m'.byTag = m.byTag.set c.tag c)
    (hbyQueue : m'.byQueue = m.byQueue.set c.queueName (m.queue c.queueName ++ [c]))
    (strategy : GoString) :
    Registry m' (if c.groupID = [] then gm else gm.join c.groupID c.queueName c strategy) := by
  have hnew : ∀ x, m.Registered x → x.tag ≠ c.tag := fun _ => tag_ne_of_free hfree
  have hadded := registered_set hfree hbyTag
  refine ⟨fun tag x hx => ?_, ?_, ?_⟩
  · rw [hbyTag, GoMap.get_set] at hx
    split at hx
    · rename_i htag
      cases hx
      exact htag.symm
    · exact h.keyed tag x hx
  · refine h.queues.add hnew hadded ?_ fun q hq => ?_
    · exact ConsumerManager.queue_of_set_self hbyQueue
    · exact ConsumerManager.queue_of_set_ne hbyQueue hq
  · split
    · rename_i hid
      refine h.groups.congr fun x => ?_
      rw [hadded, or_and_right, or_iff_left]
      rintro ⟨rfl, hx⟩
      exact hx hid
    · rename_i hid
      refine h.groups.join (fun x hx => hnew x hx.1) (fun x => ?_) _ _
      rw [hadded, or_and_right]
      refine or_congr_right (and_iff_left_of_imp ?_)
      rintro rfl
      exact hid

theorem Registry.remove (h : Registry m gm) {tag : GoString} (hc : m.byTag.get tag = some c)
    (hbyTag : m'.byTag = m.byTag.del tag)
    (hbyQueue : m'.byQueue =
      m.byQueue.set c.queueName ((m.queue c.queueName).eraseP fun x => x.tag == tag))
    (env : Env) : Registry m' (if c.groupID = [] then gm else gm.leave env tag) := by
  obtain rfl : c.tag = tag := h.keyed tag c hc
  have hinj : ∀ x, m.Registered x → x.tag = c.tag → x = c := fun x hx => registered_inj hx hc
  have hremoved := registered_del hc hbyTag
  refine ⟨fun tag x hx => ?_, ?_, ?_⟩
  · rw [hbyTag, GoMap.get_del] at hx
    split at hx
    · cases hx
    · exact h.keyed tag x hx
  · refine h.queues.remove hinj hremoved ?_ fun q hq => ?_
    · exact ConsumerManager.queue_of_set_self hbyQueue
    · exact ConsumerManager.queue_of_set_ne hbyQueue hq
  · split
    · rename_i hid
      refine h.groups.congr fun x => ?_
      rw [hremoved, and_assoc]
      refine and_congr_right fun _ => and_iff_right_of_imp ?_
      rintro hx rfl
      exact hx hid
    · rename_i hid
      refine h.groups.leave ⟨hc, hid⟩ (fun x hx => hinj x hx.1) (fun x => ?_) env
      rw [hremoved, and_right_comm]

end Managers

def InOrder (s : Server) : Prop :=
  ∃ gm, s.consumers.groupMgr = some gm ∧ Registry s.consumers gm

section Keeps

variable {s : Server}

theorem InOrder.subscribe (h : InOrder s) (tag queueName : GoString) (ch : Option ChanRef)
    (autoAck exclusive : Bool) (args : Table) :
    InOrder (s.subscribe tag queueName ch autoAck exclusive args).2 := by
  obtain ⟨gm, hgm, hreg⟩ := id h
  unfold Server.subscribe
  split
  · exact h
  · rename_i htaken
    split
    · exact h
    · set c : Consumer := ⟨tag, queueName, ch, autoAck, exclusive, args,
        stringArg args (str "x-group-id")⟩
      refine ⟨_, ?_, hreg.add (c := c) (by simpa using htaken) rfl rfl
        (if stringArg args (str "x-group-strategy") = [] then str "round-robin"
          else stringArg args (str "x-group-strategy"))⟩
      dsimp only
      rw [hgm]
      split
      · rfl
      · rfl

theorem InOrder.unsubscribe (h : InOrder s) (env : Env) (tag : GoString) :
    InOrder (s.unsubscribe env tag) := by
  obtain ⟨gm, hgm, hreg⟩ := id h
  unfold Server.unsubscribe
  split
  · exact h
  · rename_i c hc
    refine ⟨_, ?_, hreg.remove hc rfl rfl env⟩
    dsimp only
    rw [hgm]
    split
    · rfl
    · rfl

theorem InOrder.cancelByChannel (h : InOrder s) (env : Env) (ch : Option ChanRef) :
    InOrder (s.cancelByChannel env ch).2 :=
  Server.cancelByChannel_inv h fun _ tag hu => hu.unsubscribe env tag

theorem InOrder.step (h : InOrder s) (op : Env × ConsumerOp) : InOrder (consumerStep s op) := by
  obtain ⟨env, op⟩ := op
  cases op with
  | subscribe tag queueName ch autoAck exclusive args => exact h.subscribe ..
  | unsubscribe tag => exact h.unsubscribe env tag
  | cancelByChannel ch => exact h.cancelByChannel env ch

end Keeps

def emptyConsumers : ConsumerManager := ⟨∅, ∅, some ⟨Heap.empty, ∅, ∅⟩⟩

theorem inOrder_empty (s : Server) : InOrder { s with consumers := emptyConsumers } := by
  have hnone : ∀ c, ¬ emptyConsumers.Registered c := by
    intro c hc
    cases hc
  refine ⟨_, rfl, ⟨?_, Index.empty hnone, ⟨?_, Index.empty ?_, Index.empty ?_⟩⟩⟩
  · intro tag c hc
    cases hc
  · intro id g hg
    cases hg
  · exact fun c hc => hnone c hc.1
  · rintro g ⟨id, hg⟩
    cases hg

/-! ## The registry after every run -/

structure Consistent (m : ConsumerManager) (gm : ConsumerGroupManager) : Prop where
  /-- A queue's list holds the consumers of the tag map that are subscribed to the queue, -/
  queue : ∀ q c, c ∈ m.byQueue.getD q [] ↔ c.queueName = q ∧ ∃ tag, m.byTag.get tag = some c
  /-- each once. -/
  queue_once : ∀ q, ((m.byQueue.getD q []).map Consumer.tag).Nodup
  /-- A consumer with a group id is a member of the group under that id. -/
  grouped : ∀ tag c, m.byTag.get tag = some c → c.groupID ≠ [] →
    ∃ g, gm.byID.get c.groupID = some g ∧ c ∈ (gm.heap.read g).members
  /-- No group has a member twice. -/
  member_once : ∀ id g, gm.byID.get id = some g →
    ((gm.heap.read g).members.map Consumer.tag).Nodup
  /-- A consumer is in no other group, and in none without a group id. -/
  no_other : ∀ tag c id g, m.byTag.get tag = some c → gm.byID.get id = some g →
    c ∈ (gm.heap.read g).members → c.groupID ≠ [] ∧ id = c.groupID
  nonempty : ∀ id g, gm.byID.get id = some g → (gm.heap.read g).members ≠ []
  /-- The two indexes of the group manager hold the same groups, -/
  groups : ∀ g, (∃ id, gm.byID.get id = some g) ↔ ∃ q, g ∈ gm.byQueue.getD q []
  /-- each once under its id and once under its queue. -/
  group_once : (∀ id id' g, gm.byID.get id = some g → gm.byID.get id' = some g → id = id') ∧
    (∀ q g, g ∈ gm.byQueue.getD q [] → (gm.heap.read g).queue = q) ∧
    ∀ q, (gm.byQueue.getD q []).Nodup

theorem Registry.consistent {m : ConsumerManager} {gm : ConsumerGroupManager}
    (h : Registry m gm) : Consistent m gm where
  queue q c := by
    rw [and_comm]
    refine (h.queues.mem q c).trans (and_congr_left fun _ => ⟨fun hc => ⟨c.tag, hc⟩, ?_⟩)
    rintro ⟨tag, hc⟩
    have htag := h.keyed tag c hc
    rwa [← htag] at hc
  queue_once := h.queues.nodup
  grouped tag c hc hid := by
    have htag := h.keyed tag c hc
    rw [← htag] at hc
    have hmem : c ∈ gm.members c.groupID := (h.groups.members.mem _ c).mpr ⟨⟨hc, hid⟩, rfl⟩
    cases hg : gm.byID.get c.groupID with
    | none =>
      rw [members_of_none hg] at hmem
      cases hmem
    | some g => exact ⟨g, rfl, members_of_get hg ▸ hmem⟩
  member_once id g hg := by
    rw [← members_of_get hg]
    exact h.groups.members.nodup id
  no_other tag c id g _ hg hmem := by
    rw [← members_of_get hg, h.groups.members.mem] at hmem
    exact ⟨hmem.1.2, hmem.2.symm⟩
  nonempty id g hg := (h.groups.group id g hg).2.2
  groups g := by
    constructor
    · exact fun hg => ⟨_, (h.groups.queues.mem _ g).mpr ⟨hg, rfl⟩⟩
    · rintro ⟨q, hg⟩
      exact ((h.groups.queues.mem q g).mp hg).1
  group_once :=
    ⟨fun _ _ _ => h.groups.byID_inj, fun q g hg => ((h.groups.queues.mem q g).mp hg).2,
      fun q => (h.groups.queues.nodup q).of_map⟩

/-- After every run of calls with any arguments, from empty managers, the registry is consistent. -/
theorem consumer_registry_consistent (s : Server) (ops : List (Env × ConsumerOp)) :
    ∃ gm, (ops.foldl consumerStep { s with consumers := emptyConsumers }).consumers.groupMgr =
        some gm ∧
      Consistent (ops.foldl consumerStep { s with consumers := emptyConsumers }).consumers gm := by
  have hrun : InOrder (ops.foldl consumerStep { s with consumers := emptyConsumers }) :=
    List.foldlRecOn (motive := InOrder) ops _ (inOrder_empty s) fun s h op _ => h.step op
  obtain ⟨gm, hgm, hreg⟩ := hrun
  exact ⟨gm, hgm, hreg.consistent⟩

end Gomq.Broker
