import Gomq.Lib.GoMap
import Gomq.Lib.Bytes

/-!
# Membership from watch events

`Discover` turns the events of an etcd watch into joins and leaves. It takes the node id from the
JSON record in the value of the event. The event of a deleted key has no value, so its id is the
empty string: `Leave` is called for a node that is not there, and the node that went stays online
(`follows_iff`).
-/

namespace Gomq.Gossip

open GoMap List

/-! ## Members -/

inductive Status where
  | online
  | suspected
  | offline
  deriving DecidableEq

structure Member where
  id : GoString
  addr : GoString
  status : Status

abbrev Membership := GoMap GoString Member

namespace Membership

def join (m : Membership) (id addr : GoString) : Membership :=
  match get m id with
  | some mem => set m id { mem with status := .online, addr := addr }
  | none => set m id ⟨id, addr, .online⟩

def leave (m : Membership) (id : GoString) : Membership :=
  match get m id with
  | some mem => set m id { mem with status := .offline }
  | none => m

end Membership

/-! ## Events -/

def nodesPrefix : GoString := str "/gomq/nodes/"

structure NodeInfo where
  id : GoString
  addr : GoString

/-- An event of the watch: its type, where 1 is a deletion, and the key and value it carries. -/
structure KvEvent where
  type : Int32
  key : Bytes
  value : Bytes

inductive EventType where
  | put
  | delete
  deriving DecidableEq

structure Event where
  type : EventType
  nodeID : GoString
  addr : GoString

def eventType (t : Int32) : EventType := if t = 1 then .delete else .put

/-- One round of `Discover`. `unmarshal` is `json.Unmarshal` into an empty record, whose error is
dropped. -/
def decodeEvent (unmarshal : Bytes → NodeInfo) (ev : KvEvent) : Event :=
  let info := if 0 < ev.value.length then unmarshal ev.value else ⟨[], []⟩
  ⟨eventType ev.type, info.id, info.addr⟩

def onEvent (m : Membership) (ev : Event) : Membership :=
  match ev.type with
  | .put => m.join ev.nodeID ev.addr
  | .delete => m.leave ev.nodeID

def discover (unmarshal : Bytes → NodeInfo) (m : Membership) (events : List KvEvent) :
    Membership :=
  events.foldl (fun m ev => onEvent m (decodeEvent unmarshal ev)) m

/-- The membership with which `NewClusterWithDiscovery` starts the loop. -/
def bootstrap (localID localAddr : GoString) : Membership :=
  Membership.join ∅ localID localAddr

/-! ## What happened to the nodes -/

inductive NodeEvent where
  | put (id addr : GoString)
  | delete (id : GoString)
  deriving DecidableEq

def NodeEvent.id : NodeEvent → GoString
  | put id _ => id
  | delete id => id

/-- A put carries a record that reads as the node's, a deletion carries the key and no value. -/
def Carries (unmarshal : Bytes → NodeInfo) (ev : KvEvent) : NodeEvent → Prop
  | .put id addr => ev.type = 0 ∧ ev.key = nodesPrefix ++ id ∧ ev.value ≠ [] ∧
      unmarshal ev.value = ⟨id, addr⟩
  | .delete id => ev.type = 1 ∧ ev.key = nodesPrefix ++ id ∧ ev.value = []

def Last (nodes before : List NodeEvent) (n : NodeEvent) : Prop :=
  ∃ after, nodes = before ++ n :: after ∧ ∀ n' ∈ after, n'.id ≠ n.id

/-- The membership is what the events say: a node is online at the address of its last put, and
offline if it had joined and was deleted last. -/
def Follows (localID : GoString) (nodes : List NodeEvent) (m : Membership) : Prop :=
  (∀ before id addr, Last nodes before (.put id addr) →
    ∃ mem, get m id = some mem ∧ mem.status = .online ∧ mem.addr = addr) ∧
  ∀ before id, Last nodes before (.delete id) →
    (id = localID ∨ ∃ addr, .put id addr ∈ before) →
    ∃ mem, get m id = some mem ∧ mem.status = .offline

/-- No node that had joined was deleted last, the one with the empty id apart; and nothing was
deleted after the last put of that one. -/
def NoneDeleted (localID : GoString) (nodes : List NodeEvent) : Prop :=
  (∀ before id, Last nodes before (.delete id) →
    (id = localID ∨ ∃ addr, .put id addr ∈ before) → id = []) ∧
  ∀ before after addr, nodes = before ++ .put [] addr :: after →
    (∀ n ∈ after, n.id ≠ []) → ∀ id, .delete id ∉ after

def apply (m : Membership) : NodeEvent → Membership
  | .put id addr => m.join id addr
  | .delete _ => m.leave []

theorem onEvent_of_carries {unmarshal : Bytes → NodeInfo} {ev : KvEvent} {n : NodeEvent}
    (h : Carries unmarshal ev n) (m : Membership) :
    onEvent m (decodeEvent unmarshal ev) = apply m n := by
  cases n with
  | put id addr =>
    obtain ⟨htype, -, hne, hinfo⟩ := h
    simp [onEvent, decodeEvent, eventType, htype, length_pos_iff.mpr hne, hinfo, apply]
  | delete id =>
    obtain ⟨htype, -, hnil⟩ := h
    simp [onEvent, decodeEvent, eventType, htype, hnil, apply]

theorem discover_eq {unmarshal : Bytes → NodeInfo} {events : List KvEvent} {nodes : List NodeEvent}
    (h : List.Forall₂ (Carries unmarshal) events nodes) (m : Membership) :
    discover unmarshal m events = nodes.foldl apply m := by
  unfold discover
  induction h generalizing m with
  | nil => rfl
  | cons hev _ ih => rw [foldl_cons, foldl_cons, onEvent_of_carries hev, ih]

/-! ## The record of one node -/

theorem get_join_self (m : Membership) (id addr : GoString) :
    ∃ mem, get (m.join id addr) id = some mem ∧ mem.status = .online ∧ mem.addr = addr := by
  unfold Membership.join
  split
  · exact ⟨_, get_set_self .., rfl, rfl⟩
  · exact ⟨_, get_set_self .., rfl, rfl⟩

theorem get_join_ne (m : Membership) {id id' : GoString} (h : id' ≠ id) (addr : GoString) :
    get (m.join id addr) id' = get m id' := by
  unfold Membership.join
  split
  · exact get_set_ne h
  · exact get_set_ne h

theorem get_leave_ne (m : Membership) {id id' : GoString} (h : id' ≠ id) :
    get (m.leave id) id' = get m id' := by
  unfold Membership.leave
  split
  · exact get_set_ne h
  · rfl

theorem get_leave_self {m : Membership} {id : GoString} (h : (get m id).isSome = true) :
    ∃ mem, get (m.leave id) id = some mem ∧ mem.status = .offline := by
  unfold Membership.leave
  split
  · exact ⟨_, get_set_self .., rfl⟩
  · rename_i hnone
    rw [hnone] at h
    cases h

/-- A change touches the record of the node it puts; a deletion touches that of the empty id. -/
def Touches (id : GoString) : NodeEvent → Prop
  | .put id' _ => id' = id
  | .delete _ => id = []

theorem get_apply_of_not {id : GoString} {n : NodeEvent} (h : ¬ Touches id n) (m : Membership) :
    get (apply m n) id = get m id := by
  cases n with
  | put id' addr => exact get_join_ne m (Ne.symm h) addr
  | delete id' => exact get_leave_ne m h

theorem get_run_of_not {id : GoString} {nodes : List NodeEvent} (h : ∀ n ∈ nodes, ¬ Touches id n)
    (m : Membership) : get (nodes.foldl apply m) id = get m id := by
  induction nodes generalizing m with
  | nil => rfl
  | cons n nodes ih =>
    obtain ⟨hn, hnodes⟩ := forall_mem_cons.mp h
    rw [foldl_cons, ih hnodes, get_apply_of_not hn]

theorem run_put {before after : List NodeEvent} {id : GoString}
    (h : ∀ n ∈ after, ¬ Touches id n) (addr : GoString) (m : Membership) :
    ∃ mem, get ((before ++ .put id addr :: after).foldl apply m) id = some mem ∧
      mem.status = .online ∧ mem.addr = addr := by
  rw [foldl_append, foldl_cons, get_run_of_not h]
  exact get_join_self _ id addr

/-- Nothing ever takes a node other than the one with the empty id offline. -/
def OnlineElsewhere (m : Membership) : Prop :=
  ∀ id mem, id ≠ [] → get m id = some mem → mem.status = .online

theorem OnlineElsewhere.join {m : Membership} (h : OnlineElsewhere m) (id addr : GoString) :
    OnlineElsewhere (m.join id addr) := by
  intro id' mem hid hget
  by_cases heq : id' = id
  · obtain ⟨mem', hget', honline, -⟩ := get_join_self m id addr
    rw [heq, hget'] at hget
    cases hget
    exact honline
  · rw [get_join_ne m heq] at hget
    exact h id' mem hid hget

theorem OnlineElsewhere.apply {m : Membership} (h : OnlineElsewhere m) (n : NodeEvent) :
    OnlineElsewhere (apply m n) := by
  cases n with
  | put id addr => exact h.join id addr
  | delete id =>
    intro id' mem hid hget
    rw [Gossip.apply, get_leave_ne m hid] at hget
    exact h id' mem hid hget

theorem onlineElsewhere_run (localID localAddr : GoString) (nodes : List NodeEvent) :
    OnlineElsewhere (nodes.foldl apply (bootstrap localID localAddr)) := by
  refine foldlRecOn (motive := OnlineElsewhere) _ _ ?_ fun m h n _ => h.apply n
  refine OnlineElsewhere.join (fun id mem _ hget => ?_) localID localAddr
  cases hget

/-! ## Joined nodes stay on record -/

theorem isSome_apply {m : Membership} {id : GoString} (h : (get m id).isSome = true)
    (n : NodeEvent) : (get (apply m n) id).isSome = true := by
  cases n with
  | put id' addr =>
    by_cases heq : id = id'
    · obtain ⟨mem, hget, -⟩ := get_join_self m id' addr
      rw [heq, apply, hget]
      rfl
    · rwa [apply, get_join_ne m heq]
  | delete id' =>
    by_cases heq : id = []
    · subst heq
      obtain ⟨mem, hget, -⟩ := get_leave_self h
      rw [apply, hget]
      rfl
    · rwa [apply, get_leave_ne m heq]

theorem isSome_run {m : Membership} {id : GoString} (h : (get m id).isSome = true)
    (nodes : List NodeEvent) : (get (nodes.foldl apply m) id).isSome = true :=
  foldlRecOn (motive := fun m : Membership => (get m id).isSome = true) _ _ h
    fun _ h n _ => isSome_apply h n

theorem isSome_of_joined {localID id : GoString} {nodes : List NodeEvent}
    (h : id = localID ∨ ∃ addr, .put id addr ∈ nodes) (localAddr : GoString) :
    (get (nodes.foldl apply (bootstrap localID localAddr)) id).isSome = true := by
  rcases h with rfl | ⟨addr, hmem⟩
  · obtain ⟨mem, hget, -⟩ := get_join_self ∅ id localAddr
    exact isSome_run (by rw [bootstrap, hget]; rfl) nodes
  · obtain ⟨before, after, rfl⟩ := append_of_mem hmem
    rw [foldl_append, foldl_cons]
    set m := before.foldl apply (bootstrap localID localAddr)
    obtain ⟨mem, hget, -⟩ := get_join_self m id addr
    exact isSome_run (by rw [apply, hget]; rfl) after

/-! ## The empty id -/

theorem run_delete {m : Membership} (h : (get m []).isSome = true) (id : GoString)
    {after : List NodeEvent} (hafter : ∀ addr, .put [] addr ∉ after) :
    ∃ mem, get ((NodeEvent.delete id :: after).foldl apply m) [] = some mem ∧
      mem.status = .offline := by
  rw [foldl_cons]
  refine foldlRecOn (motive := fun m : Membership =>
    ∃ mem, get m [] = some mem ∧ mem.status = .offline) _ _ (get_leave_self h) ?_
  rintro m ⟨mem, hget, hoff⟩ n hn
  cases n with
  | put id' addr =>
    have hne : [] ≠ id' := by
      rintro rfl
      exact hafter addr hn
    exact ⟨mem, (get_join_ne m hne addr).trans hget, hoff⟩
  | delete id' => exact get_leave_self (by rw [hget]; rfl)

theorem run_put_delete {before after : List NodeEvent} {addr id : GoString}
    (hafter : ∀ n ∈ after, n.id ≠ []) (hmem : .delete id ∈ after) (m : Membership) :
    ∃ mem, get ((before ++ .put [] addr :: after).foldl apply m) [] = some mem ∧
      mem.status = .offline := by
  obtain ⟨between, rest, rfl⟩ := append_of_mem hmem
  have hrest : ∀ addr', .put [] addr' ∉ rest := fun addr' hput =>
    hafter (.put [] addr') (by simp [hput]) rfl
  rw [foldl_append, foldl_cons, foldl_append]
  refine run_delete (isSome_run ?_ between) id hrest
  obtain ⟨mem, hget, -⟩ := get_join_self (before.foldl apply m) [] addr
  rw [apply, hget]
  rfl

/-- The membership follows the node records exactly if no node that had joined was deleted last. -/
theorem follows_iff {unmarshal : Bytes → NodeInfo} {events : List KvEvent}
    {nodes : List NodeEvent} (h : List.Forall₂ (Carries unmarshal) events nodes)
    (localID localAddr : GoString) :
    Follows localID nodes (discover unmarshal (bootstrap localID localAddr) events) ↔
      NoneDeleted localID nodes := by
  rw [discover_eq h]
  constructor
  · rintro ⟨hput, hdelete⟩
    constructor
    · intro before id hlast hjoined
      by_contra hid
      obtain ⟨mem, hget, hoff⟩ := hdelete before id hlast hjoined
      have hon := onlineElsewhere_run localID localAddr nodes id mem hid hget
      rw [hoff] at hon
      cases hon
    · rintro before after addr rfl hafter id hmem
      obtain ⟨mem, hget, hon, -⟩ := hput before [] addr ⟨after, rfl, hafter⟩
      obtain ⟨mem', hget', hoff⟩ := run_put_delete hafter hmem (bootstrap localID localAddr)
      rw [hget] at hget'
      cases hget'
      rw [hon] at hoff
      cases hoff
  · rintro ⟨hnone, hempty⟩
    constructor
    · rintro before id addr ⟨after, rfl, hafter⟩
      refine run_put (fun n hn htouch => ?_) addr _
      cases n with
      | put id' addr' => exact hafter _ hn htouch
      | delete id' =>
        obtain rfl : id = [] := htouch
        exact hempty before after addr rfl hafter id' hn
    · rintro before id hlast hjoined
      obtain rfl := hnone before id hlast hjoined
      obtain ⟨after, rfl, hafter⟩ := hlast
      rw [foldl_append]
      exact run_delete (isSome_of_joined hjoined localAddr) []
        fun addr hmem => hafter _ hmem rfl

def readsNode1 (value : Bytes) : NodeInfo :=
  if value = str "\x7b\"id\":\"n1\",\"addr\":\"10.0.0.1:5672\"\x7d" then
    ⟨str "n1", str "10.0.0.1:5672"⟩
  else ⟨[], []⟩

def putNode1 : KvEvent :=
  ⟨0, nodesPrefix ++ str "n1", str "\x7b\"id\":\"n1\",\"addr\":\"10.0.0.1:5672\"\x7d"⟩

def deleteNode1 : KvEvent := ⟨1, nodesPrefix ++ str "n1", []⟩

theorem carries_putNode1 : Carries readsNode1 putNode1 (.put (str "n1") (str "10.0.0.1:5672")) := by
  refine ⟨rfl, rfl, by decide, ?_⟩
  rw [readsNode1, putNode1, if_pos rfl]

theorem follows_iff_one_put :
    Follows (str "n0") [.put (str "n1") (str "10.0.0.1:5672")]
        (discover readsNode1 (bootstrap (str "n0") (str "10.0.0.0:5672")) [putNode1]) ↔
      NoneDeleted (str "n0") [.put (str "n1") (str "10.0.0.1:5672")] :=
  follows_iff (.cons carries_putNode1 .nil) (str "n0") (str "10.0.0.0:5672")

/-- A node joins and its record is deleted: it is still recorded as online. -/
theorem deleted_node_stays_online :
    List.Forall₂ (Carries readsNode1) [putNode1, deleteNode1]
        [.put (str "n1") (str "10.0.0.1:5672"), .delete (str "n1")] ∧
      ¬ Follows (str "n0") [.put (str "n1") (str "10.0.0.1:5672"), .delete (str "n1")]
        (discover readsNode1 (bootstrap (str "n0") (str "10.0.0.0:5672"))
          [putNode1, deleteNode1]) := by
  refine ⟨.cons carries_putNode1 (.cons ⟨rfl, rfl, rfl⟩ .nil), ?_⟩
  rintro ⟨-, hdelete⟩
  obtain ⟨mem, hget, hoff⟩ := hdelete [.put (str "n1") (str "10.0.0.1:5672")] (str "n1")
    ⟨[], rfl, by simp⟩ (.inr ⟨_, mem_singleton_self _⟩)
  have honline : (get (discover readsNode1 (bootstrap (str "n0") (str "10.0.0.0:5672"))
      [putNode1, deleteNode1]) (str "n1")).map Member.status = some .online := by decide
  rw [hget, Option.map_some, hoff] at honline
  cases honline

end Gomq.Gossip
