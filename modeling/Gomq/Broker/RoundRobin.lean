import Gomq.Lib.Turns
import Gomq.Broker.Handovers

/-!
# Round-robin groups

A group with the round-robin strategy takes its members in turn: the counter is read modulo the
number of members and goes up by one with each selection. While the members stay and the counter
does not wrap, any number of selections in a row is shared out evenly (`selectAll_fair`). The
manager of the groups makes the same selections (`selectAll_of_get`).
-/

namespace Gomq.Broker

open Wire List

/-! ## Selections in a row -/

def ConsumerGroup.select (g : ConsumerGroup) (key : GoString) : Option Consumer × ConsumerGroup :=
  let r := g.strategy.select g.members key
  (r.1, { g with strategy := r.2 })

def ConsumerGroup.selectAll (g : ConsumerGroup) : List GoString → List (Option Consumer)
  | [] => []
  | key :: keys => (g.select key).1 :: (g.select key).2.selectAll keys

namespace ConsumerGroupManager

def selectAll (m : ConsumerGroupManager) (groupID : GoString) :
    List GoString → List (Option Consumer)
  | [] => []
  | key :: keys => (m.select groupID key).1 :: (m.select groupID key).2.selectAll groupID keys

theorem selectAll_of_get {m : ConsumerGroupManager} {groupID : GoString} {g : GroupRef}
    (h : m.byID.get groupID = some g) (keys : List GoString) :
    m.selectAll groupID keys = (m.heap.read g).selectAll keys := by
  induction keys generalizing m with
  | nil => rfl
  | cons key keys ih =>
    have hnext : (m.select groupID key).2.heap.read g = ((m.heap.read g).select key).2 := by
      rw [select_of_get h]
      simp [withStrategy, ConsumerGroup.select]
    have hget : (m.select groupID key).2.byID.get groupID = some g := by
      rw [select_of_get h]
      exact h
    unfold selectAll ConsumerGroup.selectAll
    rw [ih hget, hnext, select_of_get h]
    rfl

end ConsumerGroupManager

/-! ## Round robin -/

theorem Strategy.select_roundRobin {members : List Consumer} (hne : members ≠ [])
    (hlt : members.length < 2 ^ 63) (idx : UInt64) (key : GoString) :
    (Strategy.roundRobin idx).select members key =
      (members[idx.toNat % members.length]?, .roundRobin (idx + 1)) := by
  have hlen : (UInt64.ofNat members.length).toNat = members.length :=
    UInt64.toNat_ofNat_of_lt (hlt.trans (by decide))
  cases members with
  | nil => exact absurd rfl hne
  | cons c cs =>
    unfold Strategy.select
    dsimp only
    rw [UInt64.toNat_mod, hlen]

/-- A round-robin group that has members. The length of a slice is an `int`. -/
structure RoundRobinGroup where
  group : ConsumerGroup
  idx : UInt64
  strategy_eq : group.strategy = .roundRobin idx
  members_ne_nil : group.members ≠ []
  length_lt : group.members.length < 2 ^ 63

namespace RoundRobinGroup

variable (r : RoundRobinGroup)

theorem length_pos : 0 < r.group.members.length := length_pos_iff.mpr r.members_ne_nil

def next : RoundRobinGroup where
  group := { r.group with strategy := .roundRobin (r.idx + 1) }
  idx := r.idx + 1
  strategy_eq := rfl
  members_ne_nil := r.members_ne_nil
  length_lt := r.length_lt

theorem select_eq (key : GoString) :
    r.group.select key =
      (r.group.members[r.idx.toNat % r.group.members.length]?, r.next.group) := by
  unfold ConsumerGroup.select
  rw [r.strategy_eq, Strategy.select_roundRobin r.members_ne_nil r.length_lt]
  rfl

/-- The members are selected in turn. The counter is `a` until it wraps. -/
theorem selectAll_eq (keys : List GoString) (a : ℕ) (ha : r.idx = UInt64.ofNat a)
    (hwrap : a + keys.length ≤ 2 ^ 64) :
    r.group.selectAll keys =
      (turns r.group.members.length a keys.length).map (r.group.members[·]?) := by
  induction keys generalizing r a with
  | nil => rfl
  | cons key keys ih =>
    rw [length_cons] at hwrap
    have hidx : r.idx.toNat = a := by
      rw [ha]
      exact UInt64.toNat_ofNat_of_lt (show a < 2 ^ 64 by omega)
    have hnext : r.next.idx = UInt64.ofNat (a + 1) := by
      rw [UInt64.ofNat_add, ← ha]
      rfl
    unfold ConsumerGroup.selectAll
    rw [r.select_eq, hidx, ih r.next (a + 1) hnext (by omega), length_cons,
      Nat.add_comm keys.length 1, turns_add]
    rfl

def places (m : ℕ) : List (Fin r.group.members.length) :=
  (List.range' r.idx.toNat m).map fun j => ⟨j % r.group.members.length, Nat.mod_lt j r.length_pos⟩

theorem map_val_places (m : ℕ) :
    (r.places m).map Fin.val = turns r.group.members.length r.idx.toNat m := by
  unfold places turns
  rw [map_map]
  rfl

theorem selectAll_places (keys : List GoString)
    (hwrap : r.idx.toNat + keys.length ≤ 2 ^ 64) :
    r.group.selectAll keys =
      (r.places keys.length).map fun i => some (r.group.members.get i) := by
  rw [r.selectAll_eq keys r.idx.toNat UInt64.ofNat_toNat.symm hwrap, ← map_val_places, map_map]
  apply map_congr_left
  intro i _
  exact List.getElem?_eq_getElem i.isLt

theorem count_places (m : ℕ) (i : Fin r.group.members.length) :
    (r.places m).count i = m / r.group.members.length ∨
      (r.places m).count i = m ⌈/⌉ r.group.members.length := by
  rw [← count_map_of_injective _ Fin.val Fin.val_injective, map_val_places]
  exact count_turns r.idx.toNat i.isLt m

theorem countP_tag (htags : (r.group.members.map Consumer.tag).Nodup)
    (places : List (Fin r.group.members.length)) (i : Fin r.group.members.length) :
    (places.map fun j => some (r.group.members.get j)).countP
        (fun c => c.map Consumer.tag = some (r.group.members.get i).tag) = places.count i := by
  have hinj : ∀ j, (r.group.members.get j).tag = (r.group.members.get i).tag ↔ j = i := by
    intro j
    refine ⟨fun htag => (htags.of_map _).get_inj_iff.mp ?_, fun h => by rw [h]⟩
    exact inj_on_of_nodup_map htags (get_mem _ j) (get_mem _ i) htag
  rw [countP_map, List.count]
  apply countP_congr
  intro j _
  simpa using hinj j

/-- For every round-robin group with a fixed list of members, every value of its counter and every
number of selections that do not take the counter past its last value: each member is selected
`m / n` times, rounded down or up. A member is a place in the list; if the members have tags of
their own, the tags that are returned say the same. -/
theorem selectAll_fair (keys : List GoString) (hwrap : r.idx.toNat + keys.length ≤ 2 ^ 64) :
    (∃ places : List (Fin r.group.members.length),
      r.group.selectAll keys = places.map (fun i => some (r.group.members.get i)) ∧
      ∀ i, places.count i = keys.length / r.group.members.length ∨
        places.count i = keys.length ⌈/⌉ r.group.members.length) ∧
    ((r.group.members.map Consumer.tag).Nodup → ∀ c ∈ r.group.members,
      (r.group.selectAll keys).countP (fun o => o.map Consumer.tag = some c.tag) =
          keys.length / r.group.members.length ∨
        (r.group.selectAll keys).countP (fun o => o.map Consumer.tag = some c.tag) =
          keys.length ⌈/⌉ r.group.members.length) := by
  refine ⟨⟨r.places keys.length, r.selectAll_places keys hwrap, r.count_places keys.length⟩, ?_⟩
  intro htags c hc
  obtain ⟨i, rfl⟩ := mem_iff_get.mp hc
  rw [r.selectAll_places keys hwrap, r.countP_tag htags]
  exact r.count_places keys.length i

def member (tag : GoString) : Consumer := ⟨tag, str "q1", none, false, false, [], str "g1"⟩

def threeMembers : RoundRobinGroup where
  group :=
    { id := str "g1", queue := str "q1", strategy := .roundRobin 18446744073709551609
      members := [member (str "c1"), member (str "c2"), member (str "c3")] }
  idx := 18446744073709551609
  strategy_eq := rfl
  members_ne_nil := cons_ne_nil _ _
  length_lt := by decide

theorem threeMembers_fair :
    threeMembers.idx.toNat + (List.replicate 7 (str "rk")).length = 2 ^ 64 ∧
      (threeMembers.group.selectAll (List.replicate 7 (str "rk"))).map (Option.map Consumer.tag) =
        [str "c1", str "c2", str "c3", str "c1", str "c2", str "c3", str "c1"].map some ∧
      ∀ c ∈ threeMembers.group.members,
        let selected := (threeMembers.group.selectAll (List.replicate 7 (str "rk"))).countP
          fun o => o.map Consumer.tag = some c.tag
        selected = 7 / 3 ∨ selected = 7 ⌈/⌉ 3 :=
  ⟨by decide, by decide, (threeMembers.selectAll_fair _ (by decide)).2 (by decide)⟩

end RoundRobinGroup

end Gomq.Broker
