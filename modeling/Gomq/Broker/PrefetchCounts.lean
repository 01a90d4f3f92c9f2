import Gomq.Broker.PushLimits

/-!
# The counters of the prefetch controller

The controller counts deliveries without an acknowledgement twice, for each channel and for the
connection, and an acknowledgement lowers the two counters independently of each other. They agree
with the outstanding deliveries as long as no acknowledgement is for a channel without one while
another channel has some, and the 16 bits of the connection's counter suffice (`accurate_run_iff`).
-/

namespace Gomq.Broker

open List

/-- The controller with its counters, which the server never moves. -/
structure CountedPrefetch extends Prefetch where
  byChan : GoMap UInt16 UInt16
  byConn : UInt16

namespace CountedPrefetch

def start (limits : Prefetch) : CountedPrefetch := { limits with byChan := ∅, byConn := 0 }

def current (p : CountedPrefetch) (channelID : UInt16) : UInt16 := p.byChan.getD channelID 0

def recordDelivery (p : CountedPrefetch) (channelID : UInt16) : CountedPrefetch :=
  { p with byChan := p.byChan.set channelID (p.current channelID + 1), byConn := p.byConn + 1 }

def ackDelivery (p : CountedPrefetch) (channelID : UInt16) : CountedPrefetch :=
  { p with
    byChan := if 0 < p.current channelID then
        p.byChan.set channelID (p.current channelID - 1) else p.byChan
    byConn := if 0 < p.byConn then p.byConn - 1 else p.byConn }

def canDeliver (p : CountedPrefetch) (channelID : UInt16) : Bool :=
  let l := p.limitFor channelID
  if l.count = 0 ∧ l.size = 0 then true
  else if l.global then p.byConn < l.count
  else p.current channelID < l.count

def total (p : CountedPrefetch) : ℕ := (p.byChan.vals.map UInt16.toNat).sum

end CountedPrefetch

/-! ## Runs -/

inductive DeliveryAction where
  | record (channelID : UInt16)
  | ack (channelID : UInt16)

/-- The controller, and the channels of the deliveries that are not acknowledged. -/
structure Counting where
  prefetch : CountedPrefetch
  outstanding : List UInt16

namespace Counting

/-- An acknowledgement beyond the outstanding deliveries of its channel is none. -/
def step (s : Counting) : DeliveryAction → Counting
  | .record c => ⟨s.prefetch.recordDelivery c, c :: s.outstanding⟩
  | .ack c => ⟨s.prefetch.ackDelivery c, s.outstanding.erase c⟩

/-- Each channel's count is that of its outstanding deliveries, the connection's is their sum. -/
def Accurate (s : Counting) : Prop :=
  (∀ c, (s.prefetch.current c).toNat = s.outstanding.count c) ∧
    s.prefetch.byConn.toNat = s.prefetch.total

/-- The connection's counter has room for a delivery, and an acknowledgement meets an outstanding
delivery of its channel unless there is none at all. -/
def Countable (s : Counting) : DeliveryAction → Prop
  | .record _ => s.outstanding.length + 1 < 2 ^ 16
  | .ack c => c ∈ s.outstanding ∨ s.outstanding = []

instance (s : Counting) (a : DeliveryAction) : Decidable (s.Countable a) := by
  unfold Countable
  cases a <;> infer_instance

/-! ## One step -/

theorem total_set (m : GoMap UInt16 UInt16) (c v : UInt16) :
    ((m.set c v).vals.map UInt16.toNat).sum + (m.getD c 0).toNat =
      (m.vals.map UInt16.toNat).sum + v.toNat := by
  rw [GoMap.vals_set, map_cons, sum_cons]
  cases h : m.get c with
  | none =>
    rw [GoMap.getD_of_none h, GoMap.del_of_get_none h]
    show v.toNat + _ + 0 = _
    omega
  | some w =>
    have hperm := ((GoMap.vals_perm_of_get h).map UInt16.toNat).sum_eq
    rw [map_cons, sum_cons] at hperm
    rw [GoMap.getD_of_get h]
    omega

theorem toNat_sub_one {n : UInt16} (h : 0 < n) : (n - 1).toNat = n.toNat - 1 := by
  have hle : 1 ≤ n := by
    rw [UInt16.lt_iff_toNat_lt] at h
    exact UInt16.le_iff_toNat_le.mpr h
  rw [UInt16.toNat_sub_of_le n 1 hle]
  rfl

theorem toNat_eq_zero_of_not_pos {n : UInt16} (h : ¬ 0 < n) : n.toNat = 0 := by
  rw [UInt16.lt_iff_toNat_lt] at h
  exact Nat.eq_zero_of_not_pos h

section Delivery

variable (p : CountedPrefetch) (c c' : UInt16)

theorem total_recordDelivery :
    (p.recordDelivery c).total + (p.current c).toNat = p.total + (p.current c + 1).toNat :=
  total_set p.byChan c _

theorem current_recordDelivery :
    (p.recordDelivery c).current c' = if c' = c then p.current c + 1 else p.current c' :=
  GoMap.getD_set p.byChan c c' _ 0

theorem total_ackDelivery :
    (p.ackDelivery c).total + (p.current c).toNat = p.total + ((p.current c).toNat - 1) := by
  unfold CountedPrefetch.ackDelivery CountedPrefetch.total
  dsimp only
  split
  · rename_i hpos
    rw [← toNat_sub_one hpos]
    exact total_set p.byChan c _
  · rename_i hzero
    rw [toNat_eq_zero_of_not_pos hzero]

theorem toNat_current_ackDelivery :
    ((p.ackDelivery c).current c').toNat =
      if c' = c then (p.current c).toNat - 1 else (p.current c').toNat := by
  unfold CountedPrefetch.ackDelivery CountedPrefetch.current
  dsimp only
  split
  · rename_i hpos
    rw [GoMap.getD_set, apply_ite UInt16.toNat, toNat_sub_one hpos]
  · rename_i hzero
    split
    · rename_i hc
      rw [hc, toNat_eq_zero_of_not_pos hzero]
    · rfl

theorem toNat_byConn_ackDelivery : (p.ackDelivery c).byConn.toNat = p.byConn.toNat - 1 := by
  unfold CountedPrefetch.ackDelivery
  dsimp only
  split
  · rename_i hpos
    exact toNat_sub_one hpos
  · rename_i hzero
    rw [toNat_eq_zero_of_not_pos hzero]

end Delivery

/-! ## The invariant -/

/-- Accurate, and the sum of the counts is the number of outstanding deliveries. -/
structure Sound (s : Counting) : Prop where
  accurate : s.Accurate
  total_eq : s.prefetch.total = s.outstanding.length

theorem sound_start (limits : Prefetch) : Sound ⟨.start limits, []⟩ :=
  ⟨⟨fun _ => rfl, rfl⟩, rfl⟩

section Step

variable {s : Counting} (c : UInt16)

theorem sound_record (h : s.Sound) (hroom : s.outstanding.length + 1 < 2 ^ 16) :
    (s.step (.record c)).Sound := by
  obtain ⟨⟨hcur, hconn⟩, htotal⟩ := h
  have hcount : s.outstanding.count c ≤ s.outstanding.length := count_le_length
  have hone : (s.prefetch.current c + 1).toNat = s.outstanding.count c + 1 := by
    rw [UInt16.toNat_add, hcur c]
    exact Nat.mod_eq_of_lt (lt_of_le_of_lt (Nat.succ_le_succ hcount) hroom)
  have hmoved : (s.prefetch.recordDelivery c).total = s.prefetch.total + 1 := by
    have := total_recordDelivery s.prefetch c
    rw [hone, hcur c] at this
    omega
  refine ⟨⟨fun c' => ?_, ?_⟩, ?_⟩
  · show ((s.prefetch.recordDelivery c).current c').toNat = (c :: s.outstanding).count c'
    rw [current_recordDelivery, count_cons]
    by_cases hc : c' = c
    · subst hc
      simp [hone]
    · simp [hc, Ne.symm hc, hcur c']
  · show (s.prefetch.byConn + 1).toNat = (s.prefetch.recordDelivery c).total
    rw [UInt16.toNat_add, hmoved, hconn, htotal]
    exact Nat.mod_eq_of_lt hroom
  · show (s.prefetch.recordDelivery c).total = (c :: s.outstanding).length
    rw [hmoved, htotal, length_cons]

theorem sound_ack (h : s.Sound) (hmeet : c ∈ s.outstanding ∨ s.outstanding = []) :
    (s.step (.ack c)).Sound := by
  obtain ⟨⟨hcur, hconn⟩, htotal⟩ := h
  have hmoved : (s.prefetch.ackDelivery c).total = s.prefetch.total - 1 := by
    have := total_ackDelivery s.prefetch c
    rw [hcur c, htotal] at this
    rw [htotal]
    rcases hmeet with hmem | hnil
    · have := count_pos_iff.mpr hmem
      omega
    · rw [hnil] at this ⊢
      simpa using this
  refine ⟨⟨fun c' => ?_, ?_⟩, ?_⟩
  · show ((s.prefetch.ackDelivery c).current c').toNat = (s.outstanding.erase c).count c'
    rw [toNat_current_ackDelivery, count_erase, hcur c, hcur c']
    by_cases hc : c' = c
    · simp [hc]
    · simp [hc, Ne.symm hc]
  · show (s.prefetch.ackDelivery c).byConn.toNat = (s.prefetch.ackDelivery c).total
    rw [toNat_byConn_ackDelivery, hmoved, hconn]
  · show (s.prefetch.ackDelivery c).total = (s.outstanding.erase c).length
    rw [hmoved, htotal]
    rcases hmeet with hmem | hnil
    · exact (length_erase_of_mem hmem).symm
    · rw [hnil]
      rfl

/-- At the last count of 16 bits either the channel's counter or the connection's is lost. -/
theorem room_of_accurate_record (h : s.Sound) (hacc : (s.step (.record c)).Accurate) :
    s.outstanding.length + 1 < 2 ^ 16 := by
  obtain ⟨⟨hcur, hconn⟩, htotal⟩ := h
  have hchan : ((s.prefetch.recordDelivery c).current c).toNat = s.outstanding.count c + 1 :=
    (hacc.1 c).trans count_cons_self
  rw [current_recordDelivery, if_pos rfl] at hchan
  have hsum := total_recordDelivery s.prefetch c
  have hconn' : (s.prefetch.byConn + 1).toNat = (s.prefetch.recordDelivery c).total := hacc.2
  rw [hchan, hcur c, ← hconn', htotal] at hsum
  have hlt := (s.prefetch.byConn + 1).toNat_lt
  omega

/-- An acknowledgement without a delivery still lowers the connection's counter. -/
theorem meet_of_accurate_ack (h : s.Sound) (hacc : (s.step (.ack c)).Accurate) :
    c ∈ s.outstanding ∨ s.outstanding = [] := by
  obtain ⟨⟨hcur, hconn⟩, htotal⟩ := h
  by_contra hnone
  obtain ⟨hmem, hne⟩ := not_or.mp hnone
  have hzero : s.outstanding.count c = 0 := count_eq_zero.mpr hmem
  have hsum := total_ackDelivery s.prefetch c
  have hconn' : (s.prefetch.ackDelivery c).byConn.toNat = (s.prefetch.ackDelivery c).total :=
    hacc.2
  rw [toNat_byConn_ackDelivery, hconn] at hconn'
  rw [← hconn', hcur c, hzero, htotal] at hsum
  have := length_pos_iff.mpr hne
  omega

end Step

theorem sound_step {s : Counting} {a : DeliveryAction} (h : s.Sound) (ha : s.Countable a) :
    (s.step a).Sound := by
  cases a with
  | record c => exact sound_record c h ha
  | ack c => exact sound_ack c h ha

theorem accurate_step_iff {s : Counting} (h : s.Sound) (a : DeliveryAction) :
    (s.step a).Accurate ↔ s.Countable a := by
  refine ⟨fun hacc => ?_, fun ha => (sound_step h ha).accurate⟩
  cases a with
  | record c => exact room_of_accurate_record c h hacc
  | ack c => exact meet_of_accurate_ack c h hacc

theorem canDeliver_of_sound {s : Counting} (h : s.Sound) (c : UInt16) :
    s.prefetch.canDeliver c = true ↔
      (s.prefetch.limitFor c).count = 0 ∧ (s.prefetch.limitFor c).size = 0 ∨
        (if (s.prefetch.limitFor c).global then s.outstanding.length
          else s.outstanding.count c) < (s.prefetch.limitFor c).count.toNat := by
  unfold CountedPrefetch.canDeliver
  dsimp only
  by_cases hnone : (s.prefetch.limitFor c).count = 0 ∧ (s.prefetch.limitFor c).size = 0
  · rw [if_pos hnone]
    exact iff_of_true rfl (.inl hnone)
  · rw [if_neg hnone, or_iff_right hnone]
    split
    · rw [decide_eq_true_eq, UInt16.lt_iff_toNat_lt, h.accurate.2, h.total_eq]
    · rw [decide_eq_true_eq, UInt16.lt_iff_toNat_lt, h.accurate.1 c]

/-! ## Whole runs -/

/-- The counters are accurate after every step of a run exactly if every step is countable. -/
theorem accurate_run_iff (limits : Prefetch) (acts : List DeliveryAction) :
    Along step (fun s a => (s.step a).Accurate) ⟨.start limits, []⟩ acts ↔
      Along step Countable ⟨.start limits, []⟩ acts :=
  Along.iff_of_kept (fun _ _ h ha => sound_step h ha) (fun _ a h => accurate_step_iff h a)
    (sound_start limits)

/-- A delivery on channel 1 and an acknowledgement on channel 2: the connection counts none. -/
theorem accurate_run_stray :
    let s := [DeliveryAction.record 1, .ack 2].foldl step ⟨.start ⟨none, ∅⟩, []⟩
    s.prefetch.byConn = 0 ∧ s.prefetch.current 1 = 1 ∧ s.prefetch.total = 1 ∧ ¬ s.Accurate := by
  refine ⟨by decide, by decide, by decide, fun hacc => ?_⟩
  exact absurd hacc.2 (by decide)

end Counting

end Gomq.Broker
