import Gomq.Lib.Run
import Mathlib.Order.Lattice

/-!
# Heartbeats

At each tick the monitor of a connection either finds that the peer has been silent for more than
two intervals and closes the connection, or sends a heartbeat. The channel of the ticker has room
for one tick, and further ones are lost. If the goroutine takes a tick within a delay after it was
due, a connection is closed after more than two and at most three intervals of silence and the
delay, and until then the peer gets a heartbeat in every interval and the delay
(`heartbeat_bounds`).
-/

namespace Gomq.Serve

inductive Watch where
  | running
  /-- it has seen `stopCh` closed -/
  | stopped
  /-- it has closed the connection -/
  | closed
  deriving DecidableEq

/-- The monitor, its ticker and the clock. -/
structure HeartbeatMonitor where
  interval : ℕ
  interval_pos : 0 < interval
  now : ℕ
  lastRecv : ℕ
  /-- when the ticker fires next -/
  due : ℕ
  /-- when the tick in the channel was due -/
  tick : Option ℕ
  stopCh : Bool
  loop : Watch
  /-- when the last heartbeat was sent, or the monitor started -/
  lastSent : ℕ
  /-- how long the peer had been silent when the connection was closed -/
  silence : Option ℕ

inductive HeartbeatAction where
  | wait (d : ℕ)
  | expect
  | tick
  | stop
  /-- the `select` sees that `stopCh` is closed -/
  | halt

namespace HeartbeatMonitor

/-- `Start` at the time `now`. -/
def start (interval : ℕ) (pos : 0 < interval) (now : ℕ) : HeartbeatMonitor :=
  ⟨interval, pos, now, now, now + interval, none, false, .running, now, none⟩

/-- Time passes, and the ticker fires as often as it is due. -/
def wait (h : HeartbeatMonitor) (d : ℕ) : HeartbeatMonitor :=
  let now := h.now + d
  if h.due ≤ now then
    { h with
      now := now
      due := h.due + h.interval * ((now - h.due) / h.interval + 1)
      tick := some (h.tick.getD h.due) }
  else { h with now := now }

def isPeerSilent (h : HeartbeatMonitor) : Bool := 2 * h.interval < h.now - h.lastRecv

def step (h : HeartbeatMonitor) : HeartbeatAction → HeartbeatMonitor
  | .wait d => h.wait d
  | .expect => { h with lastRecv := h.now }
  | .tick =>
    if h.loop = .running ∧ h.tick.isSome then
      if h.isPeerSilent then
        { h with tick := none, loop := .closed, silence := some (h.now - h.lastRecv) }
      else { h with tick := none, lastSent := h.now }
    else h
  | .stop => { h with stopCh := true }
  | .halt => if h.loop = .running ∧ h.stopCh then { h with loop := .stopped } else h

/-- When the next tick that the goroutine will take is due. -/
def turn (h : HeartbeatMonitor) : ℕ := h.tick.getD h.due

/-- After the step no tick has been in the channel for longer than the delay. -/
def Prompt (delay : ℕ) (h : HeartbeatMonitor) (a : HeartbeatAction) : Prop :=
  (h.step a).loop = .running → (h.step a).now ≤ (h.step a).turn + delay

instance (delay : ℕ) (h : HeartbeatMonitor) (a : HeartbeatAction) : Decidable (h.Prompt delay a) :=
  inferInstanceAs (Decidable (_ → _))

/-- The next tick is due within an interval, and the one that will be taken comes in time. -/
structure Timely (delay : ℕ) (h : HeartbeatMonitor) : Prop where
  early : h.now < h.due
  soon : h.due ≤ h.now + h.interval
  received : h.lastRecv ≤ h.now
  turn_received : h.loop = .running → h.turn ≤ h.lastRecv + 3 * h.interval
  turn_sent : h.loop = .running → h.turn ≤ h.lastSent + h.interval
  prompt : h.loop = .running → h.now ≤ h.turn + delay
  silence : ∀ n, h.silence = some n → 2 * h.interval < n ∧ n ≤ 3 * h.interval + delay

theorem timely_start (delay interval : ℕ) (pos : 0 < interval) (now : ℕ) :
    (start interval pos now).Timely delay := by
  constructor <;> simp [start, turn] <;> omega

theorem due_wait (h : HeartbeatMonitor) (now : ℕ) (hdue : h.due ≤ now) :
    now < h.due + h.interval * ((now - h.due) / h.interval + 1) ∧
      h.due + h.interval * ((now - h.due) / h.interval + 1) ≤ now + h.interval := by
  have hdiv := Nat.div_add_mod (now - h.due) h.interval
  have hmod := Nat.mod_lt (now - h.due) h.interval_pos
  rw [Nat.mul_add, Nat.mul_one]
  omega

theorem Timely.wait {delay d : ℕ} {h : HeartbeatMonitor} (ht : h.Timely delay)
    (hp : h.Prompt delay (.wait d)) : (h.wait d).Timely delay := by
  have hrecv := ht.received
  unfold Prompt step at hp
  unfold HeartbeatMonitor.wait at hp ⊢
  by_cases hdue : h.due ≤ h.now + d
  · have hnext := due_wait h (h.now + d) hdue
    simp only [if_pos hdue] at hp ⊢
    exact ⟨hnext.1, hnext.2, Nat.le_add_right_of_le hrecv, ht.turn_received, ht.turn_sent, hp,
      ht.silence⟩
  · have hsoon := ht.soon
    simp only [if_neg hdue] at hp ⊢
    exact ⟨not_le.mp hdue, by simp only; omega, Nat.le_add_right_of_le hrecv, ht.turn_received,
      ht.turn_sent, hp, ht.silence⟩

theorem Timely.tick {delay : ℕ} {h : HeartbeatMonitor} (ht : h.Timely delay) :
    (h.step .tick).Timely delay := by
  obtain ⟨hearly, hsoon, hrecv, hturn, hsent, hprompt, hsilence⟩ := ht
  simp only [step]
  by_cases hrun : h.loop = .running ∧ h.tick.isSome
  · rw [if_pos hrun]
    have hturn := hturn hrun.1
    have hprompt := hprompt hrun.1
    by_cases hsilent : h.isPeerSilent
    · rw [if_pos hsilent]
      have hlong : 2 * h.interval < h.now - h.lastRecv := of_decide_eq_true hsilent
      refine ⟨hearly, hsoon, hrecv, nofun, nofun, nofun, ?_⟩
      rintro n ⟨⟩
      simp only
      omega
    · rw [if_neg hsilent]
      have hshort : ¬ 2 * h.interval < h.now - h.lastRecv := fun hlt => hsilent (decide_eq_true hlt)
      refine ⟨hearly, hsoon, hrecv, fun _ => ?_, fun _ => hsoon, fun _ => ?_, hsilence⟩
      · change h.due ≤ h.lastRecv + 3 * h.interval
        omega
      · change h.now ≤ h.due + delay
        omega
  · rw [if_neg hrun]
    exact ⟨hearly, hsoon, hrecv, hturn, hsent, hprompt, hsilence⟩

theorem Timely.step {delay : ℕ} {h : HeartbeatMonitor} {a : HeartbeatAction} (ht : h.Timely delay)
    (hp : h.Prompt delay a) : (h.step a).Timely delay := by
  cases a with
  | wait d => exact ht.wait hp
  | tick => exact ht.tick
  | expect =>
    refine ⟨ht.early, ht.soon, le_rfl, fun hrun => ?_, ht.turn_sent, ht.prompt, ht.silence⟩
    exact (ht.turn_received hrun).trans (Nat.add_le_add_right ht.received _)
  | stop =>
    exact ⟨ht.early, ht.soon, ht.received, ht.turn_received, ht.turn_sent, ht.prompt, ht.silence⟩
  | halt =>
    simp only [HeartbeatMonitor.step]
    split
    · exact ⟨ht.early, ht.soon, ht.received, nofun, nofun, nofun, ht.silence⟩
    · exact ht

theorem interval_step (h : HeartbeatMonitor) (a : HeartbeatAction) :
    (h.step a).interval = h.interval := by
  cases a <;> simp only [step, wait] <;> (repeat' split) <;> rfl

/-- In every run in which each tick is taken within the delay: a connection was closed after more
than two intervals of silence, and after no more than three and the delay; and while the monitor
runs, neither the silence of the peer nor the time since the last heartbeat is longer. -/
theorem heartbeat_bounds (delay interval : ℕ) (pos : 0 < interval) (now : ℕ)
    (acts : List HeartbeatAction)
    (hprompt : Along step (Prompt delay) (start interval pos now) acts) :
    let h := acts.foldl step (start interval pos now)
    (∀ n, h.silence = some n → 2 * interval < n ∧ n ≤ 3 * interval + delay) ∧
      (h.loop = .running →
        h.now ≤ h.lastRecv + 3 * interval + delay ∧ h.now ≤ h.lastSent + interval + delay) := by
  intro h
  have hinterval : h.interval = interval :=
    acts.foldlRecOn (motive := fun h => h.interval = interval) step rfl fun h hi a _ =>
      (interval_step h a).trans hi
  have ht : h.Timely delay :=
    hprompt.inv (fun _ _ ht hp => ht.step hp) (timely_start delay interval pos now)
  rw [← hinterval]
  refine ⟨ht.silence, fun hrun => ?_⟩
  have := ht.prompt hrun
  have := ht.turn_received hrun
  have := ht.turn_sent hrun
  omega

/-- A peer that never sends anything: two heartbeats, and the connection is closed at the third
tick. -/
theorem heartbeat_bounds_silent :
    let h := [.wait 10, .tick, .wait 10, .tick, .wait 12, .tick].foldl step
      (start 10 (by decide) 0)
    h.loop = .closed ∧ h.silence = some 32 ∧ (20 < 32 ∧ 32 ≤ 30 + 2) :=
  ⟨by decide, by decide, (heartbeat_bounds 2 10 (by decide) 0
    [.wait 10, .tick, .wait 10, .tick, .wait 12, .tick] (by decide)).1 32 (by decide)⟩

end HeartbeatMonitor

end Gomq.Serve
