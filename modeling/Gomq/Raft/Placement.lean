import Gomq.Raft.Matching

/-!
# AppendEntries with any entries

A request comes from the network as it is: nothing checks the indexes of its entries. The loop of
`AppendEntries` skips the entries that the log has. What is left (`news`) is written where the index
of its first entry says, whatever the other indexes are (`mergeEntries_eq`). An index 0 is looked up
before the start of the log, and an index behind the end of the log is appended at the end. So the
handler gets through and leaves the log in order exactly if what is left is a stretch of consecutive
indexes that begins in the log or right behind it (`tolerates_iff`).
-/

namespace Gomq.Raft

open List

/-- The entries carry the indexes `n`, `n + 1` and so on. -/
def ConsecutiveFrom (n : ℕ) (entries : List LogEntry) : Prop :=
  ∀ k e, entries[k]? = some e → e.index = n + k

theorem consecutiveFrom_iff {n : ℕ} {entries : List LogEntry} :
    ConsecutiveFrom n entries ↔
      entries.map LogEntry.index = List.range' n entries.length := by
  constructor
  · intro h
    refine ext_getElem? fun k => ?_
    rw [List.getElem?_map]
    cases hk : entries[k]? with
    | none =>
      rw [List.getElem?_eq_none_iff] at hk
      rw [List.getElem?_eq_none (by simpa using hk)]
      rfl
    | some e =>
      have hlt := (List.getElem?_eq_some_iff.mp hk).1
      rw [List.getElem?_range' hlt, Option.map_some, h k e hk, Nat.one_mul]
  · intro h k e hk
    have hlt := (List.getElem?_eq_some_iff.mp hk).1
    have hat : (entries.map LogEntry.index)[k]? = some e.index := by
      rw [List.getElem?_map, hk]
      rfl
    rw [h, List.getElem?_range' hlt, Nat.one_mul] at hat
    exact (Option.some.inj hat).symm

instance (n : ℕ) (entries : List LogEntry) : Decidable (ConsecutiveFrom n entries) :=
  decidable_of_iff _ consecutiveFrom_iff.symm

def held (log : List LogEntry) (e : LogEntry) : Bool :=
  match entryAt log e.index with
  | some old => old.term == e.term
  | none => false

def news (log entries : List LogEntry) : List LogEntry := entries.dropWhile (held log)

/-- What is new begins in the log or right behind it and goes on without gaps. -/
def WellPlaced (log entries : List LogEntry) : Prop :=
  ∀ e rest, news log entries = e :: rest →
    (0 < e.index ∧ e.index ≤ log.length + 1) ∧ ConsecutiveFrom e.index (e :: rest)

/-! ## The handler -/

structure AppendEntriesResponse where
  term : ℕ
  success : Bool
  deriving DecidableEq, Repr

/-- `HandleAppendEntries`; the response is `none` after a panic. -/
def RaftNode.handleAppendEntries (req : AppendEntriesRequest) (r : RaftNode) :
    Option AppendEntriesResponse × RaftNode :=
  let r' := r.appendEntries req
  (r'.1.map fun success => ⟨r'.2.currentTerm, success⟩, r'.2)

/-- The handler stays within the bounds of the log and leaves entry `i` at index `i`. -/
def Tolerates (r : RaftNode) (req : AppendEntriesRequest) : Prop :=
  (r.handleAppendEntries req).1 ≠ none ∧ Indexed (r.handleAppendEntries req).2.log

/-! ## The loop -/

section Loop

variable {log : List LogEntry} {e : LogEntry}

theorem entryAt_isSome {i : ℕ} : (entryAt log i).isSome ↔ 0 < i ∧ i ≤ log.length := by
  cases i with
  | zero => simp [entryAt]
  | succ k =>
    rw [entryAt_succ, Option.isSome_iff_ne_none, ne_eq, List.getElem?_eq_none_iff]
    omega

theorem held_iff :
    held log e = true ↔ ∃ old, entryAt log e.index = some old ∧ old.term = e.term := by
  unfold held
  cases entryAt log e.index with
  | none => simp
  | some old => simp

theorem bounds_of_held (h : held log e = true) : 0 < e.index ∧ e.index ≤ log.length := by
  obtain ⟨old, hold, -⟩ := held_iff.mp h
  exact entryAt_isSome.mp (by rw [hold]; rfl)

theorem news_cons_of_held (h : held log e = true) (rest : List LogEntry) :
    news log (e :: rest) = news log rest := dropWhile_cons_of_pos h

theorem news_cons_of_not_held (h : ¬ held log e = true) (rest : List LogEntry) :
    news log (e :: rest) = e :: rest := dropWhile_cons_of_neg h

theorem mergeEntries_eq (log entries : List LogEntry) :
    mergeEntries log entries =
      match news log entries with
      | [] => some log
      | e :: rest => if e.index = 0 then none else some (log.take (e.index - 1) ++ e :: rest) := by
  induction entries with
  | nil => rfl
  | cons e rest ih =>
    rw [mergeEntries]
    by_cases hheld : held log e = true
    · obtain ⟨old, hold, hterm⟩ := held_iff.mp hheld
      rw [news_cons_of_held hheld, if_pos (bounds_of_held hheld).2, hold]
      dsimp only
      rw [if_neg (not_not.mpr hterm), ih]
    · rw [news_cons_of_not_held hheld]
      dsimp only
      by_cases hzero : e.index = 0
      · rw [if_pos hzero, hzero, if_pos (Nat.zero_le _)]
        rfl
      rw [if_neg hzero]
      by_cases hin : e.index ≤ log.length
      · -- an entry of another term
        obtain ⟨old, hold⟩ := Option.isSome_iff_exists.mp
          (entryAt_isSome.mpr ⟨Nat.pos_of_ne_zero hzero, hin⟩)
        rw [if_pos hin, hold]
        exact if_pos fun hterm => hheld (held_iff.mpr ⟨old, hold, hterm⟩)
      · rw [if_neg hin, take_of_length_le (by omega)]

theorem mergeEntries_of_new {entries rest : List LogEntry} (h : news log entries = e :: rest) :
    mergeEntries log entries =
      if e.index = 0 then none else some (log.take (e.index - 1) ++ e :: rest) := by
  rw [mergeEntries_eq, h]

theorem mergeEntries_of_held {entries : List LogEntry} (h : news log entries = []) :
    mergeEntries log entries = some log := by
  rw [mergeEntries_eq, h]

end Loop

/-! ## Where the entries end up -/

section Order

variable {log : List LogEntry}

theorem indexed_iff : Indexed log ↔ ConsecutiveFrom 1 log := by
  constructor
  · intro h k e hk
    rw [h.index hk, Nat.add_comm]
  · intro h
    exact indexed_of_getElem? fun k e hk => by rw [h k e hk, Nat.add_comm]

theorem indexed_take_append_iff (h : Indexed log) {n : ℕ} {l : List LogEntry} :
    Indexed (log.take n ++ l) ↔ ConsecutiveFrom (min n log.length + 1) l := by
  rw [indexed_iff] at h ⊢
  constructor
  · intro hall k e hk
    have hplace : (log.take n ++ l)[(log.take n).length + k]? = some e := by
      rw [List.getElem?_append_right (Nat.le_add_right _ _), Nat.add_sub_cancel_left]
      exact hk
    rw [hall _ e hplace, length_take]
    omega
  · intro hl k e hk
    rcases Nat.lt_or_ge k (log.take n).length with hlt | hge
    · rw [List.getElem?_append_left hlt, List.getElem?_take_of_lt (by simp at hlt; omega)] at hk
      exact h k e hk
    · rw [List.getElem?_append_right hge] at hk
      rw [hl _ e hk]
      rw [length_take] at hge ⊢
      omega

theorem ConsecutiveFrom.head {n : ℕ} {e : LogEntry} {rest : List LogEntry}
    (h : ConsecutiveFrom n (e :: rest)) : e.index = n := h 0 e rfl

/-- The loop gets through and leaves the log in order exactly if what is new is well placed. -/
theorem mergeEntries_indexed_iff (h : Indexed log) (entries : List LogEntry) :
    (∃ log', mergeEntries log entries = some log' ∧ Indexed log') ↔ WellPlaced log entries := by
  cases hnews : news log entries with
  | nil =>
    rw [mergeEntries_of_held hnews]
    refine iff_of_true ⟨log, rfl, h⟩ fun e rest heq => ?_
    rw [hnews] at heq
    cases heq
  | cons e rest =>
    rw [mergeEntries_of_new hnews]
    have hplaced : WellPlaced log entries ↔
        (0 < e.index ∧ e.index ≤ log.length + 1) ∧ ConsecutiveFrom e.index (e :: rest) := by
      unfold WellPlaced
      rw [hnews]
      refine ⟨fun hall => hall e rest rfl, fun hthis e' rest' heq => ?_⟩
      cases heq
      exact hthis
    rw [hplaced]
    by_cases hzero : e.index = 0
    · rw [if_pos hzero]
      refine iff_of_false ?_ fun hthis => absurd hthis.1.1 (by omega)
      rintro ⟨_, hnone, -⟩
      cases hnone
    rw [if_neg hzero]
    constructor
    · rintro ⟨_, hsome, hindexed⟩
      cases hsome
      have hl := (indexed_take_append_iff h).mp hindexed
      have hhead := hl.head
      refine ⟨by omega, ?_⟩
      rw [hhead]
      exact hl
    · rintro ⟨⟨hpos, hle⟩, hl⟩
      refine ⟨_, rfl, (indexed_take_append_iff h).mpr ?_⟩
      rw [show min (e.index - 1) log.length + 1 = e.index by omega]
      exact hl

end Order

/-- Let the log of a node be in order. The handler of a request stays within its bounds and leaves
it in order exactly if the request is refused, for its term or for the entry before the new ones, or
what is new in it is well placed. -/
theorem tolerates_iff {r : RaftNode} (hlog : Indexed r.log) (req : AppendEntriesRequest) :
    Tolerates r req ↔
      (r.currentTerm ≤ req.term → r.prevMatches req.prevLogIndex req.prevLogTerm = true →
        WellPlaced r.log req.entries) := by
  unfold Tolerates RaftNode.handleAppendEntries RaftNode.appendEntries
  dsimp only
  rw [RaftNode.prevMatches_observeTerm, RaftNode.observeTerm_log,
    RaftNode.observeTerm_commitIndex]
  by_cases hold : req.term < r.currentTerm
  · rw [if_pos hold]
    exact iff_of_true ⟨nofun, hlog⟩ fun hterm => absurd hold (Nat.not_lt.mpr hterm)
  rw [if_neg hold]
  by_cases hprev : r.prevMatches req.prevLogIndex req.prevLogTerm = true
  · rw [if_neg (not_not.mpr hprev), ← mergeEntries_indexed_iff hlog]
    cases hm : mergeEntries r.log req.entries with
    | none =>
      refine iff_of_false (fun h => h.1 rfl) fun h => ?_
      obtain ⟨_, hsome, -⟩ := h (Nat.le_of_not_lt hold) hprev
      cases hsome
    | some log =>
      constructor
      · intro h _ _
        exact ⟨log, rfl, h.2⟩
      · intro h
        obtain ⟨_, hsome, hindexed⟩ := h (Nat.le_of_not_lt hold) hprev
        cases hsome
        exact ⟨nofun, hindexed⟩
  · rw [if_pos hprev]
    refine iff_of_true ⟨nofun, ?_⟩ fun _ hyes => absurd hyes hprev
    rw [RaftNode.observeTerm_log]
    exact hlog

/-! ## Requests out of place -/

def indexZero : AppendEntriesRequest := ⟨1, str "a", 0, 0, [⟨0, 1, []⟩], 0⟩

def indexTwo : AppendEntriesRequest := ⟨1, str "a", 0, 0, [⟨2, 1, []⟩], 0⟩

theorem indexed_newRaftNode (id : GoString) (peers : List GoString) :
    Indexed (newRaftNode id peers).log := by
  intro i e he
  obtain ⟨k, -, hk⟩ := entryAt_eq_some.mp he
  cases hk

theorem wellPlaced_secondEntry : WellPlaced staleFollower.log secondEntry.entries := by
  have hnews : news staleFollower.log secondEntry.entries = [⟨2, 2, []⟩] := by decide
  intro e rest heq
  rw [hnews] at heq
  cases heq
  refine ⟨by decide, fun k e he => ?_⟩
  match k with
  | 0 => cases he; rfl
  | k + 1 => cases he

theorem tolerates_iff_staleFollower :
    Indexed staleFollower.log ∧ Tolerates staleFollower secondEntry :=
  ⟨indexed_staleFollower,
    (tolerates_iff indexed_staleFollower secondEntry).mpr fun _ _ => wellPlaced_secondEntry⟩

/-- On a new node, the first request is a lookup out of bounds, and the second leaves entry 2 at
index 1. -/
theorem newRaftNode_not_tolerates :
    Indexed (newRaftNode (str "b") [str "a"]).log ∧
      ((newRaftNode (str "b") [str "a"]).handleAppendEntries indexZero).1 = none ∧
      ((newRaftNode (str "b") [str "a"]).handleAppendEntries indexTwo).2.log = [⟨2, 1, []⟩] ∧
      ¬ Tolerates (newRaftNode (str "b") [str "a"]) indexZero ∧
      ¬ Tolerates (newRaftNode (str "b") [str "a"]) indexTwo := by
  have hlog : ((newRaftNode (str "b") [str "a"]).handleAppendEntries indexTwo).2.log =
      [⟨2, 1, []⟩] := by decide
  refine ⟨indexed_newRaftNode _ _, by decide, hlog, fun h => h.1 (by decide), fun h => ?_⟩
  have hindexed := h.2
  rw [hlog] at hindexed
  exact absurd (hindexed 1 ⟨2, 1, []⟩ rfl) (by decide)

end Gomq.Raft
