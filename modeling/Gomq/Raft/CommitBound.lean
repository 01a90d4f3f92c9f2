import Gomq.Lib.Run
import Gomq.Lib.Slice
import Gomq.Raft.Placement

/-!
# The commit index and the length of the log

`Committed` returns `r.log[:r.commitIndex]`. Within the log these are its first entries; past its
end Go shows what the array behind the log still holds (`BackedNode`). A request that conflicts with
the log cuts it down to the last entry sent, and the commit index stays: it is within the log after
every call exactly if each such request reaches up to the commit index or raises it
(`inLog_run_iff`).
-/

namespace Gomq.Raft

instance : Inhabited LogEntry := ⟨⟨0, 0, []⟩⟩

structure BackedNode where
  node : RaftNode
  spare : List LogEntry
  deriving DecidableEq

/-- The loop of `AppendEntries` on the slice. -/
def mergeSlice (room : ℕ) (log : Slice LogEntry) : List LogEntry → Option (Slice LogEntry)
  | [] => some log
  | ent :: rest =>
    if ent.index ≤ log.elems.length then
      match entryAt log.elems ent.index with
      | none => none
      | some old =>
        if old.term ≠ ent.term then some ((log.cut (ent.index - 1)).append room (ent :: rest))
        else mergeSlice room log rest
    else some (log.append room (ent :: rest))

theorem elems_mergeSlice (room : ℕ) (log : Slice LogEntry) (entries : List LogEntry) :
    (mergeSlice room log entries).map Slice.elems = mergeEntries log.elems entries := by
  induction entries with
  | nil => rfl
  | cons ent rest ih =>
    unfold mergeSlice mergeEntries
    split
    · cases entryAt log.elems ent.index with
      | none => rfl
      | some old =>
        dsimp only
        split
        · rfl
        · exact ih
    · rfl

namespace BackedNode

def log (b : BackedNode) : Slice LogEntry := ⟨b.node.log, b.spare⟩

/-- `Committed`; `none` is a panic. -/
def committed (b : BackedNode) : Option (List LogEntry) :=
  if b.node.commitIndex = 0 then some [] else b.log.upTo b.node.commitIndex

/-- `Propose`, and what its `append` does to the array. -/
def propose (room : ℕ) (cmd : Bytes) (b : BackedNode) : BackedNode where
  node := (b.node.propose cmd).2
  spare :=
    if b.node.state ≠ .leader then b.spare
    else (b.log.append room [⟨b.node.log.length + 1, b.node.currentTerm, cmd⟩]).spare

/-- `AppendEntries`, and what it does to the array if it gets through. -/
def appendEntries (room : ℕ) (req : AppendEntriesRequest) (b : BackedNode) : BackedNode where
  node := (b.node.appendEntries req).2
  spare :=
    if (b.node.appendEntries req).1 = some true then
      ((mergeSlice room b.log req.entries).map Slice.spare).getD b.spare
    else b.spare

theorem log_propose {b : BackedNode} (h : b.node.state = .leader) (room : ℕ) (cmd : Bytes) :
    (b.propose room cmd).log =
      b.log.append room [⟨b.node.log.length + 1, b.node.currentTerm, cmd⟩] := by
  unfold propose RaftNode.propose log
  simp only [h, ne_eq, not_true_eq_false, if_false]
  rfl

theorem log_appendEntries {b : BackedNode} {req : AppendEntriesRequest}
    (h : (b.node.appendEntries req).1 = some true) (room : ℕ) :
    mergeSlice room b.log req.entries = some (b.appendEntries room req).log := by
  obtain ⟨log, -, -, hm, hnode⟩ := RaftNode.appendEntries_eq_true.mp (Prod.ext h rfl)
  have helems : (mergeSlice room b.log req.entries).map Slice.elems = some log :=
    (elems_mergeSlice room b.log req.entries).trans hm
  obtain ⟨s, hs, helems⟩ := Option.map_eq_some_iff.mp helems
  have hlog : (b.appendEntries room req).node.log = s.elems :=
    (congrArg RaftNode.log hnode).trans helems.symm
  have hspare : (b.appendEntries room req).spare = s.spare := by
    unfold appendEntries
    rw [if_pos h, hs]
    rfl
  rw [hs, BackedNode.log, hlog, hspare]

end BackedNode

inductive LogOp where
  | propose (cmd : Bytes)
  | becomeLeader
  | setCommitIndex (idx : ℕ)
  | appendEntries (req : AppendEntriesRequest)
  deriving DecidableEq

def logStep (b : BackedNode) : ℕ × LogOp → BackedNode
  | (room, .propose cmd) => b.propose room cmd
  | (_, .becomeLeader) => { b with node := b.node.becomeLeader }
  | (_, .setCommitIndex idx) => { b with node := b.node.setCommitIndex idx }
  | (room, .appendEntries req) => b.appendEntries room req

/-- The commit index is raised within the log only, and the entries of a request are a segment that
starts right behind its previous entry. -/
def Regular (b : BackedNode) : ℕ × LogOp → Prop
  | (_, .setCommitIndex idx) => idx ≤ b.node.log.length
  | (_, .appendEntries req) => ConsecutiveFrom (req.prevLogIndex + 1) req.entries
  | _ => True

def InLog (b : BackedNode) : Prop :=
  b.node.commitIndex ≤ b.node.log.length ∧
    ∀ out, b.committed = some out → ∀ e ∈ out, e ∈ b.node.log

/-- A request with a conflict, if it is accepted, reaches up to the commit index or raises it. -/
def KeepsCommitted (b : BackedNode) : ℕ × LogOp → Prop
  | (_, .appendEntries req) =>
    b.node.currentTerm ≤ req.term →
      b.node.prevMatches req.prevLogIndex req.prevLogTerm = true →
        (∃ e ∈ req.entries, Conflicts b.node.log e) →
          b.node.commitIndex ≤ req.prevLogIndex + req.entries.length ∨
            b.node.commitIndex < req.leaderCommit
  | _ => True

instance (log : List LogEntry) (e : LogEntry) : Decidable (Conflicts log e) :=
  decidable_of_iff ((entryAt log e.index).any fun old => old.term != e.term) <| by
    simp [Conflicts, Option.any_eq_true]

instance (b : BackedNode) : (op : ℕ × LogOp) → Decidable (Regular b op)
  | (_, .propose _) => inferInstanceAs (Decidable True)
  | (_, .becomeLeader) => inferInstanceAs (Decidable True)
  | (_, .setCommitIndex _) => inferInstanceAs (Decidable (_ ≤ _))
  | (_, .appendEntries req) =>
    inferInstanceAs (Decidable (ConsecutiveFrom (req.prevLogIndex + 1) req.entries))

instance (b : BackedNode) : (op : ℕ × LogOp) → Decidable (KeepsCommitted b op)
  | (_, .propose _) => inferInstanceAs (Decidable True)
  | (_, .becomeLeader) => inferInstanceAs (Decidable True)
  | (_, .setCommitIndex _) => inferInstanceAs (Decidable True)
  | (_, .appendEntries _) => inferInstanceAs (Decidable (_ → _ → _ → _ ∨ _))

/-! ## The length of the log -/

section Length

variable {log entries : List LogEntry} {n : ℕ}

theorem ConsecutiveFrom.tail {e : LogEntry} (h : ConsecutiveFrom n (e :: entries)) :
    ConsecutiveFrom (n + 1) entries := by
  intro k x hk
  rw [h (k + 1) x hk]
  omega

theorem length_mergeEntries (hcons : ConsecutiveFrom (n + 1) entries) (hn : n ≤ log.length) :
    ∃ log', mergeEntries log entries = some log' ∧
      (((∃ e ∈ entries, Conflicts log e) ∧ log'.length = n + entries.length) ∨
        (¬ (∃ e ∈ entries, Conflicts log e) ∧ log.length ≤ log'.length)) := by
  induction entries generalizing n with
  | nil => exact ⟨log, rfl, Or.inr ⟨by simp, le_refl _⟩⟩
  | cons e rest ih =>
    have hindex : e.index = n + 1 := hcons.head
    by_cases hheld : held log e = true
    · -- the entry is there and the loop goes on
      obtain ⟨old, hold, hterm⟩ := held_iff.mp hheld
      have hno : ¬ Conflicts log e := by
        rintro ⟨old', hold', hne⟩
        rw [hold] at hold'
        cases hold'
        exact hne hterm
      have hle := (bounds_of_held hheld).2
      obtain ⟨log', hm, hlen⟩ := ih hcons.tail (by omega)
      refine ⟨log', ?_, ?_⟩
      · rw [mergeEntries_eq, news_cons_of_held hheld, ← mergeEntries_eq]
        exact hm
      · simp only [List.mem_cons, exists_eq_or_imp, hno, false_or, List.length_cons]
        rw [show n + (rest.length + 1) = n + 1 + rest.length by omega]
        exact hlen
    · refine ⟨_, (mergeEntries_of_new (news_cons_of_not_held hheld rest)).trans
        (if_neg (by omega)), ?_⟩
      have hlen : (log.take (e.index - 1) ++ e :: rest).length = n + (e :: rest).length := by
        rw [List.length_append, List.length_take]
        omega
      by_cases hin : e.index ≤ log.length
      · obtain ⟨old, hold⟩ := Option.isSome_iff_exists.mp
          (entryAt_isSome.mpr ⟨by omega, hin⟩)
        exact Or.inl ⟨⟨e, List.mem_cons_self, old, hold, fun hterm =>
          hheld (held_iff.mpr ⟨old, hold, hterm⟩)⟩, hlen⟩
      · refine Or.inr ⟨?_, by rw [hlen, List.length_cons]; omega⟩
        -- all indexes are behind the end of the log
        rintro ⟨x, hx, old, hold, -⟩
        obtain ⟨k, hk⟩ := List.mem_iff_getElem?.mp hx
        have hxin := (entryAt_isSome.mp (Option.isSome_iff_exists.mpr ⟨old, hold⟩)).2
        rw [hcons k x hk] at hxin
        omega

end Length

/-! ## One call -/

theorem inLog_iff (b : BackedNode) : InLog b ↔ b.node.commitIndex ≤ b.node.log.length := by
  refine ⟨And.left, fun hle => ⟨hle, fun out hout e he => ?_⟩⟩
  unfold BackedNode.committed at hout
  split at hout
  · cases hout
    cases he
  · rw [Slice.upTo_of_le (s := b.log) hle] at hout
    cases hout
    exact List.mem_of_mem_take he

theorem le_length_of_prevMatches {r : RaftNode} {prev term : ℕ}
    (h : r.prevMatches prev term = true) : prev ≤ r.log.length := by
  rcases Nat.eq_zero_or_pos prev with rfl | hpos
  · exact Nat.zero_le _
  · by_contra hout
    have hnone : entryAt r.log prev = none := by
      by_contra hne
      exact hout (entryAt_isSome.mp (Option.isSome_iff_ne_none.mpr hne)).2
    unfold RaftNode.prevMatches at h
    rw [if_pos hpos, hnone] at h
    cases h

theorem commitIndex_appendEntries_le_iff {r : RaftNode} (hle : r.commitIndex ≤ r.log.length)
    {req : AppendEntriesRequest} (hcons : ConsecutiveFrom (req.prevLogIndex + 1) req.entries) :
    (r.appendEntries req).2.commitIndex ≤ (r.appendEntries req).2.log.length ↔
      (r.currentTerm ≤ req.term → r.prevMatches req.prevLogIndex req.prevLogTerm = true →
        (∃ e ∈ req.entries, Conflicts r.log e) →
          r.commitIndex ≤ req.prevLogIndex + req.entries.length ∨
            r.commitIndex < req.leaderCommit) := by
  by_cases haccepted : r.currentTerm ≤ req.term ∧
      r.prevMatches req.prevLogIndex req.prevLogTerm = true
  · obtain ⟨hterm, hprev⟩ := haccepted
    obtain ⟨log, hm, hlen⟩ := length_mergeEntries hcons (le_length_of_prevMatches hprev)
    have heq : r.appendEntries req = (some true, r.accept req log) :=
      RaftNode.appendEntries_eq_true.mpr ⟨log, hterm, hprev, hm, rfl⟩
    simp only [heq, hterm, hprev, true_imp_iff]
    unfold RaftNode.accept
    dsimp only
    rcases hlen with ⟨hconf, hlen⟩ | ⟨hconf, hlen⟩
    · simp only [hconf, true_imp_iff, ← hlen]
      split
      · rename_i hlt
        exact iff_of_true (min_le_right _ _) (Or.inr hlt)
      · rename_i hlt
        exact (or_iff_left hlt).symm
    · simp only [hconf, false_imp_iff, iff_true]
      split
      · exact min_le_right _ _
      · exact hle.trans hlen
  · rw [not_and] at haccepted
    refine iff_of_true ?_ fun hterm hprev => absurd hprev (haccepted hterm)
    rcases r.appendEntries_cases req with ⟨log, hterm, hprev, -⟩ | ⟨ok, heq⟩ | heq
    · exact absurd hprev (haccepted hterm)
    · rw [heq, RaftNode.observeTerm_commitIndex, RaftNode.observeTerm_log]
      exact hle
    · rw [heq]
      exact hle

theorem inLog_logStep_iff {b : BackedNode} (hb : InLog b) {op : ℕ × LogOp} (hop : Regular b op) :
    InLog (logStep b op) ↔ KeepsCommitted b op := by
  rw [inLog_iff] at hb ⊢
  obtain ⟨room, op⟩ := op
  cases op with
  | propose cmd =>
    refine iff_of_true ?_ True.intro
    dsimp only [logStep, BackedNode.propose]
    rcases b.node.propose_cases cmd with ⟨-, heq⟩ | heq
    · rw [heq, List.length_append]
      exact hb.trans (Nat.le_add_right _ _)
    · rw [heq]
      exact hb
  | becomeLeader => exact iff_of_true hb True.intro
  | setCommitIndex idx =>
    refine iff_of_true ?_ True.intro
    dsimp only [logStep]
    rw [RaftNode.setCommitIndex_log]
    unfold RaftNode.setCommitIndex
    split
    · exact hop
    · exact hb
  | appendEntries req => exact commitIndex_appendEntries_le_iff hb hop

/-! ## Runs -/

/-- Let the commit index of a node be within its log. After every call of a run it is still there,
and `Committed` returns only entries of the log, exactly if each accepted request with a conflict
reaches up to the commit index or raises it. -/
theorem inLog_run_iff {b : BackedNode} (hstart : b.node.commitIndex ≤ b.node.log.length)
    {ops : List (ℕ × LogOp)} (hregular : Along logStep Regular b ops) :
    Along logStep (fun b op => InLog (logStep b op)) b ops ↔ Along logStep KeepsCommitted b ops :=
  Along.iff_of_inv (I := InLog) (fun _ _ hb hop hkeep => (inLog_logStep_iff hb hop).mpr hkeep)
    (fun _ _ hb hop => inLog_logStep_iff hb hop) ((inLog_iff b).mpr hstart) hregular

/-! ## A follower that is cut -/

def newBackedNode : BackedNode := ⟨newRaftNode (str "b") [str "a"], []⟩

def threeCommitted : ℕ × LogOp :=
  (0, .appendEntries ⟨1, str "a", 0, 0, [⟨1, 1, [1]⟩, ⟨2, 1, [2]⟩, ⟨3, 1, [3]⟩], 3⟩)

def cutAtCommit : ℕ × LogOp := (0, .appendEntries ⟨2, str "c", 2, 1, [⟨3, 2, [4]⟩], 0⟩)

def cutBelowCommit : ℕ × LogOp := (0, .appendEntries ⟨2, str "c", 0, 0, [⟨1, 2, [4]⟩], 0⟩)

theorem inLog_run_iff_cutAtCommit :
    newBackedNode.node.commitIndex ≤ newBackedNode.node.log.length ∧
      Along logStep Regular newBackedNode [threeCommitted, cutAtCommit] ∧
      Along logStep (fun b op => InLog (logStep b op)) newBackedNode
        [threeCommitted, cutAtCommit] :=
  ⟨by decide, by decide, (inLog_run_iff (by decide) (by decide)).mpr (by decide)⟩

/-- The log has one entry left, and `Committed` returns three. -/
theorem cutBelowCommit_not_inLog :
    Along logStep Regular newBackedNode [threeCommitted, cutBelowCommit] ∧
      ([threeCommitted, cutBelowCommit].foldl logStep newBackedNode).node.log =
        [⟨1, 2, [4]⟩] ∧
      ([threeCommitted, cutBelowCommit].foldl logStep newBackedNode).node.commitIndex = 3 ∧
      ([threeCommitted, cutBelowCommit].foldl logStep newBackedNode).committed =
        some [⟨1, 2, [4]⟩, ⟨2, 1, [2]⟩, ⟨3, 1, [3]⟩] ∧
      ¬ Along logStep (fun b op => InLog (logStep b op)) newBackedNode
        [threeCommitted, cutBelowCommit] := by
  refine ⟨by decide, by decide, by decide, by decide, fun h => ?_⟩
  exact absurd h.2.1.1 (by decide)

end Gomq.Raft
