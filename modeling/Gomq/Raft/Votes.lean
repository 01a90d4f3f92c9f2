import Mathlib.Data.List.Pairwise
import Gomq.Lib.Run
import Gomq.Raft.Election

/-!
# The votes of one node

A node on its own, driven by requests with any arguments and by `BecomeCandidate` at any time. The
three operations raise the term and drop the vote with it, or stay in the term and keep a vote that
was cast (`keeps_nodeStep`). So the term never falls, and of all the votes that the node gives in a
term, its own as a candidate included, those for a candidate with a name are for the same one
(`one_vote_per_term`). A request with an empty candidate id is granted too; it leaves the vote open.
-/

namespace Gomq.Raft

inductive NodeOp where
  | requestVote (req : RequestVoteRequest)
  | appendEntries (req : AppendEntriesRequest)
  | becomeCandidate
  deriving DecidableEq

/-- The node after a call; an `AppendEntries` that panics has raised the term. -/
def nodeStep (r : RaftNode) : NodeOp → RaftNode
  | .requestVote req => (r.requestVote req).2
  | .appendEntries req => (r.appendEntries req).2
  | .becomeCandidate => r.becomeCandidate

def voteOf (r : RaftNode) : NodeOp → Option (ℕ × GoString)
  | .requestVote req =>
    if (r.requestVote req).1 then some (req.term, req.candidateID) else none
  | .appendEntries _ => none
  | .becomeCandidate => some (r.becomeCandidate.currentTerm, r.nodeID)

def votesOf : RaftNode → List NodeOp → List (ℕ × GoString)
  | _, [] => []
  | r, op :: ops => (voteOf r op).toList ++ votesOf (nodeStep r op) ops

/-- `BecomeCandidate` is called only while there is a next term. -/
def HasNextTerm (r : RaftNode) (op : NodeOp) : Prop :=
  op = .becomeCandidate → r.currentTerm < termLimit - 1

instance (r : RaftNode) (op : NodeOp) : Decidable (HasNextTerm r op) :=
  inferInstanceAs (Decidable (op = .becomeCandidate → _))

/-! ## One call -/

section Step

variable {r : RaftNode} {op : NodeOp}

theorem keeps_nodeStep (h : HasNextTerm r op) : r.Keeps (nodeStep r op) := by
  cases op with
  | requestVote req => exact (r.driven_requestVote req).keeps
  | appendEntries req => exact (r.driven_appendEntries req).keeps
  | becomeCandidate =>
    have hnext := h rfl
    exact keeps_becomeCandidate (by omega)

theorem currentTerm_le_nodeStep (h : HasNextTerm r op) :
    r.currentTerm ≤ (nodeStep r op).currentTerm := by
  rcases keeps_nodeStep h with hlt | ⟨heq, -⟩
  · exact hlt.le
  · exact heq.ge

theorem nodeStep_of_voteOf {t : ℕ} {c : GoString} (h : voteOf r op = some (t, c)) :
    (nodeStep r op).currentTerm = t ∧ (nodeStep r op).votedFor = c := by
  cases op with
  | requestVote req =>
    dsimp only [voteOf, nodeStep] at h ⊢
    rcases r.requestVote_cases req with ⟨hg, heq⟩ | heq | heq
    · rw [heq] at h ⊢
      cases h
      exact ⟨r.observeTerm_currentTerm req.term (Nat.not_lt.mpr hg.term), rfl⟩
    · rw [heq] at h
      cases h
    · rw [heq] at h
      cases h
  | appendEntries req => cases h
  | becomeCandidate =>
    cases h
    exact ⟨rfl, rfl⟩

end Step

/-! ## Runs -/

theorem votesOf_spec {r : RaftNode} {ops : List NodeOp} (h : Along nodeStep HasNextTerm r ops)
    {t : ℕ} {c : GoString} (hvote : (t, c) ∈ votesOf r ops) :
    r.currentTerm ≤ t ∧ (t = r.currentTerm → r.votedFor ≠ [] → c = r.votedFor) := by
  induction ops generalizing r with
  | nil => cases hvote
  | cons op ops ih =>
    obtain ⟨hop, hops⟩ := h
    -- what holds of the node after the call, be the vote given by it or later
    have hnext : (nodeStep r op).currentTerm ≤ t ∧
        (t = (nodeStep r op).currentTerm → (nodeStep r op).votedFor ≠ [] →
          c = (nodeStep r op).votedFor) := by
      rcases List.mem_append.mp hvote with hnow | hlater
      · obtain ⟨hterm, hvoted⟩ := nodeStep_of_voteOf (Option.mem_toList.mp hnow)
        exact ⟨hterm.le, fun _ _ => hvoted.symm⟩
      · exact ih hops hlater
    refine ⟨(currentTerm_le_nodeStep hop).trans hnext.1, ?_⟩
    rintro rfl hvoted
    rcases keeps_nodeStep hop with hlt | ⟨heq, hsame⟩
    · exact absurd hnext.1 (Nat.not_le.mpr hlt)
    · have hsame := hsame.resolve_right hvoted
      rw [← hsame] at hvoted ⊢
      exact hnext.2 heq.symm hvoted

def SameVote (v w : ℕ × GoString) : Prop := v.1 = w.1 → v.2 ≠ [] → w.2 ≠ [] → v.2 = w.2

instance : Std.Symm SameVote := ⟨fun _ _ h heq hw hv => (h heq.symm hv hw).symm⟩

theorem pairwise_votesOf {r : RaftNode} {ops : List NodeOp}
    (h : Along nodeStep HasNextTerm r ops) : (votesOf r ops).Pairwise SameVote := by
  induction ops generalizing r with
  | nil => exact List.Pairwise.nil
  | cons op ops ih =>
    obtain ⟨-, hops⟩ := h
    unfold votesOf
    cases hvote : voteOf r op with
    | none => exact ih hops
    | some v =>
      obtain ⟨hterm, hvoted⟩ := nodeStep_of_voteOf hvote
      refine List.pairwise_cons.mpr ⟨?_, ih hops⟩
      rintro ⟨t, c⟩ hlater rfl hne -
      rw [← hvoted] at hne ⊢
      exact ((votesOf_spec hops hlater).2 hterm.symm hne).symm

/-- While there is a next term for every `BecomeCandidate`, the term of a node never falls, and in
no term does it vote for two candidates with a name. -/
theorem one_vote_per_term {r : RaftNode} {ops : List NodeOp}
    (hterms : Along nodeStep HasNextTerm r ops) :
    Monotone (fun i => ((ops.take i).foldl nodeStep r).currentTerm) ∧
      ∀ t c c', (t, c) ∈ votesOf r ops → (t, c') ∈ votesOf r ops → c ≠ [] → c' ≠ [] → c = c' := by
  refine ⟨hterms.monotone fun _ _ => currentTerm_le_nodeStep, ?_⟩
  intro t c c' hc hc' hne hne'
  have hsame : SameVote (t, c) (t, c') :=
    List.Pairwise.forall_of_forall (fun _ _ _ _ _ => rfl) (pairwise_votesOf hterms) hc hc'
  exact hsame rfl hne hne'

def askedTwice : List NodeOp :=
  [.requestVote ⟨1, str "b", 0, 0⟩, .becomeCandidate, .requestVote ⟨2, str "b", 0, 0⟩]

theorem one_vote_per_term_askedTwice :
    Along nodeStep HasNextTerm (newRaftNode (str "a") [str "b"]) askedTwice ∧
      votesOf (newRaftNode (str "a") [str "b"]) askedTwice = [(1, str "b"), (2, str "a")] ∧
      Monotone (fun i => ((askedTwice.take i).foldl nodeStep
        (newRaftNode (str "a") [str "b"])).currentTerm) ∧
      ∀ t c c', (t, c) ∈ votesOf (newRaftNode (str "a") [str "b"]) askedTwice →
        (t, c') ∈ votesOf (newRaftNode (str "a") [str "b"]) askedTwice → c ≠ [] → c' ≠ [] →
          c = c' :=
  ⟨by decide, by decide, one_vote_per_term (by decide)⟩

end Gomq.Raft
