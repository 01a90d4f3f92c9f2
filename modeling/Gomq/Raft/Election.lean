import Gomq.Raft.Cluster

/-!
# Election safety

The ballots of a run: who voted for whom in which term. A node's row of the ballots is fixed up to
its current term, so a vote once cast stays. A node whose goroutine passed the final check of
`startElection` is elected in the term of that election; the lock is released before `BecomeLeader`,
which makes it the leader of whatever term it has got to since. While `BecomeLeader` runs in the
term of the election, leaders are elected in their current term and a term has one leader.
-/

namespace Gomq.Raft

/-! ## Ballots -/

/-- What the ballots say of a node from its current term on. -/
structure Row (v : Ballots GoString) (n : GoString) (r : RaftNode) : Prop where
  now : v r.currentTerm n = if r.votedFor = [] then none else some r.votedFor
  later : ∀ t, r.currentTerm < t → v t n = none

def cast (v : Ballots GoString) (n : GoString) (r : RaftNode) : Ballots GoString := fun t p =>
  if p = n ∧ t = r.currentTerm ∧ r.votedFor ≠ [] then some r.votedFor else v t p

def RaftNode.Keeps (r r' : RaftNode) : Prop :=
  r.currentTerm < r'.currentTerm ∨
    r'.currentTerm = r.currentTerm ∧ (r'.votedFor = r.votedFor ∨ r.votedFor = [])

theorem RaftNode.Keeps.refl (r : RaftNode) : r.Keeps r := Or.inr ⟨rfl, Or.inl rfl⟩

theorem RaftNode.Driven.keeps {r r' : RaftNode} (h : r.Driven r') : r.Keeps r' :=
  h.term.imp And.left fun h => ⟨h.1, h.2.2⟩

section Cast

variable {v : Ballots GoString} {n p : GoString} {r r' : RaftNode}

theorem cast_of_ne (h : p ≠ n) (t : ℕ) : cast v n r t p = v t p := if_neg fun hc => h hc.1

theorem cast_self (h : r.votedFor ≠ []) : cast v n r r.currentTerm n = some r.votedFor :=
  if_pos ⟨rfl, rfl, h⟩

theorem Row.cast (h : Row v n r) (hk : r.Keeps r') : Row (Raft.cast v n r') n r' := by
  constructor
  · by_cases hv : r'.votedFor = []
    · rw [if_pos hv]
      show ite _ _ _ = none
      rw [if_neg fun hc => hc.2.2 hv]
      rcases hk with hlt | ⟨heq, hvote⟩
      · exact h.later _ hlt
      · have hold : r.votedFor = [] := hvote.elim (fun hs => hs.symm.trans hv) id
        rw [heq, h.now, if_pos hold]
    · rw [if_neg hv, cast_self hv]
  · intro t ht
    show ite _ _ _ = none
    rw [if_neg fun hc => ht.ne hc.2.1.symm]
    refine h.later t (lt_of_le_of_lt ?_ ht)
    exact hk.elim le_of_lt fun hs => hs.1.ge

theorem Row.extends_cast (h : Row v n r) (hk : r.Keeps r') : v.Extends (Raft.cast v n r') := by
  intro t p c hc
  show ite _ _ _ = some c
  split
  · next hcond =>
    obtain ⟨rfl, rfl, hvote⟩ := hcond
    rcases hk with hlt | ⟨heq, hsame⟩
    · rw [h.later _ hlt] at hc
      cases hc
    · rw [heq, h.now] at hc
      split at hc
      · cases hc
      · next hne => rw [hsame.resolve_right hne]; exact hc
  · exact hc

theorem Row.cast_eq (h : Row v n r) (hv : r.NoVote r') : Raft.cast v n r' = v := by
  funext t p
  show ite _ _ _ = v t p
  split
  · next hcond =>
    obtain ⟨rfl, rfl, hvote⟩ := hcond
    obtain ⟨heq, hsame⟩ := hv.resolve_left hvote
    rw [heq, h.now, hsame, if_neg (hsame ▸ hvote)]
  · rfl

end Cast

/-! ## The invariant -/

/-- The terms, states and votes of a node go with the ballots. -/
structure NodeVotes (cfg : Config) (v : Ballots GoString) (n : GoString) (r : RaftNode) :
    Prop where
  nodeID : r.nodeID = n
  peers : r.peers = cfg.peers n
  row : Row v n r
  candidate : r.state = .candidate → r.votedFor = n
  leader : r.state = .leader → v.Elected cfg.nodes r.currentTerm n

/-- The votes counted so far are votes of peers that are not asked any more. -/
structure Tally (cfg : Config) (v : Ballots GoString) (n : GoString) (t votes : ℕ)
    (pending : List GoString) : Prop where
  nodup : pending.Nodup
  peers : ∀ p ∈ pending, p ∈ cfg.peers n
  voters : ∃ s : Finset GoString, s.card + 1 = votes ∧ (∀ p ∈ s, p ∈ cfg.peers n) ∧
    (∀ p ∈ s, p ∉ pending) ∧ ∀ p ∈ s, v t p = some n

/-- What the goroutine of `Run` knows. -/
def PhaseVotes (cfg : Config) (v : Ballots GoString) (n : GoString) : Phase → Prop
  | .polling req votes pending => req.candidateID = n ∧ Tally cfg v n req.term votes pending
  | .won req => v.Elected cfg.nodes req.term n
  | _ => True

/-- Requests are made by nodes and votes on the way are on the ballots. -/
def PacketVotes (cfg : Config) (v : Ballots GoString) : Packet → Prop
  | .requestVote _ req => req.candidateID ∈ cfg.ids
  | .vote voter req granted => granted = true → v req.term voter = some req.candidateID
  | .appendEntries _ _ => True

structure ElectionInv (cfg : Config) (c : Cluster) (v : Ballots GoString) : Prop where
  node : ∀ n ∈ cfg.ids, NodeVotes cfg v n (c.node n)
  phase : ∀ n ∈ cfg.ids, PhaseVotes cfg v n (c.phase n)
  packet : ∀ p ∈ c.net, PacketVotes cfg v p

section Mono

variable {cfg : Config} {v w : Ballots GoString} {n : GoString} {r r' : RaftNode}

theorem NodeVotes.mono (h : NodeVotes cfg v n r) (hvw : v.Extends w) (hrow : ∀ t, w t n = v t n) :
    NodeVotes cfg w n r where
  nodeID := h.nodeID
  peers := h.peers
  row := ⟨by rw [hrow, h.row.now], fun t ht => by rw [hrow, h.row.later t ht]⟩
  candidate := h.candidate
  leader := fun hl => (h.leader hl).mono hvw

theorem Tally.mono {t votes : ℕ} {pending : List GoString} (h : Tally cfg v n t votes pending)
    (hvw : v.Extends w) : Tally cfg w n t votes pending := by
  obtain ⟨s, hcard, hpeers, hpend, hvotes⟩ := h.voters
  exact ⟨h.nodup, h.peers, s, hcard, hpeers, hpend, fun p hp => hvw _ _ _ (hvotes p hp)⟩

theorem PhaseVotes.mono {ph : Phase} (h : PhaseVotes cfg v n ph) (hvw : v.Extends w) :
    PhaseVotes cfg w n ph := by
  cases ph with
  | polling req votes pending => exact ⟨h.1, h.2.mono hvw⟩
  | won req => exact Ballots.Elected.mono h hvw
  | idle => trivial
  | starting => trivial
  | candidate => trivial
  | beating => trivial

theorem PacketVotes.mono {p : Packet} (h : PacketVotes cfg v p) (hvw : v.Extends w) :
    PacketVotes cfg w p := by
  cases p with
  | requestVote dest req => exact h
  | vote voter req granted => exact fun hg => hvw _ _ _ (h hg)
  | appendEntries dest req => trivial

/-- Only the moving node and what it sends need a proof. -/
theorem ElectionInv.put {c : Cluster} {m : Member} {ps : List Packet} (h : ElectionInv cfg c v)
    (hn : n ∈ cfg.ids) (hk : (c.node n).Keeps m.node)
    (hnode : NodeVotes cfg (cast v n m.node) n m.node)
    (hphase : PhaseVotes cfg (cast v n m.node) n m.phase)
    (hps : ∀ p ∈ ps, PacketVotes cfg (cast v n m.node) p) :
    ElectionInv cfg (c.put n m ps) (cast v n m.node) := by
  have hext := (h.node n hn).row.extends_cast hk
  constructor
  · intro k hkm
    refine Cluster.members_put (P := fun m' => NodeVotes cfg _ k m'.node) ?_ fun hkn => ?_
    · rintro rfl
      exact hnode
    · exact (h.node k hkm).mono hext (cast_of_ne hkn)
  · intro k hkm
    refine Cluster.members_put (P := fun m' => PhaseVotes cfg _ k m'.phase) ?_ fun hkn => ?_
    · rintro rfl
      exact hphase
    · exact (h.phase k hkm).mono hext
  · intro p hp
    rcases Cluster.mem_put_net.mp hp with hold | hnew
    · exact (h.packet p hold).mono hext
    · exact hps p hnew

end Mono

/-! ## Moves of a node -/

section Node

variable {cfg : Config} {v : Ballots GoString} {n : GoString} {r r' : RaftNode}

theorem NodeVotes.driven (h : NodeVotes cfg v n r) (hn : n ∈ cfg.ids) (hd : r.Driven r') :
    NodeVotes cfg (cast v n r') n r' where
  nodeID := hd.nodeID.trans h.nodeID
  peers := hd.peers.trans h.peers
  row := h.row.cast hd.keeps
  candidate := by
    intro hc
    rcases hd.term with ⟨-, hf⟩ | ⟨-, hs, hv⟩
    · rw [hf] at hc
      cases hc
    · have hvoted := h.candidate (hs ▸ hc)
      rcases hv with hsame | hempty
      · rw [hsame, hvoted]
      · exact absurd (hvoted.symm.trans hempty) (cfg.ne_nil n hn)
  leader := by
    intro hl
    rcases hd.term with ⟨-, hf⟩ | ⟨ht, hs, -⟩
    · rw [hf] at hl
      cases hl
    · rw [ht]
      exact (h.leader (hs ▸ hl)).mono (h.row.extends_cast hd.keeps)

theorem lt_becomeCandidate (hlim : r.currentTerm + 1 < termLimit) :
    r.currentTerm < r.becomeCandidate.currentTerm := by
  show r.currentTerm < (r.currentTerm + 1) % termLimit
  rw [Nat.mod_eq_of_lt hlim]
  exact Nat.lt_succ_self _

theorem keeps_becomeCandidate (hlim : r.currentTerm + 1 < termLimit) :
    r.Keeps r.becomeCandidate := Or.inl (lt_becomeCandidate hlim)

theorem NodeVotes.becomeCandidate (h : NodeVotes cfg v n r)
    (hlim : r.currentTerm + 1 < termLimit) :
    NodeVotes cfg (cast v n r.becomeCandidate) n r.becomeCandidate where
  nodeID := h.nodeID
  peers := h.peers
  row := h.row.cast (keeps_becomeCandidate hlim)
  candidate := fun _ => h.nodeID
  leader := nofun

theorem NodeVotes.becomeLeader (h : NodeVotes cfg v n r)
    (hel : v.Elected cfg.nodes r.currentTerm n) :
    NodeVotes cfg (cast v n r.becomeLeader) n r.becomeLeader where
  nodeID := h.nodeID
  peers := h.peers
  row := h.row.cast (Or.inr ⟨rfl, Or.inl rfl⟩)
  candidate := nofun
  leader := fun _ => hel.mono (h.row.extends_cast (Or.inr ⟨rfl, Or.inl rfl⟩))

theorem NodeVotes.requestVote_granted {req : RequestVoteRequest}
    (hreq : req.candidateID ≠ []) (hg : (r.requestVote req).1 = true) :
    cast v n (r.requestVote req).2 req.term n = some req.candidateID := by
  rcases r.requestVote_cases req with ⟨hgr, h⟩ | h | h
  · have hterm : (r.requestVote req).2.currentTerm = req.term := by
      rw [h]
      exact r.observeTerm_currentTerm req.term (Nat.not_lt.mpr hgr.term)
    have hvoted : (r.requestVote req).2.votedFor = req.candidateID := by rw [h]
    have := cast_self (v := v) (n := n) (r := (r.requestVote req).2) (by rw [hvoted]; exact hreq)
    rwa [hterm, hvoted] at this
  · rw [h] at hg
    cases hg
  · rw [h] at hg
    cases hg

end Node

/-! ## Counting -/

section Counting

variable {cfg : Config} {v : Ballots GoString} {n : GoString} {t votes : ℕ}
  {pending : List GoString}

theorem tally_start (hn : n ∈ cfg.ids) : Tally cfg v n t 1 (cfg.peers n) :=
  ⟨Config.nodup_peers hn, fun _ hp => hp, ∅, rfl, nofun, nofun, nofun⟩

theorem Tally.erase (h : Tally cfg v n t votes pending) (p : GoString) :
    Tally cfg v n t votes (pending.erase p) := by
  obtain ⟨s, hcard, hpeers, hpend, hvotes⟩ := h.voters
  exact ⟨h.nodup.erase p, fun q hq => h.peers q (List.mem_of_mem_erase hq), s, hcard, hpeers,
    fun q hq hmem => hpend q hq (List.mem_of_mem_erase hmem), hvotes⟩

theorem Tally.vote (h : Tally cfg v n t votes pending) {p : GoString} (hp : p ∈ pending)
    (hv : v t p = some n) : Tally cfg v n t (votes + 1) (pending.erase p) := by
  obtain ⟨s, hcard, hpeers, hpend, hvotes⟩ := h.voters
  have hps : p ∉ s := fun hs => hpend p hs hp
  refine ⟨h.nodup.erase p, fun q hq => h.peers q (List.mem_of_mem_erase hq), insert p s, ?_, ?_, ?_,
    ?_⟩
  · rw [Finset.card_insert_of_notMem hps, hcard]
  · exact Finset.forall_mem_insert .. |>.mpr ⟨h.peers p hp, hpeers⟩
  · exact Finset.forall_mem_insert .. |>.mpr
      ⟨h.nodup.not_mem_erase, fun q hq hmem => hpend q hq (List.mem_of_mem_erase hmem)⟩
  · exact Finset.forall_mem_insert .. |>.mpr ⟨hv, hvotes⟩

/-- More than half of the nodes, with the candidate itself. -/
theorem Tally.elected (h : Tally cfg v n t votes pending) (hn : n ∈ cfg.ids)
    (hself : v t n = some n) (hmaj : ((cfg.peers n).length + 1) / 2 < votes) :
    v.Elected cfg.nodes t n := by
  obtain ⟨s, hcard, hpeers, -, hvotes⟩ := h.voters
  have hns : n ∉ s := fun hs => ((Config.mem_peers hn).mp (hpeers n hs)).1 rfl
  have hmajority : Majority cfg.nodes (insert n s) := by
    constructor
    · intro p hp
      rw [Config.mem_nodes]
      rcases Finset.mem_insert.mp hp with rfl | hps
      · exact hn
      · exact ((Config.mem_peers hn).mp (hpeers p hps)).2
    · rw [Config.card_nodes, Finset.card_insert_of_notMem hns, hcard]
      rw [Config.length_peers hn] at hmaj
      omega
  exact Ballots.Elected.of_majority hmajority
    (Finset.forall_mem_insert .. |>.mpr ⟨hself, hvotes⟩)

end Counting

/-! ## Runs -/

/-- The event runs in the term it is meant for: `BecomeLeader` while the term is still that of the
election it ends, and `BecomeCandidate` while there is a next term. -/
def inTerm (c : Cluster) : Event → Bool
  | .becomeLeader n =>
    match c.phase n with
    | .won req => (c.node n).currentTerm = req.term
    | _ => true
  | .becomeCandidate n => (c.node n).currentTerm + 1 < termLimit
  | .timer n => (c.node n).currentTerm + 1 < termLimit
  | _ => true

section Moves

variable {cfg : Config} {c : Cluster} {v : Ballots GoString} {n : GoString} {e : Event}
  {m : Member} {ps : List Packet}

theorem inTerm_becomeLeader {req : RequestVoteRequest} (h : inTerm c (.becomeLeader n) = true)
    (hwon : c.phase n = .won req) : (c.node n).currentTerm = req.term := by
  dsimp only [inTerm] at h
  rw [hwon] at h
  exact of_decide_eq_true h

theorem ElectionInv.stay (h : ElectionInv cfg c v) (hn : n ∈ cfg.ids) (hsame : m.node = c.node n)
    (hph : PhaseVotes cfg v n m.phase) (hpk : ∀ p ∈ ps, PacketVotes cfg v p) :
    ElectionInv cfg (c.put n m ps) (cast v n m.node) := by
  have hnode := h.node n hn
  have hcast : cast v n (c.node n) = v := hnode.row.cast_eq (RaftNode.noVote_refl _)
  refine h.put hn ?_ ?_ ?_ ?_ <;> rw [hsame]
  · exact .refl _
  · rw [hcast]; exact hnode
  · rw [hcast]; exact hph
  · rw [hcast]; exact hpk

theorem ElectionInv.driven (h : ElectionInv cfg c v) (hn : n ∈ cfg.ids)
    (hd : (c.node n).Driven m.node) (hph : m.phase = c.phase n)
    (hpk : ∀ p ∈ ps, PacketVotes cfg (cast v n m.node) p) :
    ElectionInv cfg (c.put n m ps) (cast v n m.node) := by
  have hnode := h.node n hn
  refine h.put hn hd.keeps (hnode.driven hn hd) ?_ hpk
  rw [hph]
  exact (h.phase n hn).mono (hnode.row.extends_cast hd.keeps)

theorem ElectionInv.moves (h : ElectionInv cfg c v) (hn : n ∈ cfg.ids) (hin : inTerm c e = true)
    (hm : c.Moves n e m ps) : ElectionInv cfg (c.put n m ps) (cast v n m.node) := by
  have hnode := h.node n hn
  have hphase := h.phase n hn
  cases hm with
  | timer =>
    have hlim := of_decide_eq_true hin
    exact h.put hn (keeps_becomeCandidate hlim) (hnode.becomeCandidate hlim)
      (hphase.mono (hnode.row.extends_cast (keeps_becomeCandidate hlim))) nofun
  | timeout => exact h.stay hn rfl trivial nofun
  | becomeCandidate =>
    have hlim := of_decide_eq_true hin
    exact h.put hn (keeps_becomeCandidate hlim) (hnode.becomeCandidate hlim) trivial nofun
  | requestVotes =>
    refine h.stay hn rfl ⟨hnode.nodeID, ?_⟩ ?_
    · rw [hnode.peers]
      exact tally_start hn
    · intro p hp
      obtain ⟨q, -, rfl⟩ := List.mem_map.mp hp
      show (c.node n).nodeID ∈ cfg.ids
      rw [hnode.nodeID]
      exact hn
  | callFails req votes pending peer hpoll =>
    rw [hpoll] at hphase
    exact h.stay hn rfl ⟨hphase.1, hphase.2.erase peer⟩ nofun
  | wins req votes hpoll hstate hterm hvotes =>
    rw [hpoll] at hphase
    have hvoted := hnode.candidate hstate
    have hself : v req.term n = some n := by
      rw [← hterm, hnode.row.now, hvoted, if_neg (cfg.ne_nil n hn)]
    rw [hnode.peers] at hvotes
    exact h.stay hn rfl (hphase.2.elected hn hself hvotes) nofun
  | givesUp => exact h.stay hn rfl trivial nofun
  | becomeLeader req hwon =>
    rw [hwon] at hphase
    have hterm := inTerm_becomeLeader hin hwon
    have hel : v.Elected cfg.nodes (c.node n).currentTerm n := by
      rw [hterm]
      exact hphase
    exact h.put hn (Or.inr ⟨rfl, Or.inl rfl⟩) (hnode.becomeLeader hel) trivial nofun
  | tick => exact h.stay hn rfl trivial nofun
  | sendHeartbeats =>
    refine h.stay hn rfl trivial fun p hp => ?_
    obtain ⟨q, -, rfl⟩ := List.mem_map.mp hp
    trivial
  | propose cmd => exact h.driven hn (RaftNode.driven_propose cmd _) rfl nofun
  | replicateAll req =>
    refine h.stay hn rfl hphase fun p hp => ?_
    obtain ⟨q, -, rfl⟩ := List.mem_map.mp hp
    trivial
  | setCommitIndex idx => exact h.driven hn (RaftNode.driven_setCommitIndex idx _) rfl nofun
  | requestVote req hnet =>
    refine h.driven hn (RaftNode.driven_requestVote req _) rfl fun p hp => ?_
    rw [List.mem_singleton.mp hp]
    exact NodeVotes.requestVote_granted (cfg.ne_nil _ (h.packet _ hnet))
  | vote voter req granted votes pending hnet hcand hpoll hvoter =>
    rw [hpoll] at hphase
    refine h.stay hn rfl ⟨hphase.1, ?_⟩ nofun
    cases granted with
    | false => exact hphase.2.erase voter
    | true =>
      have hv := h.packet _ hnet rfl
      rw [hcand] at hv
      exact hphase.2.vote hvoter hv
  | appendEntries req => exact h.driven hn (RaftNode.driven_appendEntries req _) rfl nofun

end Moves

theorem electionInv_initial (cfg : Config) :
    ElectionInv cfg (.initial cfg) (fun _ _ => none) where
  node := fun _ _ => ⟨rfl, rfl, ⟨rfl, fun _ _ => rfl⟩, nofun, nofun⟩
  phase := fun _ _ => trivial
  packet := nofun

theorem electionInv_step {cfg : Config} {c : Cluster} {e : Event}
    (h : ∃ v, ElectionInv cfg c v) (hin : inTerm c e = true) :
    ∃ v, ElectionInv cfg (c.step cfg e) v := by
  obtain ⟨v, hv⟩ := h
  rcases c.step_cases cfg e with hstep | ⟨n, hn, m, ps, hm, hstep⟩ <;> rw [hstep]
  · exact ⟨v, hv⟩
  · exact ⟨_, hv.moves hn hin hm⟩

def OneLeader (cfg : Config) (c : Cluster) : Prop :=
  ∀ a ∈ cfg.ids, ∀ b ∈ cfg.ids, (c.node a).state = .leader → (c.node b).state = .leader →
    (c.node a).currentTerm = (c.node b).currentTerm → a = b

theorem ElectionInv.oneLeader {cfg : Config} {c : Cluster} {v : Ballots GoString}
    (h : ElectionInv cfg c v) : OneLeader cfg c := by
  intro a ha b hb hla hlb hterm
  have hea := (h.node a ha).leader hla
  rw [hterm] at hea
  exact hea.unique ((h.node b hb).leader hlb)

/-- In every run whose events run in the term they are meant for, no state has two leaders of one
term. -/
theorem oneLeader_of_inTerm (cfg : Config) (es : List Event)
    (h : Along (Cluster.step cfg) (fun c e => inTerm c e = true) (.initial cfg) es) :
    OneLeader cfg (es.foldl (Cluster.step cfg) (.initial cfg)) := by
  obtain ⟨v, hv⟩ := Along.inv (I := fun c => ∃ v, ElectionInv cfg c v)
    (fun _ _ => electionInv_step) ⟨_, electionInv_initial cfg⟩ h
  exact hv.oneLeader

/-! ## A leader that comes late -/

def threeNodes : Config where
  ids := [str "a", str "b", str "c"]
  nodup := by decide
  ne_nil := by decide
  peers := [str "a", str "b", str "c"].erase
  peers_perm := fun _ _ => .refl _

/-- An election of `n` in term `t`, up to the final check, with the vote of `p` only; the call to
`q` fails. The log of `n` has `len` entries, the last of term `last`. -/
def election (n p q : GoString) (t len last : ℕ) : List Event :=
  [.timeout n, .becomeCandidate n, .requestVotes n, .deliver (.requestVote p ⟨t, n, len, last⟩),
    .deliver (.vote p ⟨t, n, len, last⟩ true), .callFails n q, .finalCheck n]

def twoElections : List Event :=
  election (str "a") (str "b") (str "c") 1 0 0 ++ [.becomeLeader (str "a")] ++
    election (str "b") (str "a") (str "c") 2 0 0 ++ [.becomeLeader (str "b")]

theorem twoElections_oneLeader :
    OneLeader threeNodes (twoElections.foldl (Cluster.step threeNodes) (.initial threeNodes)) :=
  oneLeader_of_inTerm threeNodes twoElections (by decide)

/-- `a` passes the final check in term 1, votes for `b` in term 2, and becomes leader after `b`
did. -/
def lateLeader : List Event :=
  election (str "a") (str "b") (str "c") 1 0 0 ++ election (str "b") (str "a") (str "c") 2 0 0 ++
    [.becomeLeader (str "b"), .becomeLeader (str "a")]

/-- Both are leaders of term 2. -/
theorem lateLeader_not_oneLeader :
    ¬ OneLeader threeNodes (lateLeader.foldl (Cluster.step threeNodes) (.initial threeNodes)) := by
  intro h
  have hab := h (str "a") (by decide) (str "b") (by decide) (by decide) (by decide) (by decide)
  exact absurd hab (by decide)

end Gomq.Raft
