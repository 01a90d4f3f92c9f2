import Gomq.Raft.Replication

/-!
# Committed entries

A commit is an index that a leader set when an entry of its own term was stored there by a majority
still in that term. Whoever is elected later had the vote of one of them, so it has the leader's log
up to the index (`CommitInv.completeness`), and nobody who has it loses it (`holdsTo_moves`). What a
request of `ReplicateAll` commits is checked against the entry it carries. A heartbeat carries none
and names no previous entry, so the follower commits whatever it has up to the leader's index; this
is safe only when the follower's entry there has the term of the sender's.
-/

namespace Gomq.Raft

open RaftNode List

/-! ## The condition -/

def storedBy (cfg : Config) (c : Cluster) (n : GoString) (idx : ℕ) : Finset GoString :=
  cfg.nodes.filter fun q => (c.node q).currentTerm = (c.node n).currentTerm ∧
    entryAt (c.node q).log idx = entryAt (c.node n).log idx

/-- `SetCommitIndex` raises the commit index only on a leader, to an entry of its term that a
majority still in that term has stored. -/
def committable (cfg : Config) (c : Cluster) : Event → Bool
  | .setCommitIndex n idx =>
    (c.node n).commitIndex < idx → (c.node n).state = .leader ∧
      (entryAt (c.node n).log idx).map LogEntry.term = some (c.node n).currentTerm ∧
      Majority cfg.nodes (storedBy cfg c n idx)
  | _ => true

/-- A heartbeat that raises the commit index of a node finds there an entry with the term of the
sender's. -/
def heartbeatAgrees (c : Cluster) : Event → Bool
  | .deliver (.appendEntries n req) =>
    req.entries = [] ∧ (c.node n).currentTerm ≤ req.term ∧
        (c.node n).commitIndex < req.leaderCommit →
      (entryAt (c.node n).log (min req.leaderCommit (c.node n).log.length)).map LogEntry.term =
        (entryAt (c.node req.leaderID).log
          (min req.leaderCommit (c.node n).log.length)).map LogEntry.term
  | _ => true

/-! ## The invariant -/

structure Commit where
  term : ℕ
  index : ℕ
  quorum : Finset GoString

/-- A node that has reached term `t` has the log of its leader up to index `k`. -/
def HoldsTo (ch : Logs) (r : RaftNode) (t k : ℕ) : Prop :=
  t ≤ r.currentTerm ∧ r.log.take k = (ch.canon t).take k

/-- The nodes that stored a commit still have it, and voted later only for logs that have it. -/
structure CommitOk (cfg : Config) (c : Cluster) (v : Ballots GoString) (asks : Asks) (ch : Logs)
    (cm : Commit) : Prop where
  settled : ch.Settled cm.term cm.index
  majority : Majority cfg.nodes cm.quorum
  holds : ∀ q ∈ cm.quorum, HoldsTo ch (c.node q) cm.term cm.index
  voted : ∀ q ∈ cm.quorum, ∀ t, cm.term < t → ∀ p, p ≠ q → v t q = some p →
    ∃ k u, asks t p = some (k, u) ∧ cm.index ≤ k ∧
      (ch.canon u).take cm.index = (ch.canon cm.term).take cm.index

/-- What a node has committed up to `k` is part of a commit. -/
def Certified (ch : Logs) (commits : List Commit) (r : RaftNode) (k : ℕ) : Prop :=
  k = 0 ∨ ∃ cm ∈ commits, k ≤ cm.index ∧ HoldsTo ch r cm.term k

/-- The commit index on the way is that of a commit which the sender has. -/
structure Backed (cfg : Config) (c : Cluster) (ch : Logs) (commits : List Commit)
    (req : AppendEntriesRequest) : Prop where
  sender : req.leaderID ∈ cfg.ids
  commit : req.leaderCommit = 0 ∨ ∃ cm ∈ commits, req.leaderCommit ≤ cm.index ∧
    cm.term ≤ req.term ∧ HoldsTo ch (c.node req.leaderID) cm.term req.leaderCommit
  entries : req.entries ≠ [] → req.leaderCommit ≤ req.prevLogIndex + 1

structure CommitInv (cfg : Config) (c : Cluster) (v : Ballots GoString) (asks : Asks) (ch : Logs)
    (commits : List Commit) : Prop where
  commit : ∀ cm ∈ commits, CommitOk cfg c v asks ch cm
  node : ∀ n ∈ cfg.ids, Certified ch commits (c.node n) (c.node n).commitIndex
  packet : ∀ dest req, .appendEntries dest req ∈ c.net → Backed cfg c ch commits req

/-! ## Holding on to a commit -/

section Holds

variable {ch ch' : Logs} {r r' : RaftNode} {t i k : ℕ}

theorem HoldsTo.extends (h : HoldsTo ch r t k) (hs : ch.Settled t i) (hk : k ≤ i)
    (hext : ch.Extends ch') : HoldsTo ch' r t k :=
  ⟨h.1, by rw [take_of_isPrefix (hext.canon t) (hk.trans hs.le_length)]; exact h.2⟩

theorem HoldsTo.le_length (h : HoldsTo ch r t k) (hs : ch.Settled t i) (hk : k ≤ i) :
    k ≤ r.log.length := le_length_of_take_eq h.2 (hk.trans hs.le_length)

theorem HoldsTo.isPrefix (h : HoldsTo ch r t k) (hs : ch.Settled t i) (hk : k ≤ i)
    (hle : r.currentTerm ≤ r'.currentTerm) (hp : r.log <+: r'.log) : HoldsTo ch r' t k :=
  ⟨h.1.trans hle, by rw [take_of_isPrefix hp (h.le_length hs hk)]; exact h.2⟩

/-- No later leader makes a node drop what is settled. -/
theorem HoldsTo.rewrites (h : HoldsTo ch r t k) (hs : ch.Settled t i) (hk : k ≤ i)
    (hle : r.currentTerm ≤ r'.currentTerm) (hr : Rewrites ch r r') : HoldsTo ch r' t k := by
  rcases hr with hsame | ⟨j, hled, hnew, hne⟩
  · exact h.isPrefix hs hk hle (by rw [hsame])
  have htake := hs.take_eq (h.1.trans hle) hled
  refine ⟨h.1.trans hle, ?_⟩
  rcases Nat.lt_or_ge (j + 1) k with hjk | hkj
  · -- the log had the entry already
    refine absurd ?_ hne
    rw [take_of_take_eq h.2 hjk.le]
    exact (take_of_take_eq htake (hjk.le.trans hk)).symm
  · rw [hnew, take_take, min_eq_left hkj]
    exact take_of_take_eq htake hk

end Holds

section Moves

variable {cfg : Config} {c : Cluster} {v : Ballots GoString} {asks asks' : Asks} {ch ch' : Logs}
  {commits : List Commit} {n : GoString} {e : Event} {m : Member} {ps : List Packet}

theorem term_le_moves (hin : inTerm c e = true) (hm : c.Moves n e m ps) :
    (c.node n).currentTerm ≤ m.node.currentTerm := by
  cases hm with
  | timer => exact (lt_becomeCandidate (of_decide_eq_true hin)).le
  | becomeCandidate => exact (lt_becomeCandidate (of_decide_eq_true hin)).le
  | propose cmd => exact (driven_propose cmd _).le
  | setCommitIndex idx => exact (driven_setCommitIndex idx _).le
  | requestVote req => exact (driven_requestVote req _).le
  | appendEntries req => exact (driven_appendEntries req _).le
  | _ => exact le_rfl

theorem LogInv.log_moves (h : LogInv cfg c v asks ch) (hn : n ∈ cfg.ids) (hm : c.Moves n e m ps) :
    (c.node n).log <+: m.node.log ∨ Rewrites ch (c.node n) m.node := by
  cases hm with
  | propose cmd =>
    rcases propose_cases cmd (c.node n) with ⟨-, hp⟩ | hp <;> rw [hp]
    · exact Or.inl (prefix_append _ _)
    · exact Or.inl (prefix_refl _)
  | setCommitIndex idx => exact Or.inr (Or.inl (setCommitIndex_log idx _))
  | requestVote req => exact Or.inr (Or.inl (requestVote_log req _))
  | appendEntries req hnet =>
    exact Or.inr (rewrites_appendEntries (h.node n hn).has h.index (h.packet _ hnet))
  | _ => exact Or.inl (prefix_refl _)

theorem holdsTo_moves (h : LogInv cfg c v asks ch) (hn : n ∈ cfg.ids) (hin : inTerm c e = true)
    (hm : c.Moves n e m ps) {t i k : ℕ} (hs : ch.Settled t i) (hk : k ≤ i)
    (hh : HoldsTo ch (c.node n) t k) : HoldsTo ch m.node t k := by
  rcases h.log_moves hn hm with hp | hr
  · exact hh.isPrefix hs hk (term_le_moves hin hm) hp
  · exact hh.rewrites hs hk (term_le_moves hin hm) hr

theorem holdsTo_put (h : LogInv cfg c v asks ch) (hn : n ∈ cfg.ids) (hin : inTerm c e = true)
    (hm : c.Moves n e m ps) {t i j : ℕ} {k : GoString} (hs : ch.Settled t i) (hj : j ≤ i)
    (hext : ch.Extends ch') (hh : HoldsTo ch (c.node k) t j) :
    HoldsTo ch' ((c.put n m ps).node k) t j := by
  refine Cluster.members_put (P := fun m' => HoldsTo ch' m'.node t j) ?_ fun _ => ?_
  · rintro rfl
    exact (holdsTo_moves h hn hin hm hs hj hh).extends hs hj hext
  · exact hh.extends hs hj hext

/-! ## Leaders have what is committed -/

theorem CommitInv.completeness (h : CommitInv cfg c v asks ch commits)
    (hlog : LogInv cfg c v asks ch) (hel : ElectionInv cfg c v) (hn : n ∈ cfg.ids)
    {req : RequestVoteRequest} (hwon : c.phase n = .won req)
    (hterm : (c.node n).currentTerm = req.term) {cm : Commit} (hcm : cm ∈ commits)
    (hlt : cm.term < req.term) :
    (c.node n).log.take cm.index = (ch.canon cm.term).take cm.index := by
  have hok := h.commit cm hcm
  have hphase := hlog.phase n hn
  have hvotes := hel.phase n hn
  have hnone := hlog.leader_none hel hn hwon hterm
  rw [hwon] at hphase hvotes
  -- a node that stored the commit and voted for the new leader
  obtain ⟨q, hq, hvote⟩ := Ballots.Elected.exists_voter hvotes hok.majority
  by_cases hqn : n = q
  · subst hqn
    exact (hok.holds n hq).2
  · obtain ⟨k, u, hask, hk, htake⟩ := hok.voted q hq _ hlt n hqn hvote
    obtain ⟨hlen, hlast⟩ := hphase.1.log hterm (hphase.2 hterm) (hterm ▸ hnone)
    obtain ⟨rfl, rfl⟩ := Prod.mk.inj (Option.some.inj (hask.symm.trans hphase.1.asked))
    have hall := (hlog.node n hn).has.eq_take
    rw [show lastTerm LogEntry.term (c.node n).log = req.lastLogTerm from hlast, hlen] at hall
    rw [hall, take_take, min_eq_left hk, htake]

theorem CommitInv.settled_moves (h : CommitInv cfg c v asks ch commits)
    (hlog : LogInv cfg c v asks ch) (hel : ElectionInv cfg c v) (hn : n ∈ cfg.ids)
    (hw : Writes c n asks ch asks' ch') {cm : Commit} (hcm : cm ∈ commits) :
    ch'.Settled cm.term cm.index := by
  refine (h.commit cm hcm).settled.mono hw.chronicle fun u hu hnone hsome => ?_
  obtain ⟨req, hwon, hterm, rfl, hcanon⟩ := hw.leader u hnone hsome
  rw [hcanon]
  exact h.completeness hlog hel hn hwon hterm hcm hu

/-! ## Votes after a commit -/

theorem vote_moves (hel : ElectionInv cfg c v) (hn : n ∈ cfg.ids) (hm : c.Moves n e m ps) {t : ℕ}
    {q p : GoString} (hv : cast v n m.node t q = some p) :
    v t q = some p ∨ p = q ∨ q = n ∧ ∃ req, .requestVote n req ∈ c.net ∧
      (c.node n).Grants req ∧ req.term = t ∧ req.candidateID = p := by
  have hrow := (hel.node n hn).row
  have hid := (hel.node n hn).nodeID
  have hno : (c.node n).NoVote m.node → v t q = some p := fun h => by rwa [hrow.cast_eq h] at hv
  have hcand : m.node = (c.node n).becomeCandidate → v t q = some p ∨ p = q := by
    intro heq
    rw [heq] at hv
    by_cases hc : q = n ∧ t = (c.node n).becomeCandidate.currentTerm ∧
        (c.node n).becomeCandidate.votedFor ≠ []
    · have hp := Option.some.inj ((if_pos hc).symm.trans hv)
      exact Or.inr (hp.symm.trans (hid.trans hc.1.symm))
    · exact Or.inl ((if_neg hc).symm.trans hv)
  cases hm with
  | timer => exact (hcand rfl).imp_right Or.inl
  | becomeCandidate => exact (hcand rfl).imp_right Or.inl
  | becomeLeader req => exact Or.inl (hno (noVote_becomeLeader _))
  | propose cmd => exact Or.inl (hno (noVote_propose cmd _))
  | setCommitIndex idx => exact Or.inl (hno (noVote_setCommitIndex idx _))
  | requestVote req hnet =>
    rcases (c.node n).requestVote_cases req with ⟨hg, heq⟩ | heq | heq
    · by_cases hc : q = n ∧ t = ((c.node n).requestVote req).2.currentTerm ∧
          ((c.node n).requestVote req).2.votedFor ≠ []
      · have hp := Option.some.inj ((if_pos hc).symm.trans hv)
        obtain ⟨hqn, ht, -⟩ := hc
        rw [heq] at hp ht
        refine Or.inr (Or.inr ⟨hqn, req, hnet, hg, ?_, hp⟩)
        rw [ht]
        exact ((c.node n).observeTerm_currentTerm req.term (Nat.not_lt.mpr hg.term)).symm
      · exact Or.inl ((if_neg hc).symm.trans hv)
    · exact Or.inl (hno (by rw [heq]; exact noVote_observeTerm _ _))
    · exact Or.inl (hno (by rw [heq]; exact noVote_refl _))
  | appendEntries req => exact Or.inl (hno (noVote_appendEntries req _))
  | _ => exact Or.inl (hno (noVote_refl _))

theorem CommitOk.moves {cm : Commit} (h : CommitOk cfg c v asks ch cm)
    (hlog : LogInv cfg c v asks ch) (hel : ElectionInv cfg c v) (hn : n ∈ cfg.ids)
    (hin : inTerm c e = true) (hm : c.Moves n e m ps) (hw : Writes c n asks ch asks' ch')
    (hs : ch'.Settled cm.term cm.index) :
    CommitOk cfg (c.put n m ps) (cast v n m.node) asks' ch' cm := by
  have htake : (ch'.canon cm.term).take cm.index = (ch.canon cm.term).take cm.index :=
    take_of_isPrefix (hw.chronicle.canon _) h.settled.le_length
  have hlonger : ∀ {u : ℕ}, (ch.canon u).take cm.index = (ch.canon cm.term).take cm.index →
      (ch'.canon u).take cm.index = (ch'.canon cm.term).take cm.index := by
    intro u hu
    rw [htake, ← hu]
    exact take_of_isPrefix (hw.chronicle.canon u) (le_length_of_take_eq hu h.settled.le_length)
  refine ⟨hs, h.majority, fun q hq => ?_, fun q hq t ht p hpq hv => ?_⟩
  · exact holdsTo_put hlog hn hin hm h.settled le_rfl hw.chronicle (h.holds q hq)
  · rcases vote_moves hel hn hm hv with hold | hself | ⟨rfl, req, hnet, hg, rfl, rfl⟩
    · obtain ⟨k, u, hask, hk, hu⟩ := h.voted q hq t ht p hpq hold
      exact ⟨k, u, hw.asked _ _ _ hask, hk, hlonger hu⟩
    · exact absurd hself hpq
    · have hask := hlog.packet _ hnet
      have hpos : 0 < cm.term := by
        obtain ⟨e, he, -⟩ := h.settled.entry
        obtain ⟨l, hl⟩ := Option.ne_none_iff_exists'.mp (Chronicle.leader_ne_of_getElem? he)
        exact (hlog.elected _ l hl).2
      obtain ⟨hk, hu⟩ := h.settled.of_upToDate hpos (hlog.node q hn).has (h.holds q hq).2
        (hlog.ends _ _ _ _ hask).2 hg.lastTerm_le hg.length_le
      exact ⟨_, _, hw.asked _ _ _ hask, hk, hlonger hu⟩

/-! ## Commit indices -/

theorem Certified.mono {commits' : List Commit} {r : RaftNode} {k : ℕ}
    (h : Certified ch commits r k) (hsub : ∀ cm ∈ commits, cm ∈ commits') :
    Certified ch commits' r k :=
  h.imp_right fun ⟨cm, hcm, hk⟩ => ⟨cm, hsub cm hcm, hk⟩

theorem CommitInv.certified_extends (h : CommitInv cfg c v asks ch commits) {r : RaftNode} {k : ℕ}
    (hr : Certified ch commits r k) (hext : ch.Extends ch') : Certified ch' commits r k := by
  refine hr.imp_right ?_
  rintro ⟨cm, hcm, hk, hh⟩
  exact ⟨cm, hcm, hk, hh.extends (h.commit cm hcm).settled hk hext⟩

theorem CommitInv.certified_moves (h : CommitInv cfg c v asks ch commits)
    (hlog : LogInv cfg c v asks ch) (hn : n ∈ cfg.ids) (hin : inTerm c e = true)
    (hm : c.Moves n e m ps) : Certified ch commits m.node (c.node n).commitIndex := by
  refine (h.node n hn).imp_right ?_
  rintro ⟨cm, hcm, hk, hh⟩
  exact ⟨cm, hcm, hk, holdsTo_moves hlog hn hin hm (h.commit cm hcm).settled hk hh⟩

/-- The entry of a request vouches for the commit index that comes with it. -/
theorem CommitInv.certified_carries (h : CommitInv cfg c v asks ch commits)
    (hlog : LogInv cfg c v asks ch) (hn : n ∈ cfg.ids) {req : AppendEntriesRequest} {k : ℕ}
    {ent : LogEntry} (hc : Carries ch req k ent) (hb : Backed cfg c ch commits req)
    {l : List LogEntry}
    (hprev : (c.node n).prevMatches req.prevLogIndex req.prevLogTerm = true)
    (hmerge : mergeEntries (c.node n).log req.entries = some l) {r : RaftNode} (hl : r.log = l)
    (hterm : r.currentTerm = req.term) :
    Certified ch commits r (min req.leaderCommit l.length) := by
  have hhas := (hlog.node n hn).has
  have hlead := Chronicle.leader_ne_of_getElem? hc.entry
  have htake := (hc.merged (hlog.index _) hhas hprev hmerge).agree
  have hck : req.leaderCommit ≤ k + 1 := by
    rw [← hc.prevLogIndex]
    exact hb.entries (by rw [hc.entries]; exact cons_ne_nil _ _)
  rcases hb.commit with hzero | ⟨cm, hcm, hidx, hcterm, -⟩
  · exact Or.inl (by rw [hzero, Nat.zero_min])
  · have hs := (h.commit cm hcm).settled
    refine Or.inr ⟨cm, hcm, (Nat.min_le_left _ _).trans hidx, hterm ▸ hcterm, ?_⟩
    rw [hl, take_of_take_eq htake ((Nat.min_le_left _ _).trans hck)]
    exact take_of_take_eq (hs.take_eq hcterm hlead) ((Nat.min_le_left _ _).trans hidx)

theorem Backed.certified_heartbeat {req : AppendEntriesRequest}
    (hb : Backed cfg c ch commits req) (hlog : LogInv cfg c v asks ch) (hn : n ∈ cfg.ids)
    (hagree : (entryAt (c.node n).log (min req.leaderCommit (c.node n).log.length)).map
        LogEntry.term =
      (entryAt (c.node req.leaderID).log (min req.leaderCommit (c.node n).log.length)).map
        LogEntry.term) {r : RaftNode} (hl : r.log = (c.node n).log)
    (hterm : r.currentTerm = req.term) :
    Certified ch commits r (min req.leaderCommit (c.node n).log.length) := by
  have hmin : min req.leaderCommit (c.node n).log.length ≤ (c.node n).log.length :=
    Nat.min_le_right _ _
  have hcommit : min req.leaderCommit (c.node n).log.length ≤ req.leaderCommit :=
    Nat.min_le_left _ _
  generalize min req.leaderCommit (c.node n).log.length = k at *
  rcases Nat.eq_zero_or_pos k with rfl | hpos
  · exact Or.inl rfl
  rcases hb.commit with hzero | ⟨cm, hcm, hidx, hcterm, -, hsender⟩
  · omega
  obtain ⟨j, rfl⟩ := Nat.exists_eq_succ_of_ne_zero hpos.ne'
  rw [entryAt_succ, entryAt_succ, List.getElem?_eq_getElem hmin] at hagree
  obtain ⟨ent, hent, hsame⟩ := Option.map_eq_some_iff.mp hagree.symm
  have hown := List.getElem?_eq_getElem (l := (c.node n).log) (i := j) hmin
  have htake := (hlog.node n hn).has.take_eq (hlog.node _ hb.sender).has hown hent hsame.symm
  refine Or.inr ⟨cm, hcm, hcommit.trans hidx, hterm ▸ hcterm, ?_⟩
  rw [hl, htake]
  exact take_of_take_eq hsender hcommit

theorem CommitInv.certified_appendEntries (h : CommitInv cfg c v asks ch commits)
    (hlog : LogInv cfg c v asks ch) (hn : n ∈ cfg.ids) {req : AppendEntriesRequest}
    (hnet : .appendEntries n req ∈ c.net)
    (hagree : heartbeatAgrees c (.deliver (.appendEntries n req)) = true)
    (hold : Certified ch commits ((c.node n).appendEntries req).2 (c.node n).commitIndex) :
    Certified ch commits ((c.node n).appendEntries req).2
      ((c.node n).appendEntries req).2.commitIndex := by
  have hb := h.packet _ _ hnet
  rcases (c.node n).appendEntries_cases req with ⟨l, hle, hprev, hmerge, heq⟩ | ⟨ok, heq⟩ | heq
  · have hterm := (c.node n).observeTerm_currentTerm req.term (Nat.not_lt.mpr hle)
    by_cases hraise : (c.node n).commitIndex < req.leaderCommit
    · have hidx : ((c.node n).appendEntries req).2.commitIndex = min req.leaderCommit l.length := by
        rw [heq]
        exact if_pos hraise
      have hl : ((c.node n).appendEntries req).2.log = l := by rw [heq]
      have hcur : ((c.node n).appendEntries req).2.currentTerm = req.term := by
        rw [heq]
        exact hterm
      rw [hidx]
      rcases hlog.packet _ hnet with hempty | ⟨k, ent, hc⟩
      · have hsame : l = (c.node n).log := by
          rw [hempty] at hmerge
          exact (Option.some.inj hmerge).symm
        subst hsame
        exact hb.certified_heartbeat hlog hn
          (of_decide_eq_true hagree ⟨hempty, hle, hraise⟩) hl hcur
      · exact h.certified_carries hlog hn hc hb hprev hmerge hl hcur
    · have hidx : ((c.node n).appendEntries req).2.commitIndex = (c.node n).commitIndex := by
        rw [heq]
        exact if_neg hraise
      rw [hidx]
      exact hold
  · have hidx : ((c.node n).appendEntries req).2.commitIndex = (c.node n).commitIndex := by
      rw [heq]
      exact (c.node n).observeTerm_commitIndex req.term
    rw [hidx]
    exact hold
  · have hidx : ((c.node n).appendEntries req).2.commitIndex = (c.node n).commitIndex := by
      rw [heq]
    rw [hidx]
    exact hold

/-! ## A new commit -/

theorem CommitInv.cons (h : CommitInv cfg c v asks ch commits) (hlog : LogInv cfg c v asks ch)
    (hel : ElectionInv cfg c v) (hn : n ∈ cfg.ids) {idx : ℕ}
    (hstate : (c.node n).state = .leader)
    (hentry : (entryAt (c.node n).log idx).map LogEntry.term = some (c.node n).currentTerm)
    (hmaj : Majority cfg.nodes (storedBy cfg c n idx)) :
    CommitInv cfg c v asks ch
      (⟨(c.node n).currentTerm, idx, storedBy cfg c n idx⟩ :: commits) := by
  obtain ⟨hlead, hcanon⟩ := (hlog.node n hn).leading hstate
  obtain ⟨ent, hent, hterm⟩ := Option.map_eq_some_iff.mp hentry
  obtain ⟨j, rfl⟩ : ∃ j, idx = j + 1 := by
    refine Nat.exists_eq_succ_of_ne_zero ?_
    rintro rfl
    cases hent
  have hent' := hent
  rw [entryAt_succ] at hent'
  have hmem : ∀ q ∈ storedBy cfg c n (j + 1), q ∈ cfg.ids ∧
      (c.node q).currentTerm = (c.node n).currentTerm ∧ (c.node q).log[j]? = some ent := by
    intro q hq
    obtain ⟨hqn, hqt, hqe⟩ := Finset.mem_filter.mp hq
    rw [hent, entryAt_succ] at hqe
    exact ⟨Config.mem_nodes.mp hqn, hqt, hqe⟩
  -- nobody who stored the entry has voted in a later term
  have hunvoted : ∀ q ∈ storedBy cfg c n (j + 1), ∀ t, (c.node n).currentTerm < t →
      v t q = none := by
    intro q hq t ht
    obtain ⟨hqn, hqt, -⟩ := hmem q hq
    exact (hel.node q hqn).row.later t (hqt ▸ ht)
  have hnew : CommitOk cfg c v asks ch
      ⟨(c.node n).currentTerm, j + 1, storedBy cfg c n (j + 1)⟩ := by
    refine ⟨⟨Nat.succ_pos j, ⟨ent, ?_, hterm⟩, fun u hu hled => ?_⟩, hmaj, fun q hq => ?_,
      fun q hq t ht p _ hv => ?_⟩
    · rw [hcanon]
      exact hent'
    · obtain ⟨l, hl⟩ := Option.ne_none_iff_exists'.mp hled
      obtain ⟨q, hq, hvote⟩ := (hlog.elected u l hl).1.exists_voter hmaj
      rw [hunvoted q hq u hu] at hvote
      cases hvote
    · obtain ⟨hqn, hqt, hqe⟩ := hmem q hq
      refine ⟨hqt.ge, ?_⟩
      rw [hcanon]
      exact (hlog.node q hqn).has.take_eq (hlog.node n hn).has hqe hent' rfl
    · rw [hunvoted q hq t ht] at hv
      cases hv
  refine ⟨forall_mem_cons.mpr ⟨hnew, h.commit⟩, fun k hk => ?_, fun dest req hreq => ?_⟩
  · exact (h.node k hk).mono fun _ => mem_cons_of_mem _
  · have hb := h.packet dest req hreq
    exact ⟨hb.sender, hb.commit.imp_right fun ⟨cm, hcm, hrest⟩ =>
      ⟨cm, mem_cons_of_mem _ hcm, hrest⟩, hb.entries⟩

/-! ## Runs -/

theorem CommitInv.put (h : CommitInv cfg c v asks ch commits) (hlog : LogInv cfg c v asks ch)
    (hel : ElectionInv cfg c v) (hn : n ∈ cfg.ids) (hin : inTerm c e = true)
    (hm : c.Moves n e m ps) (hw : Writes c n asks ch asks' ch')
    (hcert : Certified ch commits m.node m.node.commitIndex)
    (hps : ∀ dest req, .appendEntries dest req ∈ ps →
      req.leaderID = n ∧ req.term = (c.node n).currentTerm ∧
        req.leaderCommit = (c.node n).commitIndex ∧
        (req.entries ≠ [] → req.leaderCommit ≤ req.prevLogIndex + 1)) :
    CommitInv cfg (c.put n m ps) (cast v n m.node) asks' ch' commits := by
  have hsender : ∀ {k : GoString} {cm : Commit} {i : ℕ}, cm ∈ commits → i ≤ cm.index →
      HoldsTo ch (c.node k) cm.term i → HoldsTo ch' ((c.put n m ps).node k) cm.term i :=
    fun hcm hi hh => holdsTo_put hlog hn hin hm (h.commit _ hcm).settled hi hw.chronicle hh
  refine ⟨fun cm hcm => ?_, fun k hk => ?_, fun dest req hreq => ?_⟩
  · exact (h.commit cm hcm).moves hlog hel hn hin hm hw (h.settled_moves hlog hel hn hw hcm)
  · refine Cluster.members_put (P := fun m' => Certified ch' commits m'.node m'.node.commitIndex)
      (fun _ => ?_) fun _ => ?_
    · exact h.certified_extends hcert hw.chronicle
    · exact h.certified_extends (h.node k hk) hw.chronicle
  · rcases Cluster.mem_put_net.mp hreq with hold | hnew
    · have hb := h.packet dest req hold
      refine ⟨hb.sender, hb.commit.imp_right ?_, hb.entries⟩
      rintro ⟨cm, hcm, hi, hterm, hh⟩
      exact ⟨cm, hcm, hi, hterm, hsender hcm hi hh⟩
    · obtain ⟨hid, hterm, hcommit, hentries⟩ := hps dest req hnew
      refine ⟨hid ▸ hn, ?_, hentries⟩
      rw [hcommit, hid, hterm]
      refine (h.node n hn).imp_right ?_
      rintro ⟨cm, hcm, hi, hh⟩
      exact ⟨cm, hcm, hi, hh.1, hsender hcm hi hh⟩

def safeEvent (cfg : Config) (c : Cluster) (e : Event) : Bool :=
  inTerm c e && committable cfg c e && heartbeatAgrees c e

theorem CommitInv.moves (h : CommitInv cfg c v asks ch commits) (hlog : LogInv cfg c v asks ch)
    (hel : ElectionInv cfg c v) (hn : n ∈ cfg.ids) (hin : inTerm c e = true)
    (hcom : committable cfg c e = true) (hagree : heartbeatAgrees c e = true)
    (hm : c.Moves n e m ps) (hw : Writes c n asks ch asks' ch') :
    ∃ commits', CommitInv cfg (c.put n m ps) (cast v n m.node) asks' ch' commits' := by
  have hkeep := h.certified_moves hlog hn hin hm
  have hput := h.put hlog hel hn hin hm hw
  have hid := (hel.node n hn).nodeID
  have hm' := hm
  cases hm with
  | sendHeartbeats =>
    refine ⟨commits, hput hkeep fun dest req hreq => ?_⟩
    obtain ⟨q, -, hq⟩ := mem_map.mp hreq
    cases hq
    exact ⟨hid, rfl, rfl, fun hne => absurd rfl hne⟩
  | replicateAll req hreq =>
    refine ⟨commits, hput hkeep fun dest req' hreq' => ?_⟩
    obtain ⟨q, -, hq⟩ := mem_map.mp hreq'
    cases hq
    obtain ⟨hterm, hleader, hcommit, hlen, -⟩ := (hlog.node n hn).replicate hreq
    refine ⟨hleader.trans hid, hterm, hcommit, fun _ => ?_⟩
    rw [hcommit, hlen]
    rcases h.node n hn with hzero | ⟨cm, hcm, hi, hh⟩
    · rw [hzero]
      exact Nat.zero_le _
    · exact hh.le_length (h.commit cm hcm).settled hi
  | setCommitIndex idx =>
    by_cases hraise : (c.node n).commitIndex < idx
    · obtain ⟨hstate, hentry, hmaj⟩ := of_decide_eq_true hcom hraise
      have hset : (c.node n).setCommitIndex idx = { c.node n with commitIndex := idx } :=
        if_pos hraise
      obtain ⟨-, hcanon⟩ := (hlog.node n hn).leading hstate
      refine ⟨_, (h.cons hlog hel hn hstate hentry hmaj).put hlog hel hn hin hm' hw ?_ nofun⟩
      show Certified ch _ ((c.node n).setCommitIndex idx)
        ((c.node n).setCommitIndex idx).commitIndex
      rw [hset]
      exact Or.inr ⟨_, mem_cons_self, le_rfl, le_rfl, by rw [hcanon]⟩
    · have hset : (c.node n).setCommitIndex idx = c.node n := if_neg hraise
      refine ⟨commits, hput ?_ nofun⟩
      show Certified ch _ ((c.node n).setCommitIndex idx)
        ((c.node n).setCommitIndex idx).commitIndex
      rw [hset]
      exact h.node n hn
  | appendEntries req hnet =>
    exact ⟨commits, hput (h.certified_appendEntries hlog hn hnet hagree hkeep) nofun⟩
  | propose cmd =>
    refine ⟨commits, hput ?_ nofun⟩
    have hidx : ((c.node n).propose cmd).2.commitIndex = (c.node n).commitIndex := by
      rcases propose_cases cmd (c.node n) with ⟨-, hp⟩ | hp <;> rw [hp]
    show Certified ch _ ((c.node n).propose cmd).2 ((c.node n).propose cmd).2.commitIndex
    rw [hidx]
    exact hkeep
  | requestVote req hnet =>
    refine ⟨commits, hput ?_ ?_⟩
    · show Certified ch _ ((c.node n).requestVote req).2 ((c.node n).requestVote req).2.commitIndex
      rw [requestVote_commitIndex]
      exact hkeep
    · intro dest req' hreq'
      cases mem_singleton.mp hreq'
  | requestVotes =>
    refine ⟨commits, hput hkeep fun dest req hreq => ?_⟩
    obtain ⟨q, -, hq⟩ := mem_map.mp hreq
    cases hq
  | _ => exact ⟨commits, hput hkeep nofun⟩

end Moves

def Safe (cfg : Config) (c : Cluster) : Prop :=
  ∃ v asks ch commits, ElectionInv cfg c v ∧ LogInv cfg c v asks ch ∧
    CommitInv cfg c v asks ch commits

theorem safe_initial (cfg : Config) : Safe cfg (.initial cfg) :=
  ⟨_, _, _, [], electionInv_initial cfg, logInv_initial cfg, nofun, fun _ _ => Or.inl rfl, nofun⟩

theorem safe_step {cfg : Config} {c : Cluster} {e : Event} (h : Safe cfg c)
    (hsafe : safeEvent cfg c e = true) : Safe cfg (c.step cfg e) := by
  obtain ⟨⟨hin, hcom⟩, hagree⟩ :=
    (Bool.and_eq_true_iff.mp hsafe).imp_left Bool.and_eq_true_iff.mp
  rcases c.step_cases cfg e with hstep | ⟨n, hn, m, ps, hm, hstep⟩ <;> rw [hstep]
  · exact h
  · obtain ⟨v, asks, ch, commits, hel, hlog, hcommit⟩ := h
    obtain ⟨asks', ch', hw, hlog'⟩ := hlog.moves hel hn hin hm
    obtain ⟨commits', hcommit'⟩ := hcommit.moves hlog hel hn hin hcom hagree hm hw
    exact ⟨_, asks', ch', commits', hel.moves hn hin hm, hlog', hcommit'⟩

/-- Any two nodes have the same entry at every index both have committed. -/
def SameCommitted (cfg : Config) (c : Cluster) : Prop :=
  ∀ a ∈ cfg.ids, ∀ b ∈ cfg.ids, ∀ i, 0 < i → i ≤ (c.node a).commitIndex →
    i ≤ (c.node b).commitIndex →
    ∃ e f, entryAt (c.node a).log i = some e ∧ entryAt (c.node b).log i = some f ∧
      e.term = f.term ∧ e.command = f.command

theorem CommitInv.getElem?_eq {cfg : Config} {c : Cluster} {v : Ballots GoString} {asks : Asks}
    {ch : Logs} {commits : List Commit} (h : CommitInv cfg c v asks ch commits) {cm cm' : Commit}
    (hcm : cm ∈ commits) (hcm' : cm' ∈ commits) {j : ℕ} (hj : j < cm.index) (hj' : j < cm'.index) :
    (ch.canon cm.term)[j]? = (ch.canon cm'.term)[j]? := by
  have key : ∀ {a b : Commit}, a ∈ commits → b ∈ commits → a.term ≤ b.term → j < a.index →
      (ch.canon b.term)[j]? = (ch.canon a.term)[j]? := by
    intro a b ha hb hle hja
    obtain ⟨e, he, -⟩ := (h.commit b hb).settled.entry
    exact getElem?_of_take_eq
      ((h.commit a ha).settled.take_eq hle (Chronicle.leader_ne_of_getElem? he)) hja
  rcases le_total cm.term cm'.term with hle | hle
  · exact (key hcm hcm' hle hj).symm
  · exact key hcm' hcm hle hj'

theorem Safe.sameCommitted {cfg : Config} {c : Cluster} (h : Safe cfg c) :
    SameCommitted cfg c := by
  obtain ⟨v, asks, ch, commits, -, -, hinv⟩ := h
  intro a ha b hb i hpos hia hib
  obtain ⟨j, rfl⟩ := Nat.exists_eq_succ_of_ne_zero hpos.ne'
  rcases hinv.node a ha with hzero | ⟨cm, hcm, hidx, -, htake⟩
  · omega
  rcases hinv.node b hb with hzero | ⟨cm', hcm', hidx', -, htake'⟩
  · omega
  have hlen := (hinv.commit cm hcm).settled.le_length
  obtain ⟨e, he⟩ : ∃ e, (ch.canon cm.term)[j]? = some e :=
    ⟨_, List.getElem?_eq_getElem (by omega)⟩
  refine ⟨e, e, ?_, ?_, rfl, rfl⟩ <;> rw [entryAt_succ]
  · rw [getElem?_of_take_eq htake hia, he]
  · rw [getElem?_of_take_eq htake' hib,
      ← hinv.getElem?_eq hcm hcm' (by omega) (by omega), he]

/-- In every run whose events meet the condition, no two nodes ever commit different entries. -/
theorem sameCommitted_of_safeEvent (cfg : Config) (es : List Event)
    (h : Along (Cluster.step cfg) (fun c e => safeEvent cfg c e = true) (.initial cfg) es) :
    SameCommitted cfg (es.foldl (Cluster.step cfg) (.initial cfg)) :=
  Safe.sameCommitted (Along.inv (fun _ _ => safe_step) (safe_initial cfg) h)

/-! ## A heartbeat over a divergent log -/

/-- `a` is elected in term 1 and proposes `x`; it is not replicated. Then `b` is elected in term 2,
proposes `y`, replicates it to `c` and commits it. -/
def divergent : List Event :=
  election (str "a") (str "b") (str "c") 1 0 0 ++
    [.becomeLeader (str "a"), .propose (str "a") (str "x")] ++
    election (str "b") (str "c") (str "a") 2 0 0 ++
    [.becomeLeader (str "b"), .sendHeartbeats (str "b"), .propose (str "b") (str "y"),
      .replicateAll (str "b"),
      .deliver (.appendEntries (str "c") ⟨2, str "b", 0, 0, [⟨1, 2, str "y"⟩], 0⟩),
      .setCommitIndex (str "b") 1, .tick (str "b"), .sendHeartbeats (str "b")]

def heartbeatTo (n : GoString) : Event := .deliver (.appendEntries n ⟨2, str "b", 0, 0, [], 1⟩)

theorem divergent_sameCommitted :
    let c := (divergent ++ [heartbeatTo (str "c")]).foldl (Cluster.step threeNodes)
      (.initial threeNodes)
    (c.node (str "b")).commitIndex = 1 ∧ (c.node (str "c")).commitIndex = 1 ∧
      SameCommitted threeNodes c :=
  ⟨by decide, by decide, sameCommitted_of_safeEvent threeNodes _ (by decide)⟩

/-- The same heartbeat reaches `a`, which commits `x`: all else is as it should be. -/
theorem divergent_not_sameCommitted :
    Along (Cluster.step threeNodes) (fun c e => inTerm c e && committable threeNodes c e)
        (.initial threeNodes) (divergent ++ [heartbeatTo (str "a")]) ∧
      ¬ SameCommitted threeNodes ((divergent ++ [heartbeatTo (str "a")]).foldl
        (Cluster.step threeNodes) (.initial threeNodes)) := by
  refine ⟨by decide, fun h => ?_⟩
  obtain ⟨e, f, he, hf, hterm, -⟩ := h (str "a") (by decide) (str "b") (by decide) 1 (by decide)
    (by decide) (by decide)
  have he' := he.symm.trans (show _ = some (⟨1, 1, str "x"⟩ : LogEntry) by decide)
  have hf' := hf.symm.trans (show _ = some (⟨1, 2, str "y"⟩ : LogEntry) by decide)
  cases he'
  cases hf'
  cases hterm

end Gomq.Raft
