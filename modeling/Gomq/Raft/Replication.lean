import Gomq.Raft.Election
import Gomq.Raft.Merge

/-!
# Log matching

The history of a run: its ballots, with which log each candidate asked for votes, and the chronicle
of the leaders' logs. Every log matches the chronicle; a leader's log is the chronicle's; a request
of `ReplicateAll` carries one entry of the chronicle and the term of the one before it. So an
accepted request leaves a log as it is, when it has the entry already, or makes it the leader's log
up to the entry.
-/

namespace Gomq.Raft

open List

/-- The length and the last term of the log with which a candidate asked for votes in a term. -/
abbrev Asks := ℕ → GoString → Option (ℕ × ℕ)

abbrev Logs := Chronicle GoString LogEntry LogEntry.term

/-! ## The invariant -/

structure NodeLog (asks : Asks) (ch : Logs) (n : GoString) (r : RaftNode) : Prop where
  has : ch.Has r.log
  term_le : ∀ e ∈ r.log, e.term ≤ r.currentTerm
  leading : r.state = .leader → ch.leader r.currentTerm = some n ∧ ch.canon r.currentTerm = r.log
  led : ∀ t, ch.leader t = some n → t < r.currentTerm ∨ t = r.currentTerm ∧ r.state = .leader
  unasked : ∀ t, r.currentTerm < t → asks t n = none

/-- The request of an election was read off this log, unless the term has a leader already. -/
structure Asked (asks : Asks) (ch : Logs) (n : GoString) (r : RaftNode)
    (req : RequestVoteRequest) : Prop where
  asked : asks req.term n = some (req.lastLogIndex, req.lastLogTerm)
  log : r.currentTerm = req.term → r.state = .candidate → ch.leader req.term = none →
    r.log.length = req.lastLogIndex ∧ r.lastLogTerm = req.lastLogTerm

def PhaseLog (asks : Asks) (ch : Logs) (n : GoString) (r : RaftNode) : Phase → Prop
  | .candidate => 0 < r.currentTerm ∧ asks r.currentTerm n = none
  | .polling req _ _ => Asked asks ch n r req
  | .won req => Asked asks ch n r req ∧ (r.currentTerm = req.term → r.state = .candidate)
  | _ => True

/-- One entry of the log of the leader, at position `k` counted from 0. -/
structure Carries (ch : Logs) (req : AppendEntriesRequest) (k : ℕ) (e : LogEntry) : Prop where
  entry : (ch.canon req.term)[k]? = some e
  entries : req.entries = [e]
  prevLogIndex : req.prevLogIndex = k
  prevLogTerm : 0 < k →
    ∃ e', (ch.canon req.term)[k - 1]? = some e' ∧ req.prevLogTerm = e'.term

def PacketLog (asks : Asks) (ch : Logs) : Packet → Prop
  | .requestVote _ req =>
    asks req.term req.candidateID = some (req.lastLogIndex, req.lastLogTerm)
  | .vote _ _ _ => True
  | .appendEntries _ req => req.entries = [] ∨ ∃ k e, Carries ch req k e

structure LogInv (cfg : Config) (c : Cluster) (v : Ballots GoString) (asks : Asks) (ch : Logs) :
    Prop where
  node : ∀ n ∈ cfg.ids, NodeLog asks ch n (c.node n)
  phase : ∀ n ∈ cfg.ids, PhaseLog asks ch n (c.node n) (c.phase n)
  packet : ∀ p ∈ c.net, PacketLog asks ch p
  elected : ∀ t n, ch.leader t = some n → v.Elected cfg.nodes t n ∧ 0 < t
  ends : ∀ t n m u, asks t n = some (m, u) → 0 < t ∧ ch.Ends m u
  index : ∀ t k e, (ch.canon t)[k]? = some e → e.index = k + 1

/-! ## Longer histories -/

structure Longer (asks : Asks) (ch : Logs) (asks' : Asks) (ch' : Logs) : Prop where
  chronicle : ch.Extends ch'
  asked : ∀ t p x, asks t p = some x → asks' t p = some x

/-- A longer history that has nothing new of a node. -/
structure Foreign (n : GoString) (asks : Asks) (ch : Logs) (asks' : Asks) (ch' : Logs) : Prop
    extends Longer asks ch asks' ch' where
  leader : ∀ t, ch'.leader t = some n → ch.leader t = some n
  canon : ∀ t, ch.leader t = some n → ch'.canon t = ch.canon t
  row : ∀ t, asks' t n = asks t n

section Longer

variable {asks asks' : Asks} {ch ch' : Logs} {n : GoString} {r r' : RaftNode}

theorem Longer.refl (asks : Asks) (ch : Logs) : Longer asks ch asks ch :=
  ⟨.refl ch, fun _ _ _ h => h⟩

theorem Foreign.refl (n : GoString) (asks : Asks) (ch : Logs) : Foreign n asks ch asks ch :=
  ⟨.refl asks ch, fun _ h => h, fun _ _ => rfl, fun _ => rfl⟩

theorem NodeLog.foreign (h : NodeLog asks ch n r) (hf : Foreign n asks ch asks' ch') :
    NodeLog asks' ch' n r where
  has := h.has.mono hf.chronicle.canon
  term_le := h.term_le
  leading := by
    intro hl
    obtain ⟨hlead, hcanon⟩ := h.leading hl
    exact ⟨hf.chronicle.leader _ _ hlead, (hf.canon _ hlead).trans hcanon⟩
  led := fun t ht => h.led t (hf.leader t ht)
  unasked := fun t ht => (hf.row t).trans (h.unasked t ht)

theorem Asked.longer {req : RequestVoteRequest} (h : Asked asks ch n r req)
    (hl : Longer asks ch asks' ch') : Asked asks' ch' n r req := by
  refine ⟨hl.asked _ _ _ h.asked, fun hterm hstate hnone => h.log hterm hstate ?_⟩
  by_contra hsome
  exact hl.chronicle.leader_ne hsome hnone

theorem PhaseLog.longer {ph : Phase} (h : PhaseLog asks ch n r ph)
    (hl : Longer asks ch asks' ch') (hrow : ∀ t, asks' t n = asks t n) :
    PhaseLog asks' ch' n r ph := by
  cases ph with
  | candidate => exact ⟨h.1, (hrow _).trans h.2⟩
  | polling req votes pending => exact Asked.longer h hl
  | won req => exact ⟨h.1.longer hl, h.2⟩
  | idle => trivial
  | starting => trivial
  | beating => trivial

theorem Carries.longer {req : AppendEntriesRequest} {k : ℕ} {e : LogEntry}
    (h : Carries ch req k e) (hl : ch.Extends ch') : Carries ch' req k e := by
  refine ⟨getElem?_of_isPrefix (hl.canon _) h.entry, h.entries, h.prevLogIndex, fun hk => ?_⟩
  obtain ⟨e', he', hterm⟩ := h.prevLogTerm hk
  exact ⟨e', getElem?_of_isPrefix (hl.canon _) he', hterm⟩

theorem PacketLog.longer {p : Packet} (h : PacketLog asks ch p)
    (hl : Longer asks ch asks' ch') : PacketLog asks' ch' p := by
  cases p with
  | requestVote dest req => exact hl.asked _ _ _ h
  | vote voter req granted => trivial
  | appendEntries dest req =>
    exact Or.imp_right (fun ⟨k, e, hc⟩ => ⟨k, e, hc.longer hl.chronicle⟩) h

/-- Only the moving node, what it sends and what is new in the history need a proof. -/
theorem LogInv.put {cfg : Config} {c : Cluster} {v v' : Ballots GoString} {m : Member}
    {ps : List Packet} (h : LogInv cfg c v asks ch) (hv : v.Extends v')
    (hf : ∀ k, k ≠ n → Foreign k asks ch asks' ch') (hl : Longer asks ch asks' ch')
    (hnode : NodeLog asks' ch' n m.node) (hphase : PhaseLog asks' ch' n m.node m.phase)
    (hps : ∀ p ∈ ps, PacketLog asks' ch' p)
    (helected : ∀ t k, ch.leader t ≠ some k → ch'.leader t = some k →
      v'.Elected cfg.nodes t k ∧ 0 < t)
    (hends : ∀ t k x u, asks t k ≠ some (x, u) → asks' t k = some (x, u) → 0 < t ∧ ch'.Ends x u)
    (hindex : ∀ t k e, (ch'.canon t)[k]? = some e → e.index = k + 1) :
    LogInv cfg (c.put n m ps) v' asks' ch' := by
  constructor
  · intro k hkm
    refine Cluster.members_put (P := fun m' => NodeLog asks' ch' k m'.node) ?_ fun hkn => ?_
    · rintro rfl
      exact hnode
    · exact (h.node k hkm).foreign (hf k hkn)
  · intro k hkm
    refine Cluster.members_put (P := fun m' => PhaseLog asks' ch' k m'.node m'.phase) ?_
      fun hkn => ?_
    · rintro rfl
      exact hphase
    · exact (h.phase k hkm).longer hl (hf k hkn).row
  · intro p hp
    rcases Cluster.mem_put_net.mp hp with hold | hnew
    · exact (h.packet p hold).longer hl
    · exact hps p hnew
  · intro t k ht
    by_cases hold : ch.leader t = some k
    · exact ⟨(h.elected t k hold).1.mono hv, (h.elected t k hold).2⟩
    · exact helected t k hold ht
  · intro t k x u ht
    by_cases hold : asks t k = some (x, u)
    · exact ⟨(h.ends t k x u hold).1, (h.ends t k x u hold).2.mono hl.chronicle⟩
    · exact hends t k x u hold ht
  · exact hindex

end Longer

/-! ## Nodes under one history -/

section Node

variable {asks : Asks} {ch : Logs} {n : GoString} {r r' : RaftNode}

theorem NodeLog.driven (h : NodeLog asks ch n r) (hd : r.Driven r') (hhas : ch.Has r'.log)
    (hle : ∀ e ∈ r'.log, e.term ≤ r'.currentTerm)
    (hlead : r.state = .leader → r'.currentTerm = r.currentTerm → r'.log = r.log) :
    NodeLog asks ch n r' where
  has := hhas
  term_le := hle
  leading := by
    intro hl
    rcases hd.term with ⟨-, hf⟩ | ⟨hterm, hstate, -⟩
    · rw [hf] at hl
      cases hl
    · rw [hterm, hlead (hstate ▸ hl) hterm]
      exact h.leading (hstate ▸ hl)
  led := by
    intro t ht
    rcases hd.term with ⟨hup, -⟩ | ⟨hterm, hstate, -⟩
    · left
      rcases h.led t ht with hlt | ⟨heq, -⟩
      · exact hlt.trans hup
      · exact heq ▸ hup
    · rw [hterm, hstate]
      exact h.led t ht
  unasked := fun t ht => h.unasked t (hd.le.trans_lt ht)

theorem NodeLog.driven_of_log (h : NodeLog asks ch n r) (hd : r.Driven r')
    (hlog : r'.log = r.log) : NodeLog asks ch n r' := by
  refine h.driven hd (by rw [hlog]; exact h.has) ?_ fun _ _ => hlog
  rw [hlog]
  exact fun e he => (h.term_le e he).trans hd.le

theorem NodeLog.becomeCandidate (h : NodeLog asks ch n r)
    (hlim : r.currentTerm + 1 < termLimit) : NodeLog asks ch n r.becomeCandidate := by
  have hterm : r.becomeCandidate.currentTerm = r.currentTerm + 1 := Nat.mod_eq_of_lt hlim
  refine ⟨h.has, ?_, nofun, ?_, ?_⟩ <;> rw [hterm]
  · exact fun e he => (h.term_le e he).trans (Nat.le_succ _)
  · intro t ht
    rcases h.led t ht with hlt | ⟨heq, -⟩
    · exact Or.inl (hlt.trans (Nat.lt_succ_self _))
    · exact Or.inl (heq ▸ Nat.lt_succ_self _)
  · exact fun t ht => h.unasked t ((Nat.lt_succ_self _).trans ht)

theorem Asked.ne_of_lt {req : RequestVoteRequest} (h : Asked asks ch n r req)
    (hnode : NodeLog asks ch n r) : ¬ r.currentTerm < req.term := by
  intro hlt
  have := hnode.unasked _ hlt
  rw [h.asked] at this
  cases this

theorem PhaseLog.later {ph : Phase} (h : PhaseLog asks ch n r ph) (hnode : NodeLog asks ch n r)
    (hlt : r.currentTerm < r'.currentTerm) : PhaseLog asks ch n r' ph := by
  cases ph with
  | candidate => exact ⟨by omega, hnode.unasked _ hlt⟩
  | polling req votes pending =>
    have hasked : Asked asks ch n r req := h
    exact ⟨hasked.asked, fun hterm => absurd (hterm ▸ hlt) (hasked.ne_of_lt hnode)⟩
  | won req =>
    have hno := h.1.ne_of_lt hnode
    exact ⟨⟨h.1.asked, fun hterm => absurd (hterm ▸ hlt) hno⟩,
      fun hterm => absurd (hterm ▸ hlt) hno⟩
  | idle => trivial
  | starting => trivial
  | beating => trivial

theorem PhaseLog.driven {ph : Phase} (h : PhaseLog asks ch n r ph) (hnode : NodeLog asks ch n r)
    (hd : r.Driven r') (hlog : r'.log = r.log ∨ ch.leader r'.currentTerm ≠ none) :
    PhaseLog asks ch n r' ph := by
  rcases hd.term with ⟨hup, -⟩ | ⟨hterm, hstate, -⟩
  · exact h.later hnode hup
  have hasked : ∀ req, Asked asks ch n r req → Asked asks ch n r' req := by
    refine fun req ha => ⟨ha.asked, fun ht hs hnone => ?_⟩
    have hsame : r'.log = r.log := hlog.resolve_right fun hne => hne (ht ▸ hnone)
    unfold RaftNode.lastLogTerm
    rw [hsame]
    exact ha.log (hterm ▸ ht) (hstate ▸ hs) hnone
  cases ph with
  | candidate =>
    rw [PhaseLog, hterm]
    exact h
  | polling req votes pending => exact hasked req h
  | won req => exact ⟨hasked req h.1, fun ht => hstate ▸ h.2 (hterm ▸ ht)⟩
  | idle => trivial
  | starting => trivial
  | beating => trivial

end Node

/-! ## Accepting an entry -/

section Merge

variable {ch : Logs} {req : AppendEntriesRequest} {k : ℕ} {e : LogEntry} {l l' : List LogEntry}

theorem logMatching_of_has (h : ch.Has l) (h' : ch.Has l') : LogMatching l l' := by
  intro i e e' he he' ht
  obtain ⟨k, rfl, hk⟩ := entryAt_eq_some.mp he
  rw [entryAt_succ] at he'
  exact h.take_eq h' hk he' ht

theorem Carries.sentFrom (hc : Carries ch req k e) : SentFrom (ch.canon req.term) k 1 req where
  le_length := (List.getElem?_eq_some_iff.mp hc.entry).1
  entries := by
    obtain ⟨hk, hget⟩ := List.getElem?_eq_some_iff.mp hc.entry
    rw [hc.entries, drop_eq_getElem_cons hk, hget]
    rfl
  prevLogIndex := hc.prevLogIndex
  prevLogTerm := by
    intro e' he'
    obtain ⟨j, rfl, hj⟩ := entryAt_eq_some.mp he'
    obtain ⟨e'', he'', hterm⟩ := hc.prevLogTerm (Nat.succ_pos j)
    rw [Nat.add_sub_cancel, hj] at he''
    cases he''
    exact hterm

theorem Carries.merged (hc : Carries ch req k e)
    (hindex : ∀ k e, (ch.canon req.term)[k]? = some e → e.index = k + 1) {r : RaftNode}
    (hhas : ch.Has r.log) (hprev : r.prevMatches req.prevLogIndex req.prevLogTerm = true)
    (hm : mergeEntries r.log req.entries = some l) :
    Merged (ch.canon req.term) r.log k (k + 1) l :=
  hc.sentFrom.merged (indexed_of_getElem? hindex) (logMatching_of_has hhas (ch.matches_canon _))
    hprev hm

end Merge

section Accept

variable {asks : Asks} {ch : Logs} {n : GoString} {r : RaftNode} {req : AppendEntriesRequest}

def Rewrites (ch : Logs) (r r' : RaftNode) : Prop :=
  r'.log = r.log ∨ ∃ k, ch.leader r'.currentTerm ≠ none ∧
    r'.log = (ch.canon r'.currentTerm).take (k + 1) ∧
    r.log.take (k + 1) ≠ (ch.canon r'.currentTerm).take (k + 1)

theorem rewrites_appendEntries (hhas : ch.Has r.log)
    (hindex : ∀ t k e, (ch.canon t)[k]? = some e → e.index = k + 1)
    (hp : req.entries = [] ∨ ∃ k e, Carries ch req k e) :
    Rewrites ch r (r.appendEntries req).2 := by
  rcases r.appendEntries_cases req with ⟨log, hle, hprev, hm, h⟩ | ⟨ok, h⟩ | h
  · rw [h]
    rcases hp with hempty | ⟨k, e, hc⟩
    · rw [hempty] at hm
      exact Or.inl (Option.some.inj hm).symm
    · have hterm := r.observeTerm_currentTerm req.term (Nat.not_lt.mpr hle)
      have hmerged := hc.merged (hindex _) hhas hprev hm
      by_cases hagree : r.log.take (k + 1) = (ch.canon req.term).take (k + 1)
      · exact Or.inl (hmerged.eq_of_agree hc.sentFrom.le_length hagree)
      · have hnew := hmerged.eq_of_not_agree hagree
        refine Or.inr ⟨k, ?_⟩
        show ch.leader (r.observeTerm req.term).currentTerm ≠ none ∧
          log = (ch.canon (r.observeTerm req.term).currentTerm).take (k + 1) ∧
          r.log.take (k + 1) ≠ (ch.canon (r.observeTerm req.term).currentTerm).take (k + 1)
        rw [hterm]
        exact ⟨Chronicle.leader_ne_of_getElem? hc.entry, hnew, hagree⟩
  · rw [h]
    exact Or.inl (r.observeTerm_log req.term)
  · rw [h]
    exact Or.inl rfl

theorem NodeLog.rewrites {r' : RaftNode} (h : NodeLog asks ch n r) (hd : r.Driven r')
    (hr : Rewrites ch r r') : NodeLog asks ch n r' := by
  rcases hr with hsame | ⟨k, -, hnew, hne⟩
  · exact h.driven_of_log hd hsame
  · refine h.driven hd ?_ ?_ ?_
    · rw [hnew]
      exact (ch.matches_canon _).take _
    · rw [hnew]
      exact fun e he => ch.term_le _ e (mem_of_mem_take he)
    · intro hl hterm
      rw [hterm, (h.leading hl).2] at hne
      exact absurd rfl hne

end Accept

/-! ## Moves -/

section Moves

variable {cfg : Config} {c : Cluster} {v : Ballots GoString} {asks : Asks} {ch : Logs}
  {n : GoString} {e : Event} {m : Member} {ps : List Packet}

theorem LogInv.leader_none (h : LogInv cfg c v asks ch) (hel : ElectionInv cfg c v)
    (hn : n ∈ cfg.ids) {req : RequestVoteRequest} (hwon : c.phase n = .won req)
    (hterm : (c.node n).currentTerm = req.term) : ch.leader (c.node n).currentTerm = none := by
  have hphase := h.phase n hn
  have hvotes := hel.phase n hn
  rw [hwon] at hphase hvotes
  by_contra hsome
  obtain ⟨l, hl⟩ := Option.ne_none_iff_exists'.mp hsome
  have heq : l = n := by
    refine Ballots.Elected.unique (h.elected _ l hl).1 ?_
    rw [hterm]
    exact hvotes
  subst heq
  rcases (h.node l hn).led _ hl with hlt | ⟨-, hstate⟩
  · exact absurd hlt (lt_irrefl _)
  · rw [hphase.2 hterm] at hstate
    cases hstate

theorem NodeLog.replicate {r : RaftNode} {req : AppendEntriesRequest} (h : NodeLog asks ch n r)
    (hreq : r.replicate = some req) :
    req.term = r.currentTerm ∧ req.leaderID = r.nodeID ∧ req.leaderCommit = r.commitIndex ∧
      req.prevLogIndex + 1 = r.log.length ∧ ∃ k e, Carries ch req k e := by
  unfold RaftNode.replicate at hreq
  by_cases hstate : r.state = .leader
  · rw [if_neg (not_not.mpr hstate)] at hreq
    have hcanon := (h.leading hstate).2
    cases hlast : r.log.getLast? with
    | none =>
      rw [hlast] at hreq
      cases hreq
    | some last =>
      rw [hlast] at hreq
      cases hreq
      have hpos : 0 < r.log.length := by
        rw [length_pos_iff]
        rintro hnil
        rw [hnil] at hlast
        cases hlast
      refine ⟨rfl, rfl, rfl, Nat.sub_add_cancel hpos, r.log.length - 1, last, ?_, rfl, rfl, ?_⟩
      · show (ch.canon r.currentTerm)[r.log.length - 1]? = some last
        rw [hcanon, ← List.getLast?_eq_getElem?, hlast]
      · intro hk
        show ∃ e', (ch.canon r.currentTerm)[r.log.length - 1 - 1]? = some e' ∧ _
        rw [hcanon]
        have hidx : r.log.dropLast[r.log.dropLast.length - 1]? =
            some r.log[r.log.length - 1 - 1] := by
          rw [length_dropLast, List.getElem?_dropLast, if_pos (by omega)]
          exact List.getElem?_eq_getElem (by omega)
        exact ⟨_, List.getElem?_eq_getElem (by omega), lastTerm_eq hidx⟩
  · rw [if_pos hstate] at hreq
    cases hreq

/-- What a move writes into the history: a new leader only where one becomes it, with its log. -/
structure Writes (c : Cluster) (n : GoString) (asks : Asks) (ch : Logs) (asks' : Asks)
    (ch' : Logs) : Prop extends Longer asks ch asks' ch' where
  leader : ∀ t, ch.leader t = none → ch'.leader t ≠ none →
    ∃ req, c.phase n = .won req ∧ (c.node n).currentTerm = req.term ∧ t = req.term ∧
      ch'.canon t = (c.node n).log

theorem Writes.refl (c : Cluster) (n : GoString) (asks : Asks) (ch : Logs) :
    Writes c n asks ch asks ch :=
  ⟨.refl asks ch, fun _ h h' => absurd h h'⟩

theorem LogInv.requestVotes (h : LogInv cfg c v asks ch) (hel : ElectionInv cfg c v)
    (hn : n ∈ cfg.ids) (hphase : c.phase n = .candidate) :
    ∃ asks', Writes c n asks ch asks' ch ∧
      LogInv cfg (c.put n
        { c.members n with phase := .polling (c.node n).voteRequest 1 (c.node n).peers }
        ((c.node n).peers.map (.requestVote · (c.node n).voteRequest))) v asks' ch := by
  have hnode := h.node n hn
  have hcand := h.phase n hn
  rw [hphase] at hcand
  let asked := some ((c.node n).log.length, (c.node n).lastLogTerm)
  let asks' : Asks := fun t p => if p = n ∧ t = (c.node n).currentTerm then asked else asks t p
  have hnew : asks' (c.node n).currentTerm n = asked := if_pos ⟨rfl, rfl⟩
  have hother : ∀ k, k ≠ n → ∀ t, asks' t k = asks t k := fun k hk t => if_neg fun hc => hk hc.1
  have hlonger : Longer asks ch asks' ch := by
    refine ⟨.refl ch, fun t p x hx => ?_⟩
    show ite _ _ _ = _
    rw [if_neg, hx]
    rintro ⟨rfl, rfl⟩
    rw [hcand.2] at hx
    cases hx
  refine ⟨asks', ⟨hlonger, fun _ h h' => absurd h h'⟩, h.put (.refl v) ?_ hlonger ?_ ?_ ?_ ?_ ?_
    h.index⟩
  · exact fun k hk => ⟨hlonger, fun _ h => h, fun _ _ => rfl, hother k hk⟩
  · refine ⟨hnode.has, hnode.term_le, hnode.leading, hnode.led, fun t ht => ?_⟩
    show ite _ _ _ = none
    rw [if_neg fun hc => ht.ne' hc.2]
    exact hnode.unasked t ht
  · exact ⟨hnew, fun _ _ _ => ⟨rfl, rfl⟩⟩
  · intro p hp
    obtain ⟨q, -, rfl⟩ := mem_map.mp hp
    show asks' (c.node n).currentTerm (c.node n).nodeID = asked
    rw [(hel.node n hn).nodeID]
    exact hnew
  · exact fun t k hold hk => absurd hk hold
  · intro t k x u hold hk
    by_cases hc : k = n ∧ t = (c.node n).currentTerm
    · obtain ⟨rfl, rfl⟩ := hc
      obtain ⟨rfl, rfl⟩ := Prod.mk.inj (Option.some.inj (hnew.symm.trans hk))
      exact ⟨hcand.1, hnode.has.ends⟩
    · exact absurd ((if_neg hc).symm.trans hk) hold

theorem LogInv.becomeLeader (h : LogInv cfg c v asks ch) (hel : ElectionInv cfg c v)
    (hn : n ∈ cfg.ids) {req : RequestVoteRequest} (hwon : c.phase n = .won req)
    (hterm : (c.node n).currentTerm = req.term) :
    ∃ ch', Writes c n asks ch asks ch' ∧
      LogInv cfg (c.put n
        { c.members n with node := (c.node n).becomeLeader, phase := .beating } []) v asks ch' := by
  have hnode := h.node n hn
  have hphase := h.phase n hn
  have hvotes := hel.phase n hn
  have hnone := h.leader_none hel hn hwon hterm
  rw [hwon] at hphase hvotes
  let ch' := ch.elect (c.node n).currentTerm n (c.node n).log hnode.has hnode.term_le hnone
  have hext : ch.Extends ch' := Chronicle.extends_elect hnode.has hnode.term_le hnone
  have hleader : ch'.leader (c.node n).currentTerm = some n := Function.update_self ..
  have hcanon : ch'.canon (c.node n).currentTerm = (c.node n).log := Function.update_self ..
  have hleader_ne : ∀ t, t ≠ (c.node n).currentTerm → ch'.leader t = ch.leader t :=
    fun t ht => Function.update_of_ne ht ..
  have hcanon_ne : ∀ t, t ≠ (c.node n).currentTerm → ch'.canon t = ch.canon t :=
    fun t ht => Function.update_of_ne ht ..
  have hlonger : Longer asks ch asks ch' := ⟨hext, fun _ _ _ hx => hx⟩
  refine ⟨ch', ⟨hlonger, ?_⟩, h.put (.refl v) ?_ hlonger ?_ trivial nofun ?_ ?_ ?_⟩
  · intro t hold hnew
    have ht : t = (c.node n).currentTerm := by
      by_contra hne
      exact hnew ((hleader_ne t hne).trans hold)
    exact ⟨req, hwon, hterm, ht.trans hterm, ht ▸ hcanon⟩
  · refine fun k hk => ⟨hlonger, fun t ht => ?_, fun t ht => hcanon_ne t ?_, fun _ => rfl⟩
    · by_cases heq : t = (c.node n).currentTerm
      · rw [heq, hleader] at ht
        exact absurd (Option.some.inj ht).symm hk
      · rwa [hleader_ne t heq] at ht
    · rintro rfl
      rw [hnone] at ht
      cases ht
  · refine ⟨hnode.has.mono hext.canon, hnode.term_le, fun _ => ⟨hleader, hcanon⟩, fun t ht => ?_,
      hnode.unasked⟩
    by_cases heq : t = (c.node n).currentTerm
    · exact Or.inr ⟨heq, rfl⟩
    · rw [hleader_ne t heq] at ht
      exact Or.inl ((hnode.led t ht).resolve_right fun hc => heq hc.1)
  · intro t k hold ht
    by_cases heq : t = (c.node n).currentTerm
    · subst heq
      rw [hleader] at ht
      cases ht
      rw [hterm]
      exact ⟨hvotes, (h.ends _ _ _ _ hphase.1.asked).1⟩
    · rw [hleader_ne t heq] at ht
      exact absurd ht hold
  · exact fun t k x u hold hk => absurd hk hold
  · intro t k e he
    by_cases heq : t = (c.node n).currentTerm
    · subst heq
      rw [hcanon] at he
      exact h.index _ k e (hnode.has.getElem? he)
    · rw [hcanon_ne t heq] at he
      exact h.index t k e he

theorem LogInv.propose (h : LogInv cfg c v asks ch) (hn : n ∈ cfg.ids)
    (hstate : (c.node n).state = .leader) (cmd : Bytes) :
    ∃ ch', Writes c n asks ch asks ch' ∧
      LogInv cfg (c.put n { c.members n with node := ((c.node n).propose cmd).2 } []) v asks
        ch' := by
  have hnode := h.node n hn
  obtain ⟨hlead, hlog⟩ := hnode.leading hstate
  let e : LogEntry := ⟨(c.node n).log.length + 1, (c.node n).currentTerm, cmd⟩
  have hsome : ch.leader (c.node n).currentTerm ≠ none := by
    rw [hlead]
    exact Option.some_ne_none n
  let ch' := ch.propose (c.node n).currentTerm e rfl hsome
  have hext : ch.Extends ch' := Chronicle.extends_propose (e := e) rfl hsome
  have hcanon : ch'.canon (c.node n).currentTerm = (c.node n).log ++ [e] := by
    rw [← hlog]
    exact Function.update_self ..
  have hcanon_ne : ∀ t, t ≠ (c.node n).currentTerm → ch'.canon t = ch.canon t :=
    fun t ht => Function.update_of_ne ht ..
  have hlonger : Longer asks ch asks ch' := ⟨hext, fun _ _ _ hx => hx⟩
  have hprop : ((c.node n).propose cmd).2 = { c.node n with log := (c.node n).log ++ [e] } := by
    rcases RaftNode.propose_cases cmd (c.node n) with ⟨-, hp⟩ | hp
    · exact hp
    · unfold RaftNode.propose at hp ⊢
      rw [if_neg (not_not.mpr hstate)]
  rw [hprop]
  refine ⟨ch', ⟨hlonger, fun _ h h' => absurd h h'⟩, h.put (.refl v) ?_ hlonger ?_ ?_ nofun
    (fun t k hold hk => absurd hk hold) (fun t k x u hold hk => absurd hk hold) ?_⟩
  · refine fun k hk => ⟨hlonger, fun _ ht => ht, fun t ht => hcanon_ne t ?_, fun _ => rfl⟩
    rintro rfl
    rw [hlead] at ht
    exact hk (Option.some.inj ht).symm
  · refine ⟨?_, ?_, fun _ => ⟨hlead, hcanon⟩, hnode.led, hnode.unasked⟩
    · show ch'.Has ((c.node n).log ++ [e])
      rw [← hcanon]
      exact ch'.matches_canon _
    · intro e' he'
      rcases mem_append.mp he' with hold | hnew
      · exact hnode.term_le e' hold
      · rw [mem_singleton.mp hnew]
  · have hd := RaftNode.driven_propose cmd (c.node n)
    rw [hprop] at hd
    exact ((h.phase n hn).driven hnode hd (Or.inr hsome)).longer hlonger fun _ => rfl
  · intro t k e' he'
    by_cases heq : t = (c.node n).currentTerm
    · subst heq
      rw [hcanon] at he'
      rcases Nat.lt_or_ge k (c.node n).log.length with hlt | hge
      · rw [List.getElem?_append_left hlt] at he'
        exact h.index _ k e' (hnode.has.getElem? he')
      · have hlt := (List.getElem?_eq_some_iff.mp he').1
        rw [length_append, length_singleton] at hlt
        obtain rfl : k = (c.node n).log.length := by omega
        rw [List.getElem?_concat_length] at he'
        cases he'
        rfl
    · rw [hcanon_ne t heq] at he'
      exact h.index t k e' he'

theorem LogInv.unwritten (h : LogInv cfg c v asks ch) (hel : ElectionInv cfg c v)
    (hn : n ∈ cfg.ids) (hk : (c.node n).Keeps m.node) (hno : NodeLog asks ch n m.node)
    (hph : PhaseLog asks ch n m.node m.phase) (hpk : ∀ p ∈ ps, PacketLog asks ch p) :
    ∃ asks' ch', Writes c n asks ch asks' ch' ∧
      LogInv cfg (c.put n m ps) (cast v n m.node) asks' ch' :=
  ⟨asks, ch, .refl c n asks ch, h.put ((hel.node n hn).row.extends_cast hk)
    (fun k _ => .refl k asks ch) (.refl asks ch) hno hph hpk
    (fun _ _ hold hnew => absurd hnew hold) (fun _ _ _ _ hold hnew => absurd hnew hold) h.index⟩

theorem LogInv.moves (h : LogInv cfg c v asks ch) (hel : ElectionInv cfg c v) (hn : n ∈ cfg.ids)
    (hin : inTerm c e = true) (hm : c.Moves n e m ps) :
    ∃ asks' ch', Writes c n asks ch asks' ch' ∧
      LogInv cfg (c.put n m ps) (cast v n m.node) asks' ch' := by
  have hnode := h.node n hn
  have hphase := h.phase n hn
  have hcast : ∀ {r : RaftNode}, (c.node n).NoVote r → cast v n r = v :=
    (hel.node n hn).row.cast_eq
  cases hm with
  | timer =>
    have hlim := of_decide_eq_true hin
    exact h.unwritten hel hn (keeps_becomeCandidate hlim) (hnode.becomeCandidate hlim)
      (hphase.later hnode (lt_becomeCandidate hlim)) nofun
  | timeout => exact h.unwritten hel hn (.refl _) hnode trivial nofun
  | becomeCandidate =>
    have hlim := of_decide_eq_true hin
    have hlt := lt_becomeCandidate hlim
    exact h.unwritten hel hn (keeps_becomeCandidate hlim) (hnode.becomeCandidate hlim)
      ⟨Nat.zero_lt_of_lt hlt, hnode.unasked _ hlt⟩ nofun
  | requestVotes hcand =>
    obtain ⟨asks', hw, hinv⟩ := h.requestVotes hel hn hcand
    refine ⟨asks', ch, hw, ?_⟩
    show LogInv cfg _ (cast v n (c.node n)) asks' ch
    rw [hcast (RaftNode.noVote_refl _)]
    exact hinv
  | callFails req votes pending peer hpoll =>
    rw [hpoll] at hphase
    exact h.unwritten hel hn (.refl _) hnode hphase nofun
  | wins req votes hpoll hstate hterm hvotes =>
    rw [hpoll] at hphase
    exact h.unwritten hel hn (.refl _) hnode ⟨hphase, fun _ => hstate⟩ nofun
  | givesUp => exact h.unwritten hel hn (.refl _) hnode trivial nofun
  | becomeLeader req hwon =>
    obtain ⟨ch', hw, hinv⟩ := h.becomeLeader hel hn hwon (inTerm_becomeLeader hin hwon)
    refine ⟨asks, ch', hw, ?_⟩
    show LogInv cfg _ (cast v n (c.node n).becomeLeader) asks ch'
    rw [hcast (RaftNode.noVote_becomeLeader _)]
    exact hinv
  | tick => exact h.unwritten hel hn (.refl _) hnode trivial nofun
  | sendHeartbeats =>
    refine h.unwritten hel hn (.refl _) hnode trivial fun p hp => ?_
    obtain ⟨q, -, rfl⟩ := mem_map.mp hp
    exact Or.inl rfl
  | propose cmd =>
    rcases RaftNode.propose_cases cmd (c.node n) with ⟨hstate, hp⟩ | hp
    · obtain ⟨ch', hw, hinv⟩ := h.propose hn hstate cmd
      refine ⟨asks, ch', hw, ?_⟩
      rw [hcast (RaftNode.noVote_propose cmd _)]
      exact hinv
    · rw [hp]
      exact h.unwritten hel hn (.refl _) hnode hphase nofun
  | replicateAll req hreq =>
    refine h.unwritten hel hn (.refl _) hnode hphase fun p hp => ?_
    obtain ⟨q, -, rfl⟩ := mem_map.mp hp
    exact Or.inr (hnode.replicate hreq).2.2.2.2
  | setCommitIndex idx =>
    have hd := RaftNode.driven_setCommitIndex idx (c.node n)
    have hlog := RaftNode.setCommitIndex_log idx (c.node n)
    exact h.unwritten hel hn hd.keeps (hnode.driven_of_log hd hlog)
      (hphase.driven hnode hd (Or.inl hlog)) nofun
  | requestVote req hnet =>
    have hd := RaftNode.driven_requestVote req (c.node n)
    have hlog := RaftNode.requestVote_log req (c.node n)
    refine h.unwritten hel hn hd.keeps (hnode.driven_of_log hd hlog)
      (hphase.driven hnode hd (Or.inl hlog)) ?_
    intro p hp
    rw [mem_singleton.mp hp]
    trivial
  | vote voter req granted votes pending hnet hcand hpoll hvoter =>
    rw [hpoll] at hphase
    exact h.unwritten hel hn (.refl _) hnode hphase nofun
  | appendEntries req hnet =>
    have hd := RaftNode.driven_appendEntries req (c.node n)
    have hr := rewrites_appendEntries hnode.has h.index (h.packet _ hnet)
    refine h.unwritten hel hn hd.keeps (hnode.rewrites hd hr) (hphase.driven hnode hd ?_) nofun
    exact hr.imp_right fun ⟨k, hk, _⟩ => hk

end Moves

theorem logInv_initial (cfg : Config) :
    LogInv cfg (.initial cfg) (fun _ _ => none) (fun _ _ => none) (.empty LogEntry.term) where
  node := fun _ _ => ⟨.nil, nofun, nofun, nofun, fun _ _ => rfl⟩
  phase := fun _ _ => trivial
  packet := nofun
  elected := nofun
  ends := nofun
  index := nofun

end Gomq.Raft
