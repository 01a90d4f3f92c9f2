import Gomq.Broker.Effects

/-!
# Transactions

`Tx.Commit` takes the staged list off the channel and publishes its entries one by one, returning
at the first that fails. A publish fails only for a missing exchange, and no publish adds or
removes one, so whether a commit fails is decided by the state it starts in
(`publishEntries_of_all`, `publishEntries_error`). A commit that fails has already lost the staged
list.
-/

namespace Gomq.Broker

open Wire

inductive PublishedAll (env : Env) (c : UInt16) : List TxEntry → Server → Server → Prop where
  | nil (s : Server) : PublishedAll env c [] s s
  | cons {e : TxEntry} {es : List TxEntry} {s u v : Server} {n : ℕ} :
      s.publish env e.exchange e.routingKey e.msg c = (.ok n, u) → PublishedAll env c es u v →
      PublishedAll env c (e :: es) s v

structure Untouched (ch : ChanRef) (s s' : Server) : Prop where
  ready : ∀ q, s'.ready q = s.ready q
  delivered : s'.delivered = s.delivered
  batches : s'.batches = s.batches
  tracker : ∀ t c, s'.getDelivery t c = s.getDelivery t c
  staged : (s'.chans.read ch).txPending = (s.chans.read ch).txPending

/-- All or nothing: the commit publishes the whole staged list and replies `Commit-Ok`, or it
returns an error and changes nothing. -/
def CommitAtomic (env : Env) (ch : ChanRef) (payload : Bytes) (s : Server) : Prop :=
  let c := s.chans.read ch
  (∃ u, PublishedAll env c.id c.txPending (s.modifyChan ch fun c => { c with txPending := [] }) u ∧
      handleTxCommit env ch payload s = (none, u.reply ch (Server.methodPayload 90 21 []))) ∨
    ((handleTxCommit env ch payload s).1 ≠ none ∧
      Untouched ch s (handleTxCommit env ch payload s).2)

/-! ## The commit loop -/

theorem publishEntries_of_all (env : Env) (c : UInt16) {es : List TxEntry} (s : Server)
    (h : ∀ e ∈ es, (s.exchanges.get e.exchange).isSome) :
    ∃ u, PublishedAll env c es s u ∧ publishEntries env c es s = (none, u) := by
  induction es generalizing s with
  | nil => exact ⟨s, .nil s, rfl⟩
  | cons e es ih =>
    obtain ⟨n, u, hp, hexchanges⟩ := Server.publish_of_get (h e List.mem_cons_self)
    -- the exchanges are the same after this publish, so the rest goes through as well
    obtain ⟨v, hall, hv⟩ := ih u fun e' he' => by
      rw [hexchanges]; exact h e' (List.mem_cons_of_mem e he')
    refine ⟨v, .cons hp hall, ?_⟩
    rw [publishEntries, hp]
    exact hv

theorem publishEntries_error {env : Env} {c : UInt16} {es : List TxEntry} {s : Server}
    (h : ∃ e ∈ es, s.exchanges.get e.exchange = none) :
    (publishEntries env c es s).1 ≠ none := by
  induction es generalizing s with
  | nil => obtain ⟨e, he, -⟩ := h; exact absurd he List.not_mem_nil
  | cons e es ih =>
    cases he : s.exchanges.get e.exchange with
    | none =>
      rw [publishEntries, Server.publish_of_missing he]
      exact Option.some_ne_none _
    | some x =>
      obtain ⟨n, u, hp, hexchanges⟩ := Server.publish_of_get (by rw [he]; rfl)
      rw [publishEntries, hp]
      apply ih
      obtain ⟨e', he', hnone⟩ := h
      rcases List.mem_cons.mp he' with rfl | hmem
      · rw [he] at hnone; exact absurd hnone (Option.some_ne_none x)
      · exact ⟨e', hmem, by rw [hexchanges]; exact hnone⟩

/-! ## Atomicity -/

/-- A commit is atomic exactly when every staged entry names an existing exchange. -/
theorem commitAtomic_iff (env : Env) (ch : ChanRef) (payload : Bytes) (s : Server) :
    CommitAtomic env ch payload s ↔
      ∀ e ∈ (s.chans.read ch).txPending, (s.exchanges.get e.exchange).isSome := by
  constructor
  · intro hatomic e he
    by_contra hmissing
    have hnone : s.exchanges.get e.exchange = none := by simpa using hmissing
    set t := s.modifyChan ch fun c => { c with txPending := [] } with ht
    have herr : (publishEntries env (s.chans.read ch).id (s.chans.read ch).txPending t).1 ≠ none :=
      publishEntries_error ⟨e, he, hnone⟩
    have hframe := framed_publishEntries env (s.chans.read ch).id (s.chans.read ch).txPending t
    rcases hpub : publishEntries env (s.chans.read ch).id (s.chans.read ch).txPending t with
      ⟨_ | err, u⟩
    · rw [hpub] at herr; exact herr rfl
    rw [hpub] at hframe
    have hcommit : handleTxCommit env ch payload s = (some err, u) := by
      unfold handleTxCommit
      dsimp only
      rw [← ht, hpub]
    rcases hatomic with ⟨v, -, hv⟩ | ⟨-, hsame⟩
    · rw [hcommit] at hv; cases hv
    · -- the list was cleared before the loop, and the loop does not put it back
      have hstaged := hsame.staged
      rw [hcommit, show u.chans = t.chans from hframe.chans, ht] at hstaged
      simp only [Server.modifyChan, Heap.read_modify_self] at hstaged
      rw [← hstaged] at he
      exact List.not_mem_nil he
  · intro hall
    obtain ⟨u, hpub, heq⟩ := publishEntries_of_all env (s.chans.read ch).id
      (s.modifyChan ch fun c => { c with txPending := [] }) hall
    refine Or.inl ⟨u, hpub, ?_⟩
    unfold handleTxCommit
    dsimp only
    rw [heq]

def halfRoutable : Server :=
  { newServer with
    queues := GoMap.set ∅ (str "q") ⟨str "q", false, false, false, [], none⟩
    bindings := (⟨∅, ∅⟩ : BindingManager).bind (str "amq.fanout") (str "q") [] []
    msgs := (Heap.empty.alloc (newMessage [] {})).alloc (newMessage [] {})
    conns := Heap.empty.alloc (newConnection .up)
    chans := Heap.empty.alloc
      { newChannel 1 0 with
        txMode := true
        txPending := [⟨str "amq.fanout", [], 0⟩, ⟨str "missing", [], 1⟩] } }

/-- The first message is in the queue, the second is lost, and nothing is staged any more. -/
theorem halfRoutable_not_atomic :
    (handleTxCommit default 0 [] halfRoutable).1 = some (.exchangeNotFound (str "missing")) ∧
      halfRoutable.ready (str "q") = [] ∧
      (handleTxCommit default 0 [] halfRoutable).2.ready (str "q") = [0] ∧
      ((handleTxCommit default 0 [] halfRoutable).2.chans.read 0).txPending = [] ∧
      ¬ CommitAtomic default 0 [] halfRoutable := by
  have hq : (handleTxCommit default 0 [] halfRoutable).2.ready (str "q") = [0] := by decide
  have herr : (handleTxCommit default 0 [] halfRoutable).1 =
      some (.exchangeNotFound (str "missing")) := by decide
  refine ⟨herr, by decide, hq, by rfl, ?_⟩
  rintro (⟨u, -, hu⟩ | ⟨-, hsame⟩)
  · rw [hu] at herr; cases herr
  · have hready := hsame.ready (str "q")
    rw [hq] at hready
    exact absurd hready (by decide)

end Gomq.Broker
