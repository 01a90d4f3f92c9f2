import Gomq.Broker.Reach

/-!
# A publish ends, and goes where the bindings lead

`publishInternal` calls itself for every exchange-to-exchange binding, and an overflowing queue
starts a walk for its dead letter. `Ends` is this recursion as the code runs it, without fuel, with
the exchanges whose routers it applies. The set of visited exchanges grows with each exchange
that is entered, so a walk ends on every graph, and a dead letter never causes another, so a publish
ends; the model with fuel computes its outcome (`publish_ends`). Each exchange is entered once.
Without length limits no message is evicted and the headers stay as they are, so the queues that
change are in reach (`reach_of_changed`).
-/

namespace Gomq.Broker

open Wire List

namespace Server

/-! ## The recursion without fuel -/

def Overflows (s : Server) (qn : GoString) (args : Table) : Prop :=
  0 < maxLength args ∧ (maxLength args).toInt ≤ (s.ready qn).length

/-- The overflow check of a queue; `letter` is what dead-lettering can do. -/
inductive Evicts (letter : MsgRef → Table → Server → Server → Prop) (qn : GoString) (args : Table) :
    Server → Server → Prop
  | room {s : Server} (h : ¬ s.Overflows qn args) : Evicts letter qn args s s
  | empty {s u : Server} (h : s.Overflows qn args) (hdeq : s.dequeue qn = (none, u)) :
      Evicts letter qn args s u
  | oldest {s u v : Server} {o : MsgRef} (h : s.Overflows qn args)
      (hdeq : s.dequeue qn = (some o, u)) (hl : letter o args u v) : Evicts letter qn args s v

inductive Stores (env : Env) (letter : MsgRef → Table → Server → Server → Prop) (checkDLX : Bool)
    (msg : MsgRef) (c : UInt16) : List GoString → Server → Server → Prop
  | done {s : Server} : Stores env letter checkDLX msg c [] s s
  | missing {s u : Server} {qn : GoString} {l : List GoString} (hq : s.queues.get qn = none)
      (hl : Stores env letter checkDLX msg c l s u) : Stores env letter checkDLX msg c (qn :: l) s u
  | unchecked {s u : Server} {qn : GoString} {l : List GoString} {q : Queue}
      (hchk : checkDLX = false) (hq : s.queues.get qn = some q)
      (hl : Stores env letter checkDLX msg c l (storeAndDeliver env msg c qn q.args s) u) :
      Stores env letter checkDLX msg c (qn :: l) s u
  | checked {s u v : Server} {qn : GoString} {l : List GoString} {q : Queue}
      (hchk : checkDLX = true) (hq : s.queues.get qn = some q)
      (hev : Evicts letter qn q.args s v)
      (hl : Stores env letter checkDLX msg c l (storeAndDeliver env msg c qn q.args v) u) :
      Stores env letter checkDLX msg c (qn :: l) s u

/-- What the loop over the bindings keeps of a call: its error is dropped. -/
def addRouted (n : ℕ) (r : Server × List GoString × Except GoError ℕ) :
    Server × List GoString × ℕ :=
  match r with
  | (s, vis, .error _) => (s, vis, n)
  | (s, vis, .ok k) => (s, vis, n + k)

/-- A piece of the recursion: a call of `publishInternal`, or the rest of the loop over the bindings
of an exchange. -/
inductive Walk where
  | call (ex key : GoString) (vis : List GoString) (s : Server)
  | forward (l : List E2EBinding) (acc : Server × List GoString × ℕ)

/-- A walk that ends, with its result and the exchanges whose routers it has applied. -/
inductive Ends (env : Env) (letter : MsgRef → Table → Server → Server → Prop) (checkDLX : Bool)
    (msg : MsgRef) (c : UInt16) :
    Walk → Server × List GoString × Except GoError ℕ → List GoString → Prop
  | loop {ex key : GoString} {vis : List GoString} {s : Server} (hv : ex ∈ vis) :
      Ends env letter checkDLX msg c (.call ex key vis s) (s, vis, .error (.exchangeLoop ex)) []
  | missing {ex key : GoString} {vis : List GoString} {s : Server} (hv : ex ∉ vis)
      (hx : s.exchanges.get ex = none) :
      Ends env letter checkDLX msg c (.call ex key vis s)
        (s, ex :: vis, .error (.exchangeNotFound ex)) []
  | routed {ex key : GoString} {vis : List GoString} {s u : Server} {x : Exchange}
      {queues : List GoString} {r : Server × List GoString × Except GoError ℕ}
      {t : List GoString} (hv : ex ∉ vis) (hx : s.exchanges.get ex = some x)
      (hqueues : queues =
        x.route key (s.msgs.read msg).properties.headers (s.bindings.getBindings ex))
      (hstore : Stores env letter checkDLX msg c queues s u)
      (hforward : Ends env letter checkDLX msg c
        (.forward (E2EBindingManager.getBindings u.e2eBindings ex)
          (u, ex :: vis, queues.length)) r t) :
      Ends env letter checkDLX msg c (.call ex key vis s) r (ex :: t)
  | done {acc : Server × List GoString × ℕ} :
      Ends env letter checkDLX msg c (.forward [] acc) (acc.1, acc.2.1, .ok acc.2.2) []
  | next {eb : E2EBinding} {l : List E2EBinding} {acc : Server × List GoString × ℕ}
      {res r : Server × List GoString × Except GoError ℕ} {t t' : List GoString}
      (hcall : Ends env letter checkDLX msg c
        (.call eb.destination eb.routingKey acc.2.1 acc.1) res t)
      (hl : Ends env letter checkDLX msg c (.forward l (addRouted acc.2.2 res)) r t') :
      Ends env letter checkDLX msg c (.forward (eb :: l) acc) r (t ++ t')

/-- `deadLetter`. Its walk has the overflow check off, and no dead letter comes up in it. -/
inductive Letters (env : Env) (msg : MsgRef) (args : Table) : Server → Server → Prop
  | unset {s : Server} (h : getDeadLetterConfig args = none) : Letters env msg args s s
  | sent {s : Server} {dlx : DeadLetterConfig} {t : List GoString}
      {r : Server × List GoString × Except GoError ℕ} (h : getDeadLetterConfig args = some dlx)
      (hwalk : Ends env (fun _ _ _ _ => False) false msg 0
        (.call dlx.exchange (dlx.keyFor (s.msgs.read msg).routingKey) [] (s.markLetter msg)) r t) :
      Letters env msg args s r.1

/-! ## Every walk ends -/

section Ends

variable {env : Env} {letter : MsgRef → Table → Server → Server → Prop}
  {dl : MsgRef → Table → Server → Server} {chk : Bool} {msg : MsgRef} {c : UInt16}

theorem evicts_evictOldest (hletter : ∀ m args s, letter m args s (dl m args s)) (s : Server)
    (qn : GoString) (args : Table) : Evicts letter qn args s (s.evictOldest dl qn args) := by
  unfold evictOldest
  split
  · rename_i hfull
    rcases hdeq : s.dequeue qn with ⟨_ | o, u⟩
    · exact .empty hfull hdeq
    · exact .oldest hfull hdeq (hletter o args u)
  · rename_i hroom
    exact .room hroom

theorem stores_foldl (hletter : chk = true → ∀ m args s, letter m args s (dl m args s))
    (l : List GoString) (s : Server) :
    Stores env letter chk msg c l s (l.foldl (publishTo env dl chk msg c) s) := by
  induction l generalizing s with
  | nil => exact .done
  | cons qn l ih =>
    rw [foldl_cons]
    cases hq : s.queues.get qn with
    | none =>
      rw [publishTo_none env dl msg c hq]
      exact .missing hq (ih s)
    | some q =>
      rw [publishTo_some env dl msg c hq]
      cases chk with
      | false => exact .unchecked rfl hq (ih _)
      | true => exact .checked rfl hq (evicts_evictOldest (hletter rfl) s qn q.args) (ih _)

theorem forward_eq_addRouted (fuel : ℕ) (acc : Server × List GoString × ℕ) (eb : E2EBinding) :
    forward env dl chk msg c fuel acc eb =
      addRouted acc.2.2 (publishInternal env dl chk msg c fuel eb.destination eb.routingKey
        acc.2.1 acc.1) := rfl

theorem addRouted_fst (n : ℕ) (r : Server × List GoString × Except GoError ℕ) :
    (addRouted n r).1 = r.1 ∧ (addRouted n r).2.1 = r.2.1 := by
  obtain ⟨s, vis, e | k⟩ := r
  · exact ⟨rfl, rfl⟩
  · exact ⟨rfl, rfl⟩

/-- The exchanges of `t` are entered for the first time, each once, and count as visited then. -/
structure EntersOnce (vis vis' t : List GoString) : Prop where
  nodup : t.Nodup
  fresh : ∀ ex ∈ t, ex ∉ vis
  visited : ∀ ex ∈ t, ex ∈ vis'

theorem EntersOnce.nil (vis vis' : List GoString) : EntersOnce vis vis' [] :=
  ⟨nodup_nil, nofun, nofun⟩

theorem EntersOnce.append {vis vis' vis'' t t' : List GoString} (h : EntersOnce vis vis' t)
    (h' : EntersOnce vis' vis'' t') (hsub : vis ⊆ vis') (hsub' : vis' ⊆ vis'') :
    EntersOnce vis vis'' (t ++ t') where
  nodup := nodup_append.mpr ⟨h.nodup, h'.nodup, fun ex hex ex' hex' heq =>
    h'.fresh ex' hex' (heq ▸ h.visited ex hex)⟩
  fresh ex hex := by
    rcases mem_append.mp hex with hex | hex
    · exact h.fresh ex hex
    · exact fun hv => h'.fresh ex hex (hsub hv)
  visited ex hex := by
    rcases mem_append.mp hex with hex | hex
    · exact hsub' (h.visited ex hex)
    · exact h'.visited ex hex

theorem EntersOnce.cons {ex : GoString} {vis vis' t : List GoString}
    (h : EntersOnce (ex :: vis) vis' t) (hv : ex ∉ vis) (hsub : ex :: vis ⊆ vis') :
    EntersOnce vis vis' (ex :: t) where
  nodup := nodup_cons.mpr ⟨fun hex => h.fresh ex hex mem_cons_self, h.nodup⟩
  fresh x hx := by
    rcases mem_cons.mp hx with rfl | hx
    · exact hv
    · exact fun hmem => h.fresh x hx (mem_cons_of_mem ex hmem)
  visited x hx := by
    rcases mem_cons.mp hx with rfl | hx
    · exact hsub mem_cons_self
    · exact h.visited x hx

variable (hdl : ∀ m args s, Framed s (dl m args s))

include hdl

theorem ends_foldl {fuel : ℕ}
    (ih : ∀ ex key vis s, s.unvisited vis < fuel →
      ∃ t, Ends env letter chk msg c (.call ex key vis s)
          (publishInternal env dl chk msg c fuel ex key vis s) t ∧
        EntersOnce vis (publishInternal env dl chk msg c fuel ex key vis s).2.1 t)
    (l : List E2EBinding) (acc : Server × List GoString × ℕ)
    (hfuel : acc.1.unvisited acc.2.1 < fuel) :
    ∃ t, (let r := l.foldl (forward env dl chk msg c fuel) acc
        Ends env letter chk msg c (.forward l acc) (r.1, r.2.1, .ok r.2.2) t) ∧
      EntersOnce acc.2.1 (l.foldl (forward env dl chk msg c fuel) acc).2.1 t ∧
      acc.2.1 ⊆ (l.foldl (forward env dl chk msg c fuel) acc).2.1 := by
  induction l generalizing acc with
  | nil => exact ⟨[], .done, .nil _ _, List.Subset.refl _⟩
  | cons eb l ihl =>
    obtain ⟨t, hcall, honce⟩ := ih eb.destination eb.routingKey acc.2.1 acc.1 hfuel
    have hframed := framed_publishInternal hdl env chk msg c fuel eb.destination eb.routingKey
      acc.2.1 acc.1
    have hsub := publishInternal_subset env dl chk msg c fuel eb.destination eb.routingKey
      acc.2.1 acc.1
    obtain ⟨hstate, hvis⟩ := addRouted_fst acc.2.2 (publishInternal env dl chk msg c fuel
      eb.destination eb.routingKey acc.2.1 acc.1)
    rw [foldl_cons, forward_eq_addRouted]
    rw [← hvis] at honce hsub
    rw [← hstate] at hframed
    obtain ⟨t', hrest, honce', hsub'⟩ := ihl (addRouted acc.2.2 (publishInternal env dl chk msg c
      fuel eb.destination eb.routingKey acc.2.1 acc.1))
      (lt_of_le_of_lt (unvisited_le hframed.exchanges hsub) hfuel)
    exact ⟨t ++ t', .next hcall hrest, honce.append honce' hsub hsub',
      List.Subset.trans hsub hsub'⟩

theorem ends_publishInternal
    (hletter : chk = true → ∀ m args s, letter m args s (dl m args s)) (fuel : ℕ)
    (ex key : GoString) (vis : List GoString) (s : Server)
    (hfuel : s.unvisited vis < fuel) :
    ∃ t, Ends env letter chk msg c (.call ex key vis s)
        (publishInternal env dl chk msg c fuel ex key vis s) t ∧
      EntersOnce vis (publishInternal env dl chk msg c fuel ex key vis s).2.1 t := by
  induction fuel generalizing ex key vis s with
  | zero => exact absurd hfuel (Nat.not_lt_zero _)
  | succ fuel ih =>
    by_cases hv : ex ∈ vis
    · rw [publishInternal_visited hv]
      exact ⟨[], .loop hv, .nil _ _⟩
    cases hx : s.exchanges.get ex with
    | none =>
      rw [publishInternal_missing hv hx]
      exact ⟨[], .missing hv hx, .nil _ _⟩
    | some x =>
      rw [publishInternal_found hv hx]
      dsimp only
      have hstart : (afterQueues env dl chk msg c x ex key s).2.unvisited (ex :: vis) < fuel :=
        (unvisited_afterQueues_lt hdl hv hx key).trans_le (Nat.lt_succ_iff.mp hfuel)
      obtain ⟨t, hforward, honce, hsub⟩ := ends_foldl hdl ih
        (E2EBindingManager.getBindings (afterQueues env dl chk msg c x ex key s).2.e2eBindings ex)
        ((afterQueues env dl chk msg c x ex key s).2, ex :: vis,
          (afterQueues env dl chk msg c x ex key s).1.length) hstart
      exact ⟨ex :: t, .routed hv hx rfl (stores_foldl hletter _ s) hforward,
        honce.cons hv hsub⟩

end Ends

/-! ## One outcome -/

section Unique

variable {env : Env} {letter : MsgRef → Table → Server → Server → Prop} {chk : Bool} {msg : MsgRef}
  {c : UInt16}
  (hletter : chk = true → ∀ m args s u u', letter m args s u → letter m args s u' → u = u')

theorem Evicts.unique (hletter : ∀ m args s u u', letter m args s u → letter m args s u' → u = u')
    {qn : GoString} {args : Table} {s u u' : Server} (h : Evicts letter qn args s u)
    (h' : Evicts letter qn args s u') : u = u' := by
  cases h with
  | room hroom =>
    cases h' with
    | room => rfl
    | empty hfull => exact absurd hfull hroom
    | oldest hfull => exact absurd hfull hroom
  | empty hfull hdeq =>
    cases h' with
    | room hroom => exact absurd hfull hroom
    | empty _ hdeq' =>
      rw [hdeq] at hdeq'
      cases hdeq'
      rfl
    | oldest _ hdeq' =>
      rw [hdeq] at hdeq'
      cases hdeq'
  | oldest hfull hdeq hl =>
    cases h' with
    | room hroom => exact absurd hfull hroom
    | empty _ hdeq' =>
      rw [hdeq] at hdeq'
      cases hdeq'
    | oldest _ hdeq' hl' =>
      rw [hdeq] at hdeq'
      cases hdeq'
      exact hletter _ _ _ _ _ hl hl'

include hletter

theorem Stores.unique {l : List GoString} {s u u' : Server} (h : Stores env letter chk msg c l s u)
    (h' : Stores env letter chk msg c l s u') : u = u' := by
  induction h with
  | done => cases h'; rfl
  | missing hq _ ih =>
    cases h' with
    | missing _ hl => exact ih hl
    | unchecked _ hq' => rw [hq] at hq'; cases hq'
    | checked _ hq' => rw [hq] at hq'; cases hq'
  | unchecked hchk hq _ ih =>
    cases h' with
    | missing hq' => rw [hq] at hq'; cases hq'
    | unchecked _ hq' hl =>
      rw [hq] at hq'
      cases hq'
      exact ih hl
    | checked hchk' => rw [hchk] at hchk'; cases hchk'
  | checked hchk hq hev _ ih =>
    cases h' with
    | missing hq' => rw [hq] at hq'; cases hq'
    | unchecked hchk' => rw [hchk] at hchk'; cases hchk'
    | checked _ hq' hev' hl =>
      rw [hq] at hq'
      cases hq'
      rw [hev'.unique (hletter hchk) hev] at hl
      exact ih hl

theorem Ends.unique {w : Walk} {r r' : Server × List GoString × Except GoError ℕ}
    {t t' : List GoString} (h : Ends env letter chk msg c w r t)
    (h' : Ends env letter chk msg c w r' t') : r = r' ∧ t = t' := by
  induction h generalizing r' t' with
  | loop hv =>
    cases h' with
    | loop => exact ⟨rfl, rfl⟩
    | missing hv' => exact absurd hv hv'
    | routed hv' => exact absurd hv hv'
  | missing hv hx =>
    cases h' with
    | loop hv' => exact absurd hv' hv
    | missing => exact ⟨rfl, rfl⟩
    | routed _ hx' => rw [hx] at hx'; cases hx'
  | routed hv hx hqueues hstore _ ih =>
    cases h' with
    | loop hv' => exact absurd hv' hv
    | missing _ hx' => rw [hx] at hx'; cases hx'
    | routed _ hx' hqueues' hstore' hforward' =>
      rw [hx] at hx'
      cases hx'
      subst hqueues hqueues'
      rw [hstore'.unique hletter hstore] at hforward'
      obtain ⟨rfl, rfl⟩ := ih hforward'
      exact ⟨rfl, rfl⟩
  | done => cases h'; exact ⟨rfl, rfl⟩
  | next _ _ ihcall ihl =>
    cases h' with
    | next hcall' hl' =>
      obtain ⟨rfl, rfl⟩ := ihcall hcall'
      obtain ⟨rfl, rfl⟩ := ihl hl'
      exact ⟨rfl, rfl⟩

end Unique

/-! ## Dead letters and publishes -/

theorem letters_deadLetter (env : Env) (msg : MsgRef) (args : Table) (s : Server) :
    Letters env msg args s (deadLetter env msg args s) := by
  cases hdlx : getDeadLetterConfig args with
  | none =>
    rw [deadLetter_of_none env msg hdlx]
    exact .unset hdlx
  | some dlx =>
    obtain ⟨t, hends, -⟩ : ∃ t, Ends env (fun _ _ _ _ => False) false msg 0
        (.call dlx.exchange (dlx.keyFor (s.msgs.read msg).routingKey) [] (s.markLetter msg))
        (publishInternal env (fun _ _ v => v) false msg 0 (s.markLetter msg).walkFuel dlx.exchange
          (dlx.keyFor (s.msgs.read msg).routingKey) [] (s.markLetter msg)) t ∧ _ :=
      ends_publishInternal (fun _ _ v => .refl v) nofun _ _ _ _ _ (unvisited_lt_walkFuel _)
    unfold deadLetter
    rw [hdlx]
    exact .sent hdlx hends

theorem Letters.unique {env : Env} {msg : MsgRef} {args : Table} {s u u' : Server}
    (h : Letters env msg args s u) (h' : Letters env msg args s u') : u = u' := by
  cases h with
  | unset h =>
    cases h' with
    | unset => rfl
    | sent h' => rw [h] at h'; cases h'
  | sent h hwalk =>
    cases h' with
    | unset h' => rw [h] at h'; cases h'
    | sent h' hwalk' =>
      rw [h] at h'
      cases h'
      rw [(hwalk.unique nofun hwalk').1]

/-- What `Publish` does with the outcome of its walk. -/
def recorded (ex : GoString) :
    Server × List GoString × Except GoError ℕ → Except GoError ℕ × Server
  | (s, _, .ok n) => (.ok n, s.recordStats ex n)
  | (s, _, .error e) => (.error e, s)

/-- The walk of a publish has exactly one outcome, which is the one of the model. It applies the
router of no exchange twice. -/
theorem publish_ends (env : Env) (s : Server) (ex key : GoString) (m : MsgRef) (c : UInt16) :
    ∃ r t, (∀ r' t', Ends env (Letters env) true m c (.call ex key [] s) r' t' ↔
        r' = r ∧ t' = t) ∧
      s.publish env ex key m c = recorded ex r ∧ t.Nodup := by
  obtain ⟨t, hends, honce⟩ : ∃ t, Ends env (Letters env) true m c (.call ex key [] s)
      (publishInternal env (deadLetter env) true m c s.walkFuel ex key [] s) t ∧ _ :=
    ends_publishInternal (framed_deadLetter env) (fun _ => letters_deadLetter env) s.walkFuel ex
      key [] s (unvisited_lt_walkFuel s)
  have hone : ∀ m args u v v', Letters env m args u v → Letters env m args u v' → v = v' :=
    fun _ _ _ _ _ => Letters.unique
  refine ⟨_, t, fun r' t' => ⟨fun h => ?_, ?_⟩, rfl, honce.nodup⟩
  · exact h.unique (fun _ => hone) hends
  · rintro ⟨rfl, rfl⟩
    exact hends

/-! ## Where the message goes -/

section Reach

variable (env : Env) (m : MsgRef) (c : UInt16)

def Unlimited (s : Server) : Prop := ∀ q x, s.queues.get q = some x → ¬ 0 < maxLength x.args

theorem publishTo_unlimited {s : Server} (hs : s.Unlimited) (qn : GoString) :
    (publishTo env (deadLetter env) true m c s qn).headersOf m = s.headersOf m ∧
      ∀ q, q ≠ qn → (publishTo env (deadLetter env) true m c s qn).ready q = s.ready q := by
  cases hx : s.queues.get qn with
  | none =>
    rw [publishTo_none env _ m c hx]
    exact ⟨rfl, fun _ _ => rfl⟩
  | some x =>
    have hroom : s.evictOldest (deadLetter env) qn x.args = s :=
      if_neg fun hfull => hs qn x hx hfull.1
    rw [publishTo_some env _ m c hx, if_pos rfl, hroom]
    refine ⟨keeps_storeAndDeliver stampless_headers env m c qn x.args s m, fun q hq => ?_⟩
    rw [ready_storeAndDeliver, if_neg hq]

theorem foldl_unlimited (l : List GoString) {s : Server} (hs : s.Unlimited) :
    (l.foldl (publishTo env (deadLetter env) true m c) s).headersOf m = s.headersOf m ∧
      ∀ q, q ∉ l → (l.foldl (publishTo env (deadLetter env) true m c) s).ready q = s.ready q := by
  induction l generalizing s with
  | nil => exact ⟨rfl, fun _ _ => rfl⟩
  | cons qn l ih =>
    have hqueues : (publishTo env (deadLetter env) true m c s qn).queues = s.queues :=
      congrArg Config.queues (config_publishTo env m c s qn)
    obtain ⟨hheaders, hready⟩ := publishTo_unlimited env m c hs qn
    obtain ⟨hheaders', hready'⟩ := ih (s := publishTo env (deadLetter env) true m c s qn)
      (by unfold Unlimited; rw [hqueues]; exact hs)
    refine ⟨hheaders'.trans hheaders, fun q hq => ?_⟩
    obtain ⟨hne, hq⟩ := not_or.mp (mt mem_cons.mpr hq)
    exact (hready' q hq).trans (hready q hne)

theorem reach_of_mem_deliveries {cfg : Config} {headers : Table} {ex key q : GoString}
    (h : q ∈ cfg.deliveries headers ex key) : cfg.Reach headers ex key q := by
  obtain ⟨v, hv, hq⟩ := (Config.mem_deliveries ..).mp h
  exact (Config.reach_iff ..).mpr
    ⟨v, (Dfs.leads_of_mem_visits cfg.links _ ex key [] v hv).1, hq⟩

theorem reach_of_changed {s : Server} (hs : s.Unlimited) {ex key q : GoString}
    (hq : (s.publish env ex key m c).2.ready q ≠ s.ready q) :
    s.config.Reach (s.headersOf m) ex key q := by
  apply reach_of_mem_deliveries
  by_contra hnot
  obtain ⟨hheaders, hready⟩ := foldl_unlimited env m c
    (s.config.deliveries (s.headersOf m) ex key) hs
  exact hq ((publish_eq env m c s ex key (Or.inr hheaders) q).1.trans (hready q hnot))

end Reach

theorem unlimited_of_undeclared {s : Server}
    (h : ∀ q x, s.queues.get q = some x → x.args.get (str "x-max-length") = none) :
    s.Unlimited := by
  intro q x hx
  unfold maxLength
  rw [h q x hx]
  decide

/-- In every state every publish ends, with one outcome, and applies the router of each exchange at
most once in the walk for its message. If no queue declares a length limit, the queues that get the
message are in reach. -/
theorem publish_terminates (env : Env) (s : Server) (ex key : GoString) (m : MsgRef) (c : UInt16) :
    (∃ r routed, (∀ r' t, Ends env (Letters env) true m c (.call ex key [] s) r' t ↔
        r' = r ∧ t = routed) ∧
      s.publish env ex key m c = recorded ex r ∧ routed.Nodup) ∧
    ((∀ q x, s.queues.get q = some x → x.args.get (str "x-max-length") = none) →
      ∀ q, (s.publish env ex key m c).2.ready q ≠ s.ready q →
        s.config.Reach (s.headersOf m) ex key q) :=
  ⟨publish_ends env s ex key m c, fun h _ =>
    reach_of_changed env m c (unlimited_of_undeclared h)⟩

end Server

end Gomq.Broker
