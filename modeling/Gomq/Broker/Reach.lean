import Gomq.Broker.Copies

/-!
# Which queues a publish reaches

`Reach` is what the bindings say: the queues that the router of an exchange selects for a key, and
whatever is reached through its exchange-to-exchange bindings. `Reaches` is what a publish does: the
message ends up in the queue, whatever the queues hold. A publish reaches the queues of `deliveries`
(`reaches_iff`), and these are all of `Reach` exactly if no binding leads, under a key other than
that of the first entry, to queues that no visited exchange selects (`enqueuesAll_iff`).
-/

namespace Gomq.Broker

open Wire Server E2EBindingManager List

namespace Config

/-- Every publish of a message with these headers, if it leaves them alone, puts the message into
the queue. -/
def Reaches (cfg : Config) (headers : Table) (ex key q : GoString) : Prop :=
  (cfg.queues.get q).isSome ∧
    ∀ (env : Env) (c : UInt16) (u : Server) (m : MsgRef), u.config = cfg →
      u.headersOf m = headers → (u.publish env ex key m c).2.headersOf m = headers →
        m ∈ (u.publish env ex key m c).2.ready q

end Config

namespace Server

/-! ## A stored message stays -/

section Stays

variable (env : Env) {m : MsgRef} (c : UInt16) {s : Server}

theorem mem_ready_publishTo_self {q : GoString} (hq : (s.queues.get q).isSome) :
    m ∈ (publishTo env (deadLetter env) true m c s q).ready q := by
  obtain ⟨x, hx⟩ := Option.isSome_iff_exists.mp hq
  rw [publishTo_some env _ m c hx]
  exact (mem_ready_storeAndDeliver env m c).mpr (Or.inl ⟨rfl, rfl⟩)

theorem mem_ready_publishTo {q : GoString} (h : m ∈ s.ready q) (qn : GoString) :
    m ∈ (publishTo env (deadLetter env) true m c s qn).ready q := by
  cases hx : s.queues.get qn with
  | none => rw [publishTo_none env _ m c hx]; exact h
  | some x =>
    by_cases hq : q = qn
    · subst hq
      exact mem_ready_publishTo_self env c (by rw [hx]; rfl)
    · rw [publishTo_some env _ m c hx, if_pos rfl]
      exact (mem_ready_storeAndDeliver env m c).mpr
        (Or.inr (mem_ready_evictOldest (grows_deadLetter env) hq h))

theorem mem_ready_foldl {l : List GoString} {q : GoString} (hq : q ∈ l)
    (hs : (s.queues.get q).isSome) :
    m ∈ (l.foldl (publishTo env (deadLetter env) true m c) s).ready q := by
  induction l generalizing s with
  | nil => exact absurd hq not_mem_nil
  | cons qn l ih =>
    rcases mem_cons.mp hq with rfl | hq
    · exact foldl_publishTo_inv (P := fun u => m ∈ u.ready q)
        (fun _ qn' hu => mem_ready_publishTo env c hu qn') l _ (mem_ready_publishTo_self env c hs)
    · have hqueues : (publishTo env (deadLetter env) true m c s qn).queues = s.queues :=
        congrArg Config.queues (config_publishTo env m c s qn)
      exact ih hq (by rw [hqueues]; exact hs)

end Stays

/-! ## Queues that are full of another message -/

/-- Message 1 has the headers, no message has a priority, every queue begins with `b` copies of
message 0, and message 1 is in queues of `done` only. -/
structure Crowded (headers : Table) (done : List GoString) (b : ℕ) (u : Server) : Prop where
  headers : u.headersOf 1 = headers
  priority : ∀ r, u.priorityOf r = 0
  front : ∀ q, (u.queues.get q).isSome → List.replicate b 0 <+: u.ready q
  only : ∀ q, 1 ∈ u.ready q → q ∈ done

section Crowded

variable {headers : Table} {done : List GoString} {b : ℕ} (env : Env) (c : UInt16)

theorem place_of_zero {priority : MsgRef → UInt8} (h : ∀ r, priority r = 0) (args : Table)
    (m : MsgRef) (l : List MsgRef) : place priority args m l = l ++ [m] := by
  have hinsert : insertByPriority priority m l = l ++ [m] := by
    induction l with
    | nil => rfl
    | cons a l ih => simp [insertByPriority, h, ih]
  unfold place
  split
  · exact hinsert
  · rfl

theorem Crowded.pred {u : Server} (h : Crowded headers done (b + 1) u) :
    Crowded headers done b u where
  headers := h.headers
  priority := h.priority
  front := fun q hq => by
    have hless : List.replicate b 0 <+: List.replicate (b + 1) 0 := ⟨[0], replicate_succ'.symm⟩
    exact hless.trans (h.front q hq)
  only := h.only

theorem Crowded.storeAndDeliver {u : Server} (h : Crowded headers done b u) {m : MsgRef}
    {qn : GoString} (hm : m = 1 → qn ∈ done) (args : Table) :
    Crowded headers done b (storeAndDeliver env m c qn args u) where
  headers := (keeps_storeAndDeliver stampless_headers env m c qn args u 1).trans h.headers
  priority := fun r => (keeps_storeAndDeliver stampless_priority env m c qn args u r).trans
    (h.priority r)
  front := by
    intro q hq
    rw [(grows_storeAndDeliver env m c qn args u).queues] at hq
    rw [ready_storeAndDeliver, place_of_zero h.priority]
    split
    · exact (h.front q hq).trans (prefix_append _ _)
    · exact h.front q hq
  only := by
    intro q hq
    rcases (mem_ready_storeAndDeliver env m c).mp hq with ⟨rfl, h1⟩ | hq
    · exact hm h1.symm
    · exact h.only q hq

theorem Crowded.deadLetter {u : Server} (h : Crowded headers done b u) (args : Table) :
    Crowded headers done b (deadLetter env 0 args u) := by
  refine deadLetter_inv h (fun _ => ⟨?_, fun r => ?_, h.front, h.only⟩) fun _ args v hv =>
    hv.storeAndDeliver env 0 (fun h => absurd h (by decide)) args
  · rw [← h.headers]
    simp [headersOf, modifyMsg]
  · refine Eq.trans ?_ (h.priority r)
    exact keeps_modifyMsg (f := fun m => m.properties.priority) u 0 (by intro m; rfl) r

theorem Crowded.evictOldest {u : Server} (h : Crowded headers done (b + 1) u) (qn : GoString)
    (hqn : (u.queues.get qn).isSome) (args : Table) :
    Crowded headers done b (u.evictOldest (Server.deadLetter env) qn args) := by
  unfold Server.evictOldest
  split
  · obtain ⟨t, ht⟩ := h.front qn hqn
    rw [replicate_succ, cons_append] at ht
    have hdeq : u.dequeue qn =
        (some 0, { u with store := u.store.set qn (List.replicate b 0 ++ t) }) := by
      unfold dequeue; rw [← ht]
    rw [hdeq]
    dsimp only
    apply Crowded.deadLetter
    refine ⟨h.headers, h.priority, fun q hq => ?_, fun q hq => ?_⟩
    · by_cases heq : q = qn
      · subst heq; simp [ready]
      · simpa [ready, heq] using h.pred.front q hq
    · refine h.only q ?_
      by_cases heq : q = qn
      · subst heq
        rw [← ht]
        simpa [ready] using hq
      · simpa [ready, heq] using hq
  · exact h.pred

theorem Crowded.publishTo {u : Server} (h : Crowded headers done (b + 1) u) {qn : GoString}
    (hqn : qn ∈ done) :
    Crowded headers done b (Server.publishTo env (Server.deadLetter env) true 1 c u qn) := by
  cases hx : u.queues.get qn with
  | none =>
    rw [publishTo_none env _ 1 c hx]
    exact h.pred
  | some x =>
    rw [publishTo_some env _ 1 c hx, if_pos rfl]
    exact (h.evictOldest env qn (by rw [hx]; rfl) x.args).storeAndDeliver env c (fun _ => hqn)
      x.args

theorem Crowded.foldl {l : List GoString} (hl : l ⊆ done) {u : Server}
    (h : Crowded headers done l.length u) :
    Crowded headers done 0
      (l.foldl (Server.publishTo env (Server.deadLetter env) true 1 c) u) := by
  induction l generalizing u with
  | nil => exact h
  | cons qn l ih =>
    exact ih (fun q hq => hl (mem_cons_of_mem qn hq))
      (h.publishTo env c (hl mem_cons_self))

end Crowded

def crowd (cfg : Config) (headers : Table) (b : ℕ) : Server :=
  { newServer with
    exchanges := cfg.exchanges
    queues := cfg.queues
    bindings := cfg.bindings
    e2eBindings := cfg.e2eBindings
    msgs := (Heap.empty.alloc default).alloc (newMessage [] { headers := headers })
    store := cfg.queues.keys.foldl (fun m q => m.setNew q (List.replicate b 0)) ∅ }

theorem crowded_crowd (cfg : Config) (headers : Table) (done : List GoString) (b : ℕ) :
    Crowded headers done b (crowd cfg headers b) := by
  have hget : ∀ q, (crowd cfg headers b).store.get q =
      (cfg.queues.keys.find? fun k => k = q).map fun _ => List.replicate b 0 := fun q =>
    (GoMap.get_foldl_setNew (fun k => k) (fun _ => List.replicate b 0) cfg.queues.keys ∅ q).trans
      (by simp)
  refine ⟨rfl, fun r => ?_, fun q hq => ?_, fun q hq => ?_⟩
  · -- neither message has a priority
    rcases r with _ | _ | r <;> rfl
  · have hmem : q ∈ cfg.queues.keys :=
      GoMap.mem_keys_iff.mpr (Option.isSome_iff_exists.mp hq)
    obtain ⟨k, hfind⟩ := Option.isSome_iff_exists.mp
      (List.find?_isSome (p := fun k => k = q).mpr ⟨q, hmem, by simp⟩)
    unfold ready GoMap.getD
    rw [hget, hfind]
    exact prefix_refl _
  · unfold ready GoMap.getD at hq
    rw [hget] at hq
    cases hfind : cfg.queues.keys.find? fun k => k = q with
    | none => rw [hfind] at hq; exact absurd hq not_mem_nil
    | some k => rw [hfind] at hq; exact absurd (eq_of_mem_replicate hq) (by decide)

end Server

namespace Config

theorem reaches_iff (cfg : Config) (headers : Table) (ex key q : GoString) :
    cfg.Reaches headers ex key q ↔
      (cfg.queues.get q).isSome ∧ q ∈ cfg.deliveries headers ex key := by
  constructor
  · rintro ⟨hq, hall⟩
    -- let the message find all queues full of another one
    have hloop := (Server.crowded_crowd cfg headers (cfg.deliveries headers ex key) _).foldl default
      0 (List.Subset.refl _)
    have hpub := publish_eq default 1 0
      (crowd cfg headers (cfg.deliveries headers ex key).length) ex key
      (Or.inr hloop.headers) q
    have hmem := hall default 0 _ 1 rfl rfl (hpub.2.trans hloop.headers)
    rw [hpub.1] at hmem
    exact ⟨hq, hloop.only q hmem⟩
  · rintro ⟨hq, hmem⟩
    refine ⟨hq, fun env c u m hcfg hheaders hfix => ?_⟩
    rw [(publish_eq env m c u ex key (Or.inl (hfix.trans hheaders.symm)) q).1]
    unfold queueLoop
    rw [hcfg, hheaders]
    exact mem_ready_foldl env c hmem (by subst hcfg; exact hq)

/-! ## What the bindings say -/

/-- The queues that the router of an exchange selects for a key, and those that are reached through
its exchange-to-exchange bindings. -/
inductive Reach (cfg : Config) (headers : Table) : GoString → GoString → GoString → Prop
  | router {ex key q : GoString} {x : Exchange} (hx : cfg.exchanges.get ex = some x)
      (hq : q ∈ x.route key headers (cfg.bindings.getBindings ex)) : Reach cfg headers ex key q
  | binding {ex key q : GoString} {eb : E2EBinding} (hx : (cfg.exchanges.get ex).isSome)
      (heb : eb ∈ getBindings cfg.e2eBindings ex)
      (hq : Reach cfg headers eb.destination eb.routingKey q) : Reach cfg headers ex key q

theorem leads_iff (cfg : Config) (v e : GoString × GoString) :
    Dfs.Leads cfg.links v e ↔ (cfg.exchanges.get v.1).isSome ∧
      ∃ eb ∈ getBindings cfg.e2eBindings v.1,
        (eb.destination, eb.routingKey) = e := by
  unfold Dfs.Leads
  cases hx : cfg.exchanges.get v.1 with
  | none => simp [links_of_none hx]
  | some x => simp [links_of_some hx]

theorem reach_iff (cfg : Config) (headers : Table) (ex key q : GoString) :
    cfg.Reach headers ex key q ↔
      ∃ v, Relation.ReflTransGen (Dfs.Leads cfg.links) (ex, key) v ∧ q ∈ cfg.routeAt headers v := by
  constructor
  · intro h
    induction h with
    | router hx hq => exact ⟨_, .refl, (mem_routeAt_iff ..).mpr ⟨_, hx, hq⟩⟩
    | binding hx heb _ ih =>
      obtain ⟨v, hv, hq⟩ := ih
      exact ⟨v, .head ((leads_iff ..).mpr ⟨hx, _, heb, rfl⟩) hv, hq⟩
  · rintro ⟨v, hv, hq⟩
    generalize hstart : (ex, key) = start at hv
    induction hv using Relation.ReflTransGen.head_induction_on generalizing ex key with
    | refl =>
      subst hstart
      obtain ⟨x, hx, hq⟩ := (mem_routeAt_iff ..).mp hq
      exact .router hx hq
    | head hlead _ ih =>
      subst hstart
      obtain ⟨hx, eb, heb, rfl⟩ := (leads_iff ..).mp hlead
      exact .binding hx heb (ih _ _ rfl)

/-! ## When the two agree -/

/-- A binding of a visited exchange leads to no existing queue that is not selected by a visited
exchange, under the key of its visit. -/
def Covered (cfg : Config) (headers : Table) (ex key : GoString) : Prop :=
  ∀ v ∈ cfg.visits ex key, ∀ eb ∈ getBindings cfg.e2eBindings v.1,
    ∀ q ∈ cfg.routeAt headers (eb.destination, eb.routingKey), (cfg.queues.get q).isSome →
      ∃ w ∈ cfg.visits ex key, q ∈ cfg.routeAt headers w

theorem mem_deliveries (cfg : Config) (headers : Table) (ex key q : GoString) :
    q ∈ cfg.deliveries headers ex key ↔ ∃ v ∈ cfg.visits ex key, q ∈ cfg.routeAt headers v :=
  mem_flatMap

theorem links_ne_none {cfg : Config} {ex : GoString} :
    cfg.links ex ≠ none ↔ (cfg.exchanges.get ex).isSome := by
  unfold links
  cases cfg.exchanges.get ex <;> simp

theorem mem_visits_of_leads (cfg : Config) {ex key : GoString} {v : GoString × GoString}
    (hv : Relation.ReflTransGen (Dfs.Leads cfg.links) (ex, key) v)
    (hx : (cfg.exchanges.get v.1).isSome) : ∃ k, (v.1, k) ∈ cfg.visits ex key := by
  refine Dfs.mem_visits_of_leads (U := cfg.exchanges.keys.toFinset) (fun n l hn => ?_) ?_ hv
    (links_ne_none.mpr hx)
  · rw [mem_toFinset, GoMap.mem_keys_iff]
    cases hg : cfg.exchanges.get n with
    | none => rw [links_of_none hg] at hn; cases hn
    | some x => exact ⟨x, rfl⟩
  · exact Nat.lt_succ_of_le (toFinset_card_le _)

/-- A publish puts the message into every existing queue that the bindings lead to exactly if each
exchange-to-exchange binding on the way is covered. -/
theorem enqueuesAll_iff (cfg : Config) (headers : Table) (ex key : GoString) :
    (∀ q, cfg.Reach headers ex key q → (cfg.queues.get q).isSome →
      cfg.Reaches headers ex key q) ↔ cfg.Covered headers ex key := by
  constructor
  · intro hall v hv eb heb q hq hs
    obtain ⟨hreach, hthere⟩ := Dfs.leads_of_mem_visits cfg.links _ ex key [] v hv
    have hlead : Dfs.Leads cfg.links v (eb.destination, eb.routingKey) :=
      (leads_iff ..).mpr ⟨links_ne_none.mp hthere, eb, heb, rfl⟩
    have hq' := (reaches_iff ..).mp (hall q ((reach_iff ..).mpr ⟨_, hreach.tail hlead, hq⟩) hs)
    exact (mem_deliveries ..).mp hq'.2
  · intro hcov q hq hs
    refine (reaches_iff ..).mpr ⟨hs, (mem_deliveries ..).mpr ?_⟩
    obtain ⟨v, hv, hq⟩ := (reach_iff ..).mp hq
    rcases Relation.ReflTransGen.cases_tail hv with rfl | ⟨w, hw, hlead⟩
    · -- the exchange itself is entered under the key of the publish
      obtain ⟨x, hx, -⟩ := (mem_routeAt_iff ..).mp hq
      refine ⟨(ex, key), ?_, hq⟩
      unfold visits
      rw [visits_of_some not_mem_nil hx]
      exact mem_cons_self
    · obtain ⟨hx, eb, heb, rfl⟩ := (leads_iff ..).mp hlead
      obtain ⟨k, hk⟩ := cfg.mem_visits_of_leads hw hx
      exact hcov _ hk eb heb q hq hs

/-! ## Two keys to one exchange -/

def Acyclic (cfg : Config) : Prop :=
  ∀ ex, ¬ Relation.TransGen (fun a b =>
    ∃ eb ∈ getBindings cfg.e2eBindings a, eb.destination = b) ex ex

structure AllExist (cfg : Config) : Prop where
  bindings : ∀ ex, ∀ b ∈ cfg.bindings.getBindings ex,
    (cfg.exchanges.get ex).isSome ∧ (cfg.queues.get b.queueName).isSome
  e2eBindings : ∀ ex, ∀ eb ∈ getBindings cfg.e2eBindings ex,
    (cfg.exchanges.get ex).isSome ∧ (cfg.exchanges.get eb.destination).isSome

def twoKeys : Server :=
  [ProtocolEvent.request default 0 (.queueDeclare (str "q") false false false false true []),
    .request default 0 (.exchangeDeclare (str "a") (str "direct") false false false false true []),
    .request default 0 (.exchangeDeclare (str "b") (str "direct") false false false false true []),
    .request default 0 (.queueBind (str "q") (str "b") (str "2") true []),
    .request default 0 (.exchangeBind (str "b") (str "a") (str "1") true []),
    .request default 0 (.exchangeBind (str "b") (str "a") (str "2") true [])].foldl
    protocolStep newServer

theorem twoKeys_bindings {ex : GoString} {b : Binding}
    (h : b ∈ twoKeys.config.bindings.getBindings ex) :
    ex = str "b" ∧ b = ⟨str "b", str "q", str "2", []⟩ := by
  have hlist : twoKeys.bindings.byExchange =
      (∅ : GoMap GoString (List Binding)).set (str "b") [⟨str "b", str "q", str "2", []⟩] := rfl
  change b ∈ twoKeys.bindings.byExchange.getD ex [] at h
  rw [hlist, GoMap.getD_set] at h
  by_cases hex : ex = str "b"
  · rw [if_pos hex] at h
    exact ⟨hex, mem_singleton.mp h⟩
  · rw [if_neg hex] at h
    exact absurd h not_mem_nil

theorem twoKeys_e2eBindings {ex : GoString} {eb : E2EBinding}
    (h : eb ∈ getBindings twoKeys.config.e2eBindings ex) :
    ex = str "a" ∧ eb.destination = str "b" := by
  have hlist : twoKeys.e2eBindings = ((∅ : GoMap GoString (List E2EBinding)).set (str "a")
      [⟨str "a", str "b", str "1", []⟩]).set (str "a")
      [⟨str "a", str "b", str "1", []⟩, ⟨str "a", str "b", str "2", []⟩] := rfl
  change eb ∈ GoMap.getD twoKeys.e2eBindings ex [] at h
  rw [hlist, GoMap.getD_set] at h
  by_cases hex : ex = str "a"
  · rw [if_pos hex] at h
    refine ⟨hex, ?_⟩
    rcases mem_cons.mp h with rfl | h
    · rfl
    · rw [mem_singleton.mp h]
  · rw [if_neg hex, GoMap.getD_set_ne hex] at h
    exact absurd h not_mem_nil

theorem twoKeys_acyclic : twoKeys.config.Acyclic := by
  intro ex hcycle
  obtain ⟨_, ⟨eb, heb, -⟩, -⟩ := Relation.TransGen.head'_iff.mp hcycle
  obtain ⟨_, -, eb', heb', hdst⟩ := Relation.TransGen.tail'_iff.mp hcycle
  rw [(twoKeys_e2eBindings heb).1, (twoKeys_e2eBindings heb').2] at hdst
  exact absurd hdst (by decide)

theorem twoKeys_allExist : twoKeys.config.AllExist where
  bindings := by
    intro ex b hb
    obtain ⟨rfl, rfl⟩ := twoKeys_bindings hb
    exact ⟨by decide +kernel, by decide +kernel⟩
  e2eBindings := by
    intro ex eb heb
    obtain ⟨rfl, hdst⟩ := twoKeys_e2eBindings heb
    rw [hdst]
    exact ⟨by decide +kernel, by decide +kernel⟩

/-- A message that goes to `a` should be in the queue and is not. -/
theorem twoKeys_notEnqueued :
    twoKeys.config.Acyclic ∧ twoKeys.config.AllExist ∧
      twoKeys.config.Reach [] (str "a") [] (str "q") ∧
      (twoKeys.publish default (str "a") [] 0 0).2.ready (str "q") = [] ∧
      ¬ ∀ q, twoKeys.config.Reach [] (str "a") [] q → (twoKeys.config.queues.get q).isSome →
        twoKeys.config.Reaches [] (str "a") [] q := by
  have hbinding : ⟨str "a", str "b", str "2", []⟩ ∈
      getBindings twoKeys.config.e2eBindings (str "a") :=
    mem_cons_of_mem _ mem_cons_self
  have hreach : twoKeys.config.Reach [] (str "a") [] (str "q") :=
    .binding (by decide +kernel) hbinding
      (.router (x := ⟨str "b", .direct, false, false, false, []⟩) rfl (by decide +kernel))
  have hnot : (twoKeys.publish default (str "a") [] 0 0).2.ready (str "q") = [] := by
    decide +kernel
  refine ⟨twoKeys_acyclic, twoKeys_allExist, hreach, hnot, fun hall => ?_⟩
  have hmem := (hall (str "q") hreach (by decide +kernel)).2 default 0 twoKeys 0 rfl rfl rfl
  rw [hnot] at hmem
  exact absurd hmem not_mem_nil

end Config

end Gomq.Broker
