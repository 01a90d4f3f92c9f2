import Gomq.Lib.Dfs
import Gomq.Broker.Config
import Gomq.Broker.Routed
import Gomq.Broker.Stamps

/-!
# The walk of a publish, queue by queue

`visits` is the depth-first walk over exchange-to-exchange bindings: each exchange once, with the
key under which it is first entered. For a message without headers, what the visited exchanges
select is `selected` (`selected_eq_deliveries`). A publish is a walk along the visits, provided that
the headers of the message stay as they are: it puts the message into the queues that the routers of
the visited exchanges select, in that order (`publish_eq`). The headers can only change by the
message's own dead-lettering, and then they keep that mark (`Marked`), so it is enough that they are
the same at the end, of the publish or of the loop over those queues.
-/

namespace Gomq

open Wire List

theorem Wire.Table.set_set (t : Table) (k : GoString) (v : Value) :
    (t.set k v).set k v = t.set k v := by
  induction t with
  | nil => simp [Table.set]
  | cons e t ih =>
    obtain ⟨k', v'⟩ := e
    by_cases h : k' = k
    · simp [Table.set, h]
    · simp [Table.set, h, ih]

namespace Broker

/-! ## Visited exchanges and selected queues -/

namespace Config

/-- Where the bindings of an exchange lead, and under which keys; `none` for a missing exchange. -/
def links (c : Config) (ex : GoString) : Option (List (GoString × GoString)) :=
  (c.exchanges.get ex).map fun _ =>
    (E2EBindingManager.getBindings c.e2eBindings ex).map fun eb => (eb.destination, eb.routingKey)

def routeAt (c : Config) (headers : Table) (v : GoString × GoString) : List GoString :=
  match c.exchanges.get v.1 with
  | none => []
  | some x => x.route v.2 headers (c.bindings.getBindings v.1)

/-- The exchanges that a publish visits, each with the key under which it is entered. -/
def visits (c : Config) (ex key : GoString) : List (GoString × GoString) :=
  (Dfs.visits c.links (c.exchanges.keys.length + 1) ex key []).1

def onward (c : Config) (fuel : ℕ) (l : List E2EBinding) (vis : List GoString) :
    List (GoString × GoString) × List GoString :=
  (l.map fun eb => (eb.destination, eb.routingKey)).foldl
    (Dfs.follow (Dfs.visits c.links fuel)) ([], vis)

def deliveries (c : Config) (headers : Table) (ex key : GoString) : List GoString :=
  (c.visits ex key).flatMap (c.routeAt headers)

theorem links_of_none {c : Config} {ex : GoString} (h : c.exchanges.get ex = none) :
    c.links ex = none := by
  unfold links; rw [h]; rfl

theorem links_of_some {c : Config} {ex : GoString} {x : Exchange}
    (h : c.exchanges.get ex = some x) :
    c.links ex = some ((E2EBindingManager.getBindings c.e2eBindings ex).map fun eb =>
      (eb.destination, eb.routingKey)) := by
  unfold links; rw [h]; rfl

theorem visits_of_some {c : Config} {fuel : ℕ} {ex key : GoString} {vis : List GoString}
    {x : Exchange} (hv : ex ∉ vis) (h : c.exchanges.get ex = some x) :
    Dfs.visits c.links (fuel + 1) ex key vis =
      ((ex, key) :: (c.onward fuel (E2EBindingManager.getBindings c.e2eBindings ex) (ex :: vis)).1,
        (c.onward fuel (E2EBindingManager.getBindings c.e2eBindings ex) (ex :: vis)).2) := by
  rw [Dfs.visits_found hv (links_of_some h), Dfs.foldl_follow]
  rfl

theorem onward_cons (c : Config) (fuel : ℕ) (eb : E2EBinding) (l : List E2EBinding)
    (vis : List GoString) :
    c.onward fuel (eb :: l) vis =
      let r := Dfs.visits c.links fuel eb.destination eb.routingKey vis
      (r.1 ++ (c.onward fuel l r.2).1, (c.onward fuel l r.2).2) := by
  unfold onward
  rw [map_cons, foldl_cons, Dfs.follow, Dfs.foldl_follow]
  rfl

theorem routeAt_of_some {c : Config} {headers : Table} {ex key : GoString} {x : Exchange}
    (h : c.exchanges.get ex = some x) :
    c.routeAt headers (ex, key) = x.route key headers (c.bindings.getBindings ex) := by
  unfold routeAt; rw [h]

theorem mem_routeAt_iff (cfg : Config) (headers : Table) (ex key q : GoString) :
    q ∈ cfg.routeAt headers (ex, key) ↔
      ∃ x, cfg.exchanges.get ex = some x ∧
        q ∈ x.route key headers (cfg.bindings.getBindings ex) := by
  cases hx : cfg.exchanges.get ex with
  | none => simp [routeAt, hx]
  | some x => simp [routeAt_of_some hx]

end Config

def DeadLetterConfig.keyFor (dlx : DeadLetterConfig) (original : GoString) : GoString :=
  if dlx.routingKey = [] then original else dlx.routingKey

namespace Server

theorem walkFold_eq {s : Server} {fuel : ℕ}
    (ih : ∀ ex key vis, s.walk fuel ex key vis =
      ((Dfs.visits s.config.links fuel ex key vis).1.flatMap (s.config.routeAt []),
        (Dfs.visits s.config.links fuel ex key vis).2))
    (l : List E2EBinding) (acc : List GoString × List GoString) :
    l.foldl (s.walkStep fuel) acc =
      (acc.1 ++ (s.config.onward fuel l acc.2).1.flatMap (s.config.routeAt []),
        (s.config.onward fuel l acc.2).2) := by
  induction l generalizing acc with
  | nil => simp [Config.onward]
  | cons eb l ihl =>
    rw [foldl_cons, ihl, walkStep, ih, Config.onward_cons]
    simp only [flatMap_append, append_assoc]

theorem walk_eq (s : Server) (fuel : ℕ) (ex key : GoString) (vis : List GoString) :
    s.walk fuel ex key vis =
      ((Dfs.visits s.config.links fuel ex key vis).1.flatMap (s.config.routeAt []),
        (Dfs.visits s.config.links fuel ex key vis).2) := by
  induction fuel generalizing ex key vis with
  | zero => rfl
  | succ fuel ih =>
    by_cases hv : ex ∈ vis
    · rw [walk_visited hv, Dfs.visits_visited hv]
      rfl
    cases he : s.exchanges.get ex with
    | none =>
      rw [walk_missing hv he, Dfs.visits_missing hv (Config.links_of_none (c := s.config) he)]
      rfl
    | some x =>
      have hroute : s.config.routeAt [] (ex, key) = _ := Config.routeAt_of_some he
      rw [walk_found hv he, Config.visits_of_some hv (c := s.config) he, walkFold_eq ih,
        flatMap_cons, hroute]
      rfl

theorem selected_eq_deliveries (s : Server) (ex key : GoString) :
    s.selected ex key = s.config.deliveries [] ex key :=
  congrArg Prod.fst (s.walk_eq s.walkFuel ex key [])

def headersOf (s : Server) (m : MsgRef) : Table := (s.msgs.read m).properties.headers

/-! ## Marks of dead letters -/

/-- The mark of a dead letter is its routing key, as a header. -/
def markLetter (s : Server) (m : MsgRef) : Server :=
  s.modifyMsg m fun x =>
    { x with properties :=
      { x.properties with
        headers := x.properties.headers.set (str "x-original-routing-key")
          (.string (s.msgs.read m).routingKey) } }

/-- The message kept its routing key, and its headers are the same or got the mark of a dead
letter. -/
structure Marked (m : MsgRef) (u u' : Server) : Prop where
  routingKey : (u'.msgs.read m).routingKey = (u.msgs.read m).routingKey
  headers : u'.headersOf m = u.headersOf m ∨
    u'.headersOf m =
      (u.headersOf m).set (str "x-original-routing-key") (.string (u.msgs.read m).routingKey)

namespace Marked

variable {m : MsgRef} {u v w : Server}

theorem of_keeps (h : Keeps (fun m => (m.routingKey, m.properties.headers)) u v) :
    Marked m u v where
  routingKey := congrArg Prod.fst (h m)
  headers := Or.inl (congrArg Prod.snd (h m))

theorem trans (h : Marked m u v) (h' : Marked m v w) : Marked m u w where
  routingKey := h'.routingKey.trans h.routingKey
  headers := by
    rcases h'.headers with heq | heq <;> rw [heq]
    · exact h.headers
    · right
      rw [h.routingKey]
      rcases h.headers with heq' | heq' <;> rw [heq']
      exact Table.set_set _ _ _

theorem headers_mid (h : Marked m u v) (h' : Marked m v w)
    (heq : w.headersOf m = u.headersOf m) : v.headersOf m = u.headersOf m := by
  rcases h.headers with hv | hv
  · exact hv
  rcases h'.headers with hw | hw
  · rw [← hw, heq]
  · rw [hv, h.routingKey, Table.set_set, ← hv] at hw
    rw [← hw, heq]

end Marked

/-! ## One routed queue -/

section PublishTo

variable (env : Env) (m : MsgRef) (c : UInt16)

theorem marked_deadLetter (o : MsgRef) (args : Table) (u : Server) :
    Marked m u (deadLetter env o args u) := by
  unfold deadLetter
  split
  · exact .of_keeps (.refl u)
  · refine Marked.trans ?_ (.of_keeps (keeps_publishInternal stampless_marks
      (fun _ _ w => .refl w) env false o 0 _ _ _ [] _))
    by_cases hm : m = o
    · subst hm
      exact ⟨by simp [modifyMsg], Or.inr (by simp [modifyMsg, headersOf])⟩
    · exact ⟨by simp [modifyMsg, hm], Or.inl (by simp [modifyMsg, headersOf, hm])⟩

theorem marked_publishTo (u : Server) (qn : GoString) :
    Marked m u (publishTo env (deadLetter env) true m c u qn) := by
  have hrefl : Marked m u u := .of_keeps (.refl u)
  refine publishTo_inv hrefl (fun q _ _ => ?_) fun q _ v hv =>
    hv.trans (.of_keeps (keeps_storeAndDeliver stampless_marks env m c qn q.args v))
  exact evictOldest_inv hrefl (.of_keeps (keeps_dequeue u qn)) fun o v hv =>
    hv.trans (marked_deadLetter env m o q.args v)

theorem config_publishTo (u : Server) (qn : GoString) :
    (publishTo env (deadLetter env) true m c u qn).config = u.config :=
  (framed_publishTo (framed_deadLetter env) env true m c u qn).config

end PublishTo

/-! ## The walk -/

section Visit

variable (f : Server → GoString → Server) (cfg : Config) (m : MsgRef)

/-- A visited exchange: the queue loop over what it selects for the headers that the message has
when the walk comes there. -/
def visit (u : Server) (v : GoString × GoString) : Server :=
  (cfg.routeAt (u.headersOf m) v).foldl f u

variable {f cfg m}

theorem foldl_visit_inv {P : Server → Prop} {vs : List (GoString × GoString)}
    (hP : ∀ u headers qn, qn ∈ vs.flatMap (cfg.routeAt headers) → P u → P (f u qn)) {u : Server}
    (hu : P u) : P (vs.foldl (visit f cfg m) u) :=
  foldlRecOn vs (visit f cfg m) hu fun w hw v hv =>
    foldlRecOn _ f hw fun w' hw' qn hqn =>
      hP w' (w.headersOf m) qn (mem_flatMap.mpr ⟨v, hv, hqn⟩) hw'

variable (hmark : ∀ u qn, Marked m u (f u qn))

include hmark

theorem marked_foldl (l : List GoString) (u : Server) : Marked m u (l.foldl f u) := by
  induction l generalizing u with
  | nil => exact .of_keeps (.refl u)
  | cons qn l ih => exact (hmark u qn).trans (ih (f u qn))

theorem marked_visits (vs : List (GoString × GoString)) (u : Server) :
    Marked m u (vs.foldl (visit f cfg m) u) := by
  induction vs generalizing u with
  | nil => exact .of_keeps (.refl u)
  | cons v vs ih => exact (marked_foldl hmark _ u).trans (ih _)

/-- Visits that leave the headers as they are, or a queue loop that does, are one queue loop. -/
theorem foldl_visit_eq (vs : List (GoString × GoString)) (u : Server)
    (hfix : (vs.foldl (visit f cfg m) u).headersOf m = u.headersOf m ∨
      ((vs.flatMap (cfg.routeAt (u.headersOf m))).foldl f u).headersOf m = u.headersOf m) :
    vs.foldl (visit f cfg m) u = (vs.flatMap (cfg.routeAt (u.headersOf m))).foldl f u := by
  induction vs generalizing u with
  | nil => rfl
  | cons v vs ih =>
    rw [foldl_cons, flatMap_cons, foldl_append] at hfix ⊢
    have hfirst : Marked m u (visit f cfg m u v) := marked_foldl hmark _ u
    -- the headers were the same after the first exchange
    have hmid : (visit f cfg m u v).headersOf m = u.headersOf m :=
      hfix.elim (hfirst.headers_mid (marked_visits hmark vs _))
        (hfirst.headers_mid (marked_foldl hmark _ _))
    have hnext := ih (visit f cfg m u v)
    rw [hmid] at hnext
    exact hnext hfix

end Visit

section Walk

variable {env : Env} {dl : MsgRef → Table → Server → Server} {chk : Bool} {m : MsgRef} {c : UInt16}
  (hdl : ∀ m args s, Framed s (dl m args s))

include hdl

theorem forwardFold_visits {fuel : ℕ}
    (ih : ∀ ex key vis u,
      (publishInternal env dl chk m c fuel ex key vis u).1 =
          (Dfs.visits u.config.links fuel ex key vis).1.foldl
            (visit (publishTo env dl chk m c) u.config m) u ∧
        (publishInternal env dl chk m c fuel ex key vis u).2.1 =
          (Dfs.visits u.config.links fuel ex key vis).2)
    (l : List E2EBinding) (acc : Server × List GoString × ℕ) :
    (l.foldl (forward env dl chk m c fuel) acc).1 =
        (acc.1.config.onward fuel l acc.2.1).1.foldl
          (visit (publishTo env dl chk m c) acc.1.config m) acc.1 ∧
      (l.foldl (forward env dl chk m c fuel) acc).2.1 =
        (acc.1.config.onward fuel l acc.2.1).2 := by
  induction l generalizing acc with
  | nil => exact ⟨rfl, rfl⟩
  | cons eb l ihl =>
    obtain ⟨hstate, hvisited⟩ := ih eb.destination eb.routingKey acc.2.1 acc.1
    have hconfig := (framed_publishInternal hdl env chk m c fuel eb.destination eb.routingKey
      acc.2.1 acc.1).config
    have hnext := ihl (forward env dl chk m c fuel acc eb)
    rw [forward_eq] at hnext
    dsimp only at hnext
    rw [hconfig, hvisited] at hnext
    rw [foldl_cons, Config.onward_cons, forward_eq]
    dsimp only
    rw [foldl_append, ← hstate, hvisited]
    exact hnext

theorem publishInternal_visits (fuel : ℕ) (ex key : GoString) (vis : List GoString) (u : Server) :
    (publishInternal env dl chk m c fuel ex key vis u).1 =
        (Dfs.visits u.config.links fuel ex key vis).1.foldl
          (visit (publishTo env dl chk m c) u.config m) u ∧
      (publishInternal env dl chk m c fuel ex key vis u).2.1 =
        (Dfs.visits u.config.links fuel ex key vis).2 := by
  induction fuel generalizing ex key vis u with
  | zero => exact ⟨rfl, rfl⟩
  | succ fuel ih =>
    by_cases hv : ex ∈ vis
    · rw [publishInternal_visited hv, Dfs.visits_visited hv]
      exact ⟨rfl, rfl⟩
    cases he : u.exchanges.get ex with
    | none =>
      rw [publishInternal_missing hv he,
        Dfs.visits_missing hv (Config.links_of_none (c := u.config) he)]
      exact ⟨rfl, rfl⟩
    | some x =>
      have hafter : (afterQueues env dl chk m c x ex key u).2 =
          visit (publishTo env dl chk m c) u.config m u (ex, key) := by
        unfold visit
        rw [Config.routeAt_of_some (c := u.config) he]
        rfl
      have hconfig : (afterQueues env dl chk m c x ex key u).2.config = u.config :=
        foldl_publishTo_inv (P := fun w => w.config = u.config)
          (fun w qn hw => ((framed_publishTo hdl env chk m c w qn).config).trans hw) _ u rfl
      have he2e : (afterQueues env dl chk m c x ex key u).2.e2eBindings = u.e2eBindings :=
        congrArg Config.e2eBindings hconfig
      rw [publishInternal_found hv he, Config.visits_of_some hv (c := u.config) he]
      dsimp only
      have hrest := forwardFold_visits hdl ih (E2EBindingManager.getBindings u.e2eBindings ex)
        ((afterQueues env dl chk m c x ex key u).2, ex :: vis,
          (afterQueues env dl chk m c x ex key u).1.length)
      dsimp only at hrest
      rw [hconfig] at hrest
      rw [he2e, foldl_cons, ← hafter]
      exact hrest

end Walk

section Follow

variable (env : Env) (m : MsgRef) (c : UInt16)

/-- The walk of a publish is the queue loop over what the exchanges of `Dfs.visits` select, if one
of them leaves the headers as they are. -/
def Follows (fuel : ℕ) : Prop :=
  ∀ (ex key : GoString) (vis : List GoString) (u : Server),
    ((publishInternal env (deadLetter env) true m c fuel ex key vis u).1.headersOf m =
        u.headersOf m ∨
      (((Dfs.visits u.config.links fuel ex key vis).1.flatMap
          (u.config.routeAt (u.headersOf m))).foldl
            (publishTo env (deadLetter env) true m c) u).headersOf m = u.headersOf m) →
    (publishInternal env (deadLetter env) true m c fuel ex key vis u).1 =
        ((Dfs.visits u.config.links fuel ex key vis).1.flatMap
          (u.config.routeAt (u.headersOf m))).foldl (publishTo env (deadLetter env) true m c) u ∧
      (publishInternal env (deadLetter env) true m c fuel ex key vis u).2.1 =
        (Dfs.visits u.config.links fuel ex key vis).2

theorem follows (fuel : ℕ) : Follows env m c fuel := by
  intro ex key vis u hfix
  obtain ⟨hstate, hvisited⟩ :
      (publishInternal env (deadLetter env) true m c fuel ex key vis u).1 = _ ∧ _ = _ :=
    publishInternal_visits (framed_deadLetter env) fuel ex key vis u
  rw [hstate] at hfix ⊢
  exact ⟨foldl_visit_eq (marked_publishTo env m c) _ u hfix, hvisited⟩

/-! ## Dead letters -/

theorem letterWalk_eq (u : Server) (ex key : GoString) :
    (publishInternal env (fun _ _ v => v) false m c u.walkFuel ex key [] u).1 =
      (u.config.deliveries (u.headersOf m) ex key).foldl
        (publishTo env (fun _ _ v => v) false m c) u := by
  have hkeeps : ∀ w qn, Keeps (fun x => (x.routingKey, x.properties.headers)) w
      (publishTo env (fun _ _ v => v) false m c w qn) :=
    keeps_publishTo stampless_marks (fun _ _ v => .refl v) env false m c
  rw [(publishInternal_visits (fun _ _ v => .refl v) u.walkFuel ex key [] u).1]
  apply foldl_visit_eq fun w qn => .of_keeps (hkeeps w qn)
  left
  exact foldl_visit_inv (P := fun w => w.headersOf m = u.headersOf m)
    (fun w _ qn _ hw => (congrArg Prod.snd (hkeeps w qn m)).trans hw) rfl

variable {c}

theorem deadLetter_of_none {args : Table} (h : getDeadLetterConfig args = none) (s : Server) :
    deadLetter env m args s = s := by
  unfold deadLetter
  rw [h]

theorem deadLetter_of_some {args : Table} {dlx : DeadLetterConfig}
    (h : getDeadLetterConfig args = some dlx) (s : Server) :
    deadLetter env m args s =
      (s.config.deliveries ((s.markLetter m).headersOf m) dlx.exchange
        (dlx.keyFor (s.msgs.read m).routingKey)).foldl
          (publishTo env (fun _ _ v => v) false m 0) (s.markLetter m) := by
  unfold deadLetter
  rw [h]
  exact letterWalk_eq env m 0 (s.markLetter m) _ _

variable (c)

/-! ## Publishes -/

theorem publish_snd (s : Server) (ex key : GoString) :
    (s.publish env ex key m c).2.store =
        (publishInternal env (deadLetter env) true m c s.walkFuel ex key [] s).1.store ∧
      (s.publish env ex key m c).2.msgs =
        (publishInternal env (deadLetter env) true m c s.walkFuel ex key [] s).1.msgs := by
  unfold publish
  rcases publishInternal env (deadLetter env) true m c s.walkFuel ex key [] s with ⟨u, v, e | n⟩
  · exact ⟨rfl, rfl⟩
  · exact ⟨rfl, rfl⟩

def queueLoop (s : Server) (ex key : GoString) : Server :=
  (s.config.deliveries (s.headersOf m) ex key).foldl (publishTo env (deadLetter env) true m c) s

theorem publish_eq (s : Server) (ex key : GoString)
    (hfix : (s.publish env ex key m c).2.headersOf m = s.headersOf m ∨
      (queueLoop env m c s ex key).headersOf m = s.headersOf m) (q : GoString) :
    (s.publish env ex key m c).2.ready q = (queueLoop env m c s ex key).ready q ∧
      (s.publish env ex key m c).2.headersOf m = (queueLoop env m c s ex key).headersOf m := by
  obtain ⟨hstore, hmsgs⟩ := publish_snd env m c s ex key
  have hfollows := follows env m c s.walkFuel ex key [] s
  unfold headersOf at hfix ⊢
  unfold ready
  rw [hmsgs] at hfix ⊢
  rw [hstore, (hfollows hfix).1]
  exact ⟨rfl, rfl⟩

end Follow

end Server

end Broker

end Gomq
