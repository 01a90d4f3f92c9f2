import Gomq.Broker.Etcd

/-!
# Headers routing after a restart through etcd

Two things change on the way through etcd. Of several bindings whose paths are the same only the
last is there, and none whose path does not start with that of the bindings (`Kept`). And an integer
argument comes back as a `float64`, which the matcher reads as 0 when the header is an integer. So a
headers exchange routes as before exactly if it selects the same queues when the lost bindings are
left out and every integer argument is 0 (`headersSurvive_iff`).
-/

namespace Gomq

open Wire List

/-! ## Integers read as zero -/

namespace Wire.Value

def zeroed (v : Value) : Value :=
  match v.asInteger with
  | some _ => int 0
  | none => v

end Wire.Value

namespace Broker

theorem toInt64_throughJson (v : Value) : toInt64 v.throughJson = toInt64 v.zeroed := by
  cases v <;> rfl

theorem toUint64_throughJson (v : Value) : toUint64 v.throughJson = toUint64 v.zeroed := by
  cases v <;> rfl

theorem valuesEqual_throughJson {a : Value} (ha : a.basic) (v : Value) :
    valuesEqual a v.throughJson = valuesEqual a v.zeroed := by
  cases a with
  | string s => cases v <;> rfl
  | bool b => cases v <;> rfl
  | float32 x => cases ha
  | float64 x => cases ha
  | bytes b => cases ha
  | time t => cases ha
  | table t => cases ha
  | other => cases ha
  | _ => simp only [valuesEqual, toInt64_throughJson, toUint64_throughJson]

section MatchHeaders

variable {headers : Table} (hh : ∀ kv ∈ headers, kv.2.basic)

theorem get_map (args : Table) (f : Value → Value) (k : GoString) :
    Table.get (args.map fun kv => (kv.1, f kv.2)) k = (args.get k).map f := by
  unfold Table.get
  induction args with
  | nil => rfl
  | cons kv args ih =>
    rw [map_cons, lookup_cons, lookup_cons]
    cases k == kv.1 with
    | true => rfl
    | false => exact ih

theorem mem_of_get {t : Table} {k : GoString} {v : Value} (h : t.get k = some v) : (k, v) ∈ t := by
  unfold Table.get at h
  induction t with
  | nil => cases h
  | cons kv t ih =>
    rw [lookup_cons] at h
    by_cases hk : k = kv.1
    · simp only [hk, beq_self_eq_true] at h
      rw [← Option.some.inj h, hk]
      exact mem_cons_self
    · simp only [beq_false_of_ne hk] at h
      exact mem_cons_of_mem kv (ih h)

/-- The match mode that an `x-match` argument asks for. -/
def matchMode : Option Value → GoString
  | some (.string s) => s
  | _ => str "all"

theorem matchHeaders_eq (headers args : Table) :
    matchHeaders headers args =
      if args.isEmpty then false
      else if matchMode (args.get (str "x-match")) = str "any" then
        args.any fun kv => kv.1 != str "x-match" && headerMatches headers kv.1 kv.2
      else args.all fun kv => kv.1 == str "x-match" || headerMatches headers kv.1 kv.2 := rfl

theorem matchMode_throughJson (o : Option Value) :
    matchMode (o.map Value.throughJson) = matchMode (o.map Value.zeroed) := by
  cases o with
  | none => rfl
  | some v => cases v <;> rfl

include hh

theorem headerMatches_throughJson (k : GoString) (v : Value) :
    headerMatches headers k v.throughJson = headerMatches headers k v.zeroed := by
  unfold headerMatches
  cases h : headers.get k with
  | none => rfl
  | some a => exact valuesEqual_throughJson (hh (k, a) (mem_of_get h)) v

theorem matchHeaders_throughJson (args : Table) :
    matchHeaders headers (args.map fun kv => (kv.1, kv.2.throughJson)) =
      matchHeaders headers (args.map fun kv => (kv.1, kv.2.zeroed)) := by
  simp only [matchHeaders_eq, get_map, matchMode_throughJson, isEmpty_map, any_map,
    all_map, Function.comp_def, headerMatches_throughJson hh]

end MatchHeaders

/-! ## What is left in etcd -/

variable {json : Json}

def lastUnder (root : GoString) (ms : List BindingMeta) (path : GoString) : Option BindingMeta :=
  ms.reverse.find? fun m => bindingPath root m = path

/-- The binding is still there and is loaded: no later one has its path, and the path starts with
that of the bindings. -/
def Kept (root : GoString) (ms : List BindingMeta) (m : BindingMeta) : Prop :=
  lastUnder root ms (bindingPath root m) = some m ∧
    (bindingsPath root).isPrefixOf (bindingPath root m)

namespace EtcdServer

theorem root_bind (p : EtcdServer json) (m : BindingMeta) :
    (p.bind m).store.root = p.store.root := by
  show (p.store.saveBinding m).root = p.store.root
  unfold EtcdStore.saveBinding
  split <;> rfl

theorem root_foldl (p : EtcdServer json) (ms : List BindingMeta) :
    (ms.foldl bind p).store.root = p.store.root := by
  induction ms generalizing p with
  | nil => rfl
  | cons m ms ih => rw [foldl_cons, ih, root_bind]

theorem server_foldl (p : EtcdServer json) (ms : List BindingMeta) :
    (ms.foldl bind p).server = p.server.restored [] [] ms := by
  induction ms generalizing p with
  | nil => rfl
  | cons m ms ih =>
    rw [foldl_cons, ih]
    rfl

theorem kvs_foldl {ms : List BindingMeta} (hms : ∀ m ∈ ms, m.Storable json.Text)
    (p : EtcdServer json) (k : GoString) :
    (ms.foldl bind p).store.kvs.get k =
      ((lastUnder p.store.root ms k).bind json.marshal).or (p.store.kvs.get k) := by
  induction ms generalizing p with
  | nil => rfl
  | cons m ms ih =>
    have hms' : ∀ m ∈ ms, m.Storable json.Text := fun a ha => hms a (mem_cons_of_mem m ha)
    obtain ⟨d, hd, -⟩ := json.unmarshal_marshal m (hms m mem_cons_self)
    have hput : (p.bind m).store.kvs.get k =
        if k = bindingPath p.store.root m then some d else p.store.kvs.get k := by
      show (p.store.saveBinding m).kvs.get k = _
      unfold EtcdStore.saveBinding
      rw [hd]
      exact GoMap.get_set _ _ _ _
    have hlast : lastUnder p.store.root (m :: ms) k =
        (lastUnder p.store.root ms k).or
          (if k = bindingPath p.store.root m then some m else none) := by
      unfold lastUnder
      rw [reverse_cons, List.find?_append]
      congr 1
      by_cases hk : k = bindingPath p.store.root m
      · simp [hk]
      · simp [hk, Ne.symm hk]
    rw [foldl_cons, ih hms', root_bind, hput, hlast]
    cases hfound : lastUnder p.store.root ms k with
    | none =>
      by_cases hk : k = bindingPath p.store.root m
      · simp [hk, hd]
      · simp [hk]
    | some a =>
      obtain ⟨d', hd', -⟩ := json.unmarshal_marshal a
        (hms' a (mem_reverse.mp (mem_of_find?_eq_some hfound)))
      simp [hd']

def saved (json : Json) (root : GoString) (s : Server) (ms : List BindingMeta) : EtcdServer json :=
  ms.foldl bind ⟨s, ⟨root, ∅⟩⟩

variable {root : GoString} {s : Server} {ms : List BindingMeta}

theorem get_saved (hms : ∀ m ∈ ms, m.Storable json.Text) (k : GoString) :
    (saved json root s ms).store.kvs.get k = (lastUnder root ms k).bind json.marshal :=
  (kvs_foldl hms ⟨s, ⟨root, ∅⟩⟩ k).trans Option.or_none

theorem lastUnder_spec {k : GoString} {m : BindingMeta} (h : lastUnder root ms k = some m) :
    m ∈ ms ∧ bindingPath root m = k :=
  ⟨mem_reverse.mp (mem_of_find?_eq_some h), by simpa using List.find?_some h⟩

theorem mem_docs (hms : ∀ m ∈ ms, m.Storable json.Text) (r : (saved json root s ms).store.Reading)
    (d : json.Doc) : d ∈ r.docs ↔ ∃ m, Kept root ms m ∧ json.marshal m = some d := by
  have hroot : (saved json root s ms).store.root = root := root_foldl _ ms
  rw [r.perm.mem_iff, mem_filterMap]
  simp only [mem_filter, GoMap.mem_keys_iff, hroot, get_saved hms]
  constructor
  · rintro ⟨k, ⟨-, hk⟩, hd⟩
    obtain ⟨m, hm, hmd⟩ := Option.bind_eq_some_iff.mp hd
    obtain ⟨-, rfl⟩ := lastUnder_spec hm
    exact ⟨m, ⟨hm, hk⟩, hmd⟩
  · rintro ⟨m, ⟨hm, hk⟩, hd⟩
    have hget : (lastUnder root ms (bindingPath root m)).bind json.marshal = some d := by
      rw [hm]; exact hd
    exact ⟨bindingPath root m, ⟨⟨d, hget⟩, hk⟩, hget⟩

theorem loadBindings_saved (hms : ∀ m ∈ ms, m.Storable json.Text)
    (r : (saved json root s ms).store.Reading) :
    ∃ bs, (saved json root s ms).store.loadBindings r = some bs ∧
      ∀ b, b ∈ bs ↔ ∃ m, Kept root ms m ∧ b = m.throughJson := by
  have hdecode : ∀ m d, Kept root ms m → json.marshal m = some d →
      json.unmarshal d = some m.throughJson := by
    intro m d hm hd
    obtain ⟨d', hd', hdecode⟩ := json.unmarshal_marshal m (hms m (lastUnder_spec hm.1).1)
    obtain rfl : d = d' := Option.some.inj (hd.symm.trans hd')
    exact hdecode
  have hload := mapM_eq_filterMap (f := json.unmarshal) (l := r.docs) fun d hd => by
    obtain ⟨m, hm, hd⟩ := (mem_docs hms r d).mp hd
    rw [hdecode m d hm hd]
    rfl
  refine ⟨_, hload, fun b => ?_⟩
  rw [mem_filterMap]
  constructor
  · rintro ⟨d, hd, hb⟩
    obtain ⟨m, hm, hd⟩ := (mem_docs hms r d).mp hd
    exact ⟨m, hm, Option.some.inj (hb.symm.trans (hdecode m d hm hd))⟩
  · rintro ⟨m, hm, rfl⟩
    obtain ⟨d, hd, -⟩ := json.unmarshal_marshal m (hms m (lastUnder_spec hm.1).1)
    exact ⟨d, (mem_docs hms r d).mpr ⟨m, hm, hd⟩, hdecode m d hm hd⟩

def restarted (env : Env) (p : EtcdServer json) (queues : List QueueMeta)
    (exchanges : List ExchangeMeta) (r : p.store.Reading) : Option RestoreError × EtcdServer json :=
  restoreFromStore env ⟨newServer, p.store⟩ queues exchanges r

theorem restarted_saved (env : Env) (queues : List QueueMeta) (exchanges : List ExchangeMeta)
    {r : (saved json root s ms).store.Reading} {bs : List BindingMeta}
    (h : (saved json root s ms).store.loadBindings r = some bs) :
    (restarted env (saved json root s ms) queues exchanges r).1 = none ∧
      (restarted env (saved json root s ms) queues exchanges r).2.server =
        (newServer.restored queues exchanges []).restored [] [] bs := by
  unfold restarted restoreFromStore
  rw [h]
  refine ⟨rfl, ?_⟩
  dsimp only
  rw [server_foldl, Server.foldl_declareQueue, Server.foldl_declareExchange]
  rfl

end EtcdServer

/-! ## Routing before and after -/

def Server.HasHeaders (s : Server) (ex : GoString) : Prop :=
  ∃ x, s.exchanges.get ex = some x ∧ x.type = .headers

theorem mem_routeAt_bound {s : Server} (hs : s.bindings = newServer.bindings) {ex : GoString}
    (hx : s.HasHeaders ex) (l : List BindingMeta) (headers : Table) (key q : GoString) :
    q ∈ (s.restored [] [] l).config.routeAt headers (ex, key) ↔
      ∃ m ∈ l, m.exchange = ex ∧ m.queue = q ∧ matchHeaders headers m.args := by
  obtain ⟨x, hx, htype⟩ := hx
  have hmem : ∀ b, b ∈ (s.restored [] [] l).config.bindings.getBindings ex ↔
      b.meta ∈ l ∧ b.exchangeName = ex := by
    intro b
    show b ∈ (l.foldl _ s.bindings).getBindings ex ↔ _
    rw [hs]
    exact mem_getBindings_foldl_bind l b ex
  rw [Config.routeAt_of_some (c := (s.restored [] [] l).config) hx]
  unfold Exchange.route
  rw [mem_collect]
  simp only [hmem, htype, selects]
  constructor
  · rintro ⟨b, ⟨hb, hex⟩, hsel, hq⟩
    exact ⟨b.meta, hb, hex, hq, hsel⟩
  · rintro ⟨m, hm, hex, hq, hsel⟩
    exact ⟨m.toBinding, ⟨hm, hex⟩, hsel, hq⟩

/-- The exchange selects the same queues from the bindings kept, with 0 for every integer
argument. -/
def LosesNothing (root : GoString) (ms : List BindingMeta) (headers : Table) (ex : GoString) :
    Prop :=
  ∀ q, (∃ m ∈ ms, m.exchange = ex ∧ m.queue = q ∧ matchHeaders headers m.args) ↔
    ∃ m, Kept root ms m ∧ m.exchange = ex ∧ m.queue = q ∧
      matchHeaders headers (m.args.map fun kv => (kv.1, kv.2.zeroed))

theorem losesNothing_of_distinct {root : GoString} {ms : List BindingMeta}
    (hpaths : ∀ m ∈ ms, ∀ m' ∈ ms, bindingPath root m = bindingPath root m' → m = m')
    (hroot : ∀ m ∈ ms, (bindingsPath root).isPrefixOf (bindingPath root m))
    (hargs : ∀ m ∈ ms, ∀ kv ∈ m.args, kv.2.asInteger = none) (headers : Table) (ex : GoString) :
    LosesNothing root ms headers ex := by
  have hkept : ∀ m, Kept root ms m ↔ m ∈ ms := by
    refine fun m => ⟨fun h => (EtcdServer.lastUnder_spec h.1).1, fun h => ⟨?_, hroot m h⟩⟩
    cases hfind : lastUnder root ms (bindingPath root m) with
    | none =>
      exact absurd (decide_eq_true rfl) (List.find?_eq_none.mp hfind m (mem_reverse.mpr h))
    | some m' =>
      obtain ⟨hm', hpath⟩ := EtcdServer.lastUnder_spec hfind
      rw [hpaths m' hm' m h hpath]
  have hzero : ∀ m ∈ ms, (m.args.map fun kv => (kv.1, kv.2.zeroed)) = m.args := by
    intro m hm
    refine (map_congr_left fun kv hkv => ?_).trans (map_id _)
    rw [Value.zeroed, hargs m hm kv hkv]
    rfl
  intro q
  refine exists_congr fun m => ?_
  rw [hkept]
  refine and_congr_right fun hm => ?_
  rw [hzero m hm]

/-- After a restart through etcd a headers exchange routes to the same queues exactly if neither the
bindings that are lost nor the integer arguments matter. -/
theorem headersSurvive_iff (json : Json) (env : Env) (root : GoString) (s : Server)
    (hs : s.bindings = newServer.bindings) (ms : List BindingMeta)
    (hms : ∀ m ∈ ms, m.Storable json.Text) (queues : List QueueMeta)
    (exchanges : List ExchangeMeta) (r : (EtcdServer.saved json root s ms).store.Reading)
    (ex key : GoString) (hx : s.HasHeaders ex)
    (hx' : (newServer.restored queues exchanges []).HasHeaders ex) (headers : Table)
    (hh : ∀ kv ∈ headers, kv.2.basic) :
    (∀ q, q ∈ (EtcdServer.saved json root s ms).server.config.routeAt headers (ex, key) ↔
      q ∈ ((EtcdServer.saved json root s ms).restarted env queues exchanges
        r).2.server.config.routeAt headers (ex, key)) ↔
      LosesNothing root ms headers ex := by
  obtain ⟨bs, hbs, hmem⟩ := EtcdServer.loadBindings_saved hms r
  have hbefore : (EtcdServer.saved json root s ms).server = s.restored [] [] ms :=
    EtcdServer.server_foldl _ ms
  refine forall_congr' fun q => ?_
  rw [hbefore, (EtcdServer.restarted_saved env queues exchanges hbs).2, mem_routeAt_bound hs hx,
    mem_routeAt_bound (s := newServer.restored queues exchanges []) rfl hx']
  refine iff_congr Iff.rfl ?_
  simp only [hmem, ← matchHeaders_throughJson hh]
  constructor
  · rintro ⟨b, ⟨m, hm, rfl⟩, hrest⟩
    exact ⟨m, hm, hrest⟩
  · rintro ⟨m, hm, hrest⟩
    exact ⟨m.throughJson, ⟨m, hm, rfl⟩, hrest⟩

/-! ## An integer argument -/

def plainJson : Json where
  Doc := BindingMeta
  Text := fun _ => True
  marshal := fun m => some m.throughJson
  unmarshal := some
  unmarshal_marshal := fun m _ => ⟨m.throughJson, rfl, rfl⟩

def boundTo (v : Value) : EtcdServer plainJson :=
  .saved plainJson (str "/gomq") newServer [⟨str "amq.headers", str "q", [], [(str "a", v)]⟩]

def restartedWith (v : Value) : Server :=
  ((boundTo v).restarted default [] [] (boundTo v).store.reading).2.server

theorem newServer_hasHeaders : newServer.HasHeaders (str "amq.headers") :=
  ⟨⟨str "amq.headers", .headers, true, false, false, []⟩, rfl, rfl⟩

theorem storable_boundTo {v : Value} (hv : v.Storable plainJson.Text) :
    ∀ m ∈ [(⟨str "amq.headers", str "q", [], [(str "a", v)]⟩ : BindingMeta)],
      m.Storable plainJson.Text := by
  intro m hm
  rw [mem_singleton.mp hm]
  refine ⟨trivial, trivial, trivial, fun kv hkv => ?_⟩
  rw [mem_singleton.mp hkv]
  exact ⟨trivial, hv⟩

/-- A message with the same integer in its headers is not routed any more. -/
theorem intArgument_lost :
    (Value.int32 5).Storable plainJson.Text ∧ (Value.int32 5).basic ∧
      (boundTo (.int32 5)).server.config.routeAt [(str "a", .int32 5)] (str "amq.headers", []) =
        [str "q"] ∧
      (restartedWith (.int32 5)).config.routeAt [(str "a", .int32 5)] (str "amq.headers", []) =
        [] ∧
      ¬ ∀ q, q ∈ (boundTo (.int32 5)).server.config.routeAt [(str "a", .int32 5)]
          (str "amq.headers", []) ↔
        q ∈ (restartedWith (.int32 5)).config.routeAt [(str "a", .int32 5)]
          (str "amq.headers", []) := by
  have hbefore : (boundTo (.int32 5)).server.config.routeAt [(str "a", .int32 5)]
      (str "amq.headers", []) = [str "q"] := by decide +kernel
  have hafter : (restartedWith (.int32 5)).config.routeAt [(str "a", .int32 5)]
      (str "amq.headers", []) = [] := by decide +kernel
  refine ⟨⟨5, rfl, by decide⟩, rfl, hbefore, hafter, fun h => ?_⟩
  have hq := h (str "q")
  rw [hbefore, hafter] at hq
  exact absurd (hq.mp mem_cons_self) not_mem_nil

/-- A message with the same string in its headers is. -/
theorem stringArgument_survives :
    newServer.HasHeaders (str "amq.headers") ∧
      ∀ q, q ∈ (boundTo (.string (str "x"))).server.config.routeAt [(str "a", .string (str "x"))]
          (str "amq.headers", []) ↔
        q ∈ (restartedWith (.string (str "x"))).config.routeAt [(str "a", .string (str "x"))]
          (str "amq.headers", []) := by
  refine ⟨newServer_hasHeaders, (headersSurvive_iff plainJson default (str "/gomq") newServer rfl _
    (storable_boundTo (v := .string (str "x")) trivial) [] []
    (boundTo (.string (str "x"))).store.reading (str "amq.headers") [] newServer_hasHeaders
    newServer_hasHeaders _ (by decide)).mpr
    (losesNothing_of_distinct ?_ ?_ ?_ _ _)⟩
  · intro m hm m' hm' _
    rw [mem_singleton.mp hm, mem_singleton.mp hm']
  · intro m hm
    rw [mem_singleton.mp hm]
    decide +kernel
  · intro m hm kv hkv
    rw [mem_singleton.mp hm] at hkv
    rw [mem_singleton.mp hkv]
    rfl

end Broker

end Gomq
