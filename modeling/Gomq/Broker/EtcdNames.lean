import Gomq.Broker.Etcd
import Gomq.Lib.KeyedMap
import Gomq.Lib.Run

/-!
# Names in etcd

`EtcdStore` puts a queue or an exchange under the path of its name below `queues` or `exchanges`,
cleaned by `path.Join`, and loads what etcd has under keys that begin with the path of the
directory. A name may lead out of the directory, or clean to the path of another name. The store is
a map keyed by kind and name exactly as long as no call does so (`loadRecords_exact_iff`), which
plain names never do (`clear_of_plain`).
-/

namespace Gomq.Broker

open List

/-! ## Cleaned paths -/

/-- A name that `path.Clean` leaves alone: no slash in it, and not empty, `.` or `..`. -/
def PlainName (name : GoString) : Prop :=
  name ≠ [] ∧ name ≠ str "." ∧ name ≠ str ".." ∧ 0x2f ∉ name

instance (name : GoString) : Decidable (PlainName name) := inferInstanceAs (Decidable (_ ∧ _))

/-- The elements of a path after cleaning, the last one first. -/
def pathElements (path : GoString) : List GoString :=
  (path.splitOn 0x2f).foldl (cleanElement (path.head? == some 0x2f)) []

def rootMark (path : GoString) : GoString := if path.head? == some 0x2f then [0x2f] else []

def dirOf (elements : List GoString) : GoString := elements.reverse.flatMap (· ++ [0x2f])

theorem intercalate_snoc (l : List GoString) (x : GoString) :
    [0x2f].intercalate (l ++ [x]) = l.flatMap (· ++ [0x2f]) ++ x := by
  induction l with
  | nil => simp [List.intercalate]
  | cons a l ih =>
    have hcons : [0x2f].intercalate (a :: (l ++ [x])) =
        a ++ ([0x2f] ++ [0x2f].intercalate (l ++ [x])) := by
      cases l <;> rfl
    rw [cons_append, hcons, ih, flatMap_cons, append_assoc, append_assoc]

theorem pathClean_of_cons {path top : GoString} {rest : List GoString}
    (h : pathElements path = top :: rest) (htop : top ≠ []) :
    pathClean path = rootMark path ++ (dirOf rest ++ top) := by
  have hbody : [0x2f].intercalate ((path.splitOn 0x2f).foldl
      (cleanElement (path.head? == some 0x2f)) []).reverse = dirOf rest ++ top := by
    show [0x2f].intercalate (pathElements path).reverse = _
    rw [h, reverse_cons, intercalate_snoc]
    rfl
  have hne : dirOf rest ++ top ≠ [] := by simp [htop]
  unfold pathClean rootMark
  dsimp only
  rw [hbody, if_neg hne]
  split <;> rfl

theorem cleanElement_of_plain {name : GoString} (h : PlainName name) (rooted : Bool)
    (out : List GoString) : cleanElement rooted out name = name :: out := by
  unfold cleanElement
  rw [if_neg (not_or.mpr ⟨h.1, h.2.1⟩), if_neg h.2.2.1]

theorem splitOn_of_plain {name : GoString} (h : PlainName name) : name.splitOn 0x2f = [name] := by
  refine splitOnP_eq_singleton fun c hc => ?_
  rw [beq_eq_false_iff_ne]
  rintro rfl
  exact h.2.2.2 hc

theorem splitOn_snoc (path : GoString) {name : GoString} (h : PlainName name) :
    (path ++ 0x2f :: name).splitOn 0x2f = path.splitOn 0x2f ++ [name] := by
  rw [← splitOn_of_plain h]
  exact splitOnP_append_cons path name (beq_self_eq_true 0x2f)

theorem pathElements_snoc {path name : GoString} (hpath : path ≠ []) (h : PlainName name) :
    pathElements (path ++ 0x2f :: name) = name :: pathElements path := by
  unfold pathElements
  rw [splitOn_snoc path h, foldl_append, List.head?_append_of_ne_nil _ hpath]
  exact cleanElement_of_plain h _ _

theorem rootMark_snoc {path : GoString} (hpath : path ≠ []) (name : GoString) :
    rootMark (path ++ 0x2f :: name) = rootMark path := by
  unfold rootMark
  rw [List.head?_append_of_ne_nil _ hpath]

theorem pathElements_of_plain {name : GoString} (h : PlainName name) :
    pathElements name = [name] := by
  unfold pathElements
  rw [splitOn_of_plain h]
  exact cleanElement_of_plain h _ _

theorem rootMark_of_plain {name : GoString} (h : PlainName name) : rootMark name = [] := by
  cases name with
  | nil => rfl
  | cons c name =>
    have hc : c ≠ 0x2f := fun heq => h.2.2.2 (heq ▸ mem_cons_self)
    simp [rootMark, hc]

/-- The directory that the paths of a store begin with. -/
def rootDir (root : GoString) : GoString := rootMark root ++ dirOf (pathElements root)

theorem dirOf_cons (x : GoString) (l : List GoString) :
    dirOf (x :: l) = dirOf l ++ x ++ [0x2f] := by
  simp [dirOf]

theorem rootDir_of_plain {segment : GoString} (h : PlainName segment) :
    rootDir segment = segment ++ [0x2f] := by
  rw [rootDir, rootMark_of_plain h, pathElements_of_plain h, dirOf_cons]
  rfl

theorem rootDir_snoc {root segment : GoString} (hroot : root ≠ []) (h : PlainName segment) :
    rootDir (root ++ 0x2f :: segment) = rootDir root ++ segment ++ [0x2f] := by
  rw [rootDir, rootDir, rootMark_snoc hroot, pathElements_snoc hroot h, dirOf_cons]
  simp only [append_assoc]

theorem pathJoin_plain (root : GoString) {segment : GoString} (h : PlainName segment) :
    pathJoin [root, segment] = rootDir root ++ segment := by
  by_cases hroot : root = []
  · have hjoin : pathJoin [[], segment] = pathClean segment := by
      simp [pathJoin, h.1, List.intercalate]
    rw [hroot, hjoin, pathClean_of_cons (pathElements_of_plain h) h.1, rootMark_of_plain h]
    rfl
  · have hjoin : pathJoin [root, segment] = pathClean (root ++ 0x2f :: segment) := by
      simp [pathJoin, hroot, h.1, List.intercalate]
    rw [hjoin, pathClean_of_cons (pathElements_snoc hroot h) h.1, rootMark_snoc hroot, rootDir,
      append_assoc]

theorem pathJoin_plain_plain (root : GoString) {segment name : GoString} (h : PlainName segment)
    (hname : PlainName name) :
    pathJoin [root, segment, name] = rootDir root ++ segment ++ 0x2f :: name := by
  by_cases hroot : root = []
  · have hjoin : pathJoin [[], segment, name] = pathJoin [segment, name] := by simp [pathJoin]
    rw [hroot, hjoin, pathJoin_plain segment hname, rootDir_of_plain h, append_assoc]
    rfl
  · have hjoin : pathJoin [root, segment, name] =
        pathJoin [root ++ 0x2f :: segment, name] := by
      simp [pathJoin, hroot, h.1, hname.1, List.intercalate]
    rw [hjoin, pathJoin_plain _ hname, rootDir_snoc hroot h, append_assoc]
    rfl

/-! ## The store -/

inductive Kind where
  | queues
  | exchanges
  deriving DecidableEq

namespace Kind

def segment : Kind → GoString
  | queues => str "queues"
  | exchanges => str "exchanges"

def Meta : Kind → Type
  | queues => QueueMeta
  | exchanges => ExchangeMeta

def name : (kind : Kind) → kind.Meta → GoString
  | queues => QueueMeta.name
  | exchanges => ExchangeMeta.name

end Kind

/-- `encoding/json` for queues and exchanges, which it gives back as they are. -/
structure RecordJson where
  Doc : Type
  marshal : (kind : Kind) → kind.Meta → Doc
  unmarshal : (kind : Kind) → Doc → Option kind.Meta
  unmarshal_marshal : ∀ kind m, unmarshal kind (marshal kind m) = some m

def dirPath (root : GoString) (kind : Kind) : GoString := pathJoin [root, kind.segment]

def recordPath (root : GoString) (n : Kind × GoString) : GoString :=
  pathJoin [root, n.1.segment, n.2]

def under (root : GoString) (kind : Kind) (key : GoString) : Bool :=
  (dirPath root kind).isPrefixOf key

/-- `EtcdStore` with the queues and exchanges in it; `root` is its prefix. -/
structure EtcdRecords (json : RecordJson) where
  root : GoString
  kvs : GoMap GoString json.Doc

namespace EtcdRecords

variable {json : RecordJson}

def save (st : EtcdRecords json) (kind : Kind) (m : kind.Meta) : EtcdRecords json :=
  { st with kvs := st.kvs.set (recordPath st.root (kind, kind.name m)) (json.marshal kind m) }

def delete (st : EtcdRecords json) (kind : Kind) (name : GoString) : EtcdRecords json :=
  { st with kvs := st.kvs.del (recordPath st.root (kind, name)) }

/-- What etcd answers to a read of the keys under a directory, in any order. -/
structure Reading (st : EtcdRecords json) (kind : Kind) where
  docs : List json.Doc
  perm : docs.Perm ((st.kvs.keys.filter (under st.root kind)).filterMap st.kvs.get)

def reading (st : EtcdRecords json) (kind : Kind) : st.Reading kind := ⟨_, .rfl⟩

/-- It fails if a document cannot be decoded. -/
def load (st : EtcdRecords json) (kind : Kind) (r : st.Reading kind) : Option (List kind.Meta) :=
  r.docs.mapM (json.unmarshal kind)

def saveQueue (st : EtcdRecords json) (m : QueueMeta) : EtcdRecords json := st.save .queues m

def deleteQueue (st : EtcdRecords json) (name : GoString) : EtcdRecords json :=
  st.delete .queues name

def loadQueues (st : EtcdRecords json) (r : st.Reading .queues) : Option (List QueueMeta) :=
  st.load .queues r

def saveExchange (st : EtcdRecords json) (m : ExchangeMeta) : EtcdRecords json :=
  st.save .exchanges m

def deleteExchange (st : EtcdRecords json) (name : GoString) : EtcdRecords json :=
  st.delete .exchanges name

def loadExchanges (st : EtcdRecords json) (r : st.Reading .exchanges) :
    Option (List ExchangeMeta) :=
  st.load .exchanges r

end EtcdRecords

/-! ## What was saved under each name -/

abbrev AnyMeta := Sigma Kind.Meta

def AnyMeta.ofKind (kind : Kind) (r : AnyMeta) : Option kind.Meta :=
  if h : r.1 = kind then some (h ▸ r.2) else none

theorem AnyMeta.ofKind_mk (kind : Kind) (m : kind.Meta) :
    AnyMeta.ofKind kind ⟨kind, m⟩ = some m := dif_pos rfl

theorem AnyMeta.isSome_ofKind (kind : Kind) (r : AnyMeta) :
    (r.ofKind kind).isSome ↔ r.1 = kind := by
  unfold ofKind
  split <;> simp_all

inductive RecordCall where
  | saveQueue (m : QueueMeta)
  | deleteQueue (name : GoString)
  | saveExchange (m : ExchangeMeta)
  | deleteExchange (name : GoString)

structure NamedRecords (json : RecordJson) where
  store : EtcdRecords json
  saved : GoMap (Kind × GoString) AnyMeta

namespace NamedRecords

variable {json : RecordJson}

def new (json : RecordJson) (root : GoString) : NamedRecords json := ⟨⟨root, ∅⟩, ∅⟩

def step (s : NamedRecords json) : RecordCall → NamedRecords json
  | .saveQueue m => ⟨s.store.saveQueue m, s.saved.set (.queues, m.name) ⟨.queues, m⟩⟩
  | .deleteQueue name => ⟨s.store.deleteQueue name, s.saved.del (.queues, name)⟩
  | .saveExchange m => ⟨s.store.saveExchange m, s.saved.set (.exchanges, m.name) ⟨.exchanges, m⟩⟩
  | .deleteExchange name => ⟨s.store.deleteExchange name, s.saved.del (.exchanges, name)⟩

def savedOf (s : NamedRecords json) (kind : Kind) : List kind.Meta :=
  s.saved.vals.filterMap (AnyMeta.ofKind kind)

/-- `LoadQueues` and `LoadExchanges` return what was saved, in some order. -/
def Exact (s : NamedRecords json) : Prop :=
  (∀ r, ∃ l, s.store.loadQueues r = some l ∧ l.Perm (s.savedOf .queues)) ∧
    ∀ r, ∃ l, s.store.loadExchanges r = some l ∧ l.Perm (s.savedOf .exchanges)

def Free (s : NamedRecords json) (n : Kind × GoString) : Prop :=
  SoleKey (recordPath s.store.root) s.saved n

def Inside (s : NamedRecords json) (n : Kind × GoString) : Prop :=
  under s.store.root n.1 (recordPath s.store.root n) = true

/-- A save goes to a path in its own directory that no other name has, a delete to one that no other
name has. -/
def Clear (s : NamedRecords json) : RecordCall → Prop
  | .saveQueue m => s.Inside (.queues, m.name) ∧ s.Free (.queues, m.name)
  | .deleteQueue name => s.Free (.queues, name)
  | .saveExchange m => s.Inside (.exchanges, m.name) ∧ s.Free (.exchanges, m.name)
  | .deleteExchange name => s.Free (.exchanges, name)

end NamedRecords

/-! ## Directories do not overlap -/

theorem plainName_segment (kind : Kind) : PlainName kind.segment := by
  cases kind <;> decide

theorem dirPath_eq (root : GoString) (kind : Kind) :
    dirPath root kind = rootDir root ++ kind.segment := pathJoin_plain root (plainName_segment kind)

theorem kind_unique {kind kind' : Kind} (h : kind.segment <+: kind'.segment) : kind = kind' := by
  cases kind <;> cases kind' <;> first | rfl | (revert h; decide)

theorem under_unique {root key : GoString} {kind kind' : Kind} (h : under root kind key = true)
    (h' : under root kind' key = true) : kind = kind' := by
  have hpre : dirPath root kind <+: key := isPrefixOf_iff_prefix.mp h
  have hpre' : dirPath root kind' <+: key := isPrefixOf_iff_prefix.mp h'
  rw [dirPath_eq] at hpre hpre'
  rcases prefix_or_prefix_of_prefix hpre hpre' with hseg | hseg
  · exact kind_unique ((prefix_append_right_inj _).mp hseg)
  · exact (kind_unique ((prefix_append_right_inj _).mp hseg)).symm

/-! ## The store mirrors the names -/

theorem length_of_mapM {α β : Type} {f : α → Option β} {l : List α} {bs : List β}
    (h : l.mapM f = some bs) : bs.length = l.length := by
  induction l generalizing bs with
  | nil =>
    cases h
    rfl
  | cons a l ih =>
    rw [mapM_cons] at h
    obtain ⟨b, -, h⟩ := Option.bind_eq_some_iff.mp h
    obtain ⟨bs', hbs', h⟩ := Option.bind_eq_some_iff.mp h
    cases h
    rw [length_cons, length_cons, ih hbs']

namespace NamedRecords

variable {json : RecordJson}

def doc (json : RecordJson) (r : AnyMeta) : json.Doc := json.marshal r.1 r.2

/-- Each saved record is under the path of its name, in its own directory. -/
structure Mirrored (s : NamedRecords json) : Prop where
  mirrors : Mirrors (recordPath s.store.root) (doc json) s.saved s.store.kvs
  inside : ∀ n ∈ s.saved.keys, s.Inside n
  kind : ∀ n r, s.saved.get n = some r → r.1 = n.1

theorem mirrored_new (root : GoString) : (new json root).Mirrored where
  mirrors := Mirrors.empty
  inside _ h := absurd h not_mem_nil
  kind _ _ h := nomatch h

def ExactOf (s : NamedRecords json) (kind : Kind) : Prop :=
  ∀ r, ∃ l, s.store.load kind r = some l ∧ l.Perm (s.savedOf kind)

theorem exact_iff (s : NamedRecords json) : s.Exact ↔ ∀ kind, s.ExactOf kind := by
  constructor
  · rintro ⟨hq, he⟩ kind
    cases kind with
    | queues => exact hq
    | exchanges => exact he
  · exact fun h => ⟨h .queues, h .exchanges⟩

def names (s : NamedRecords json) (kind : Kind) : List (Kind × GoString) :=
  s.saved.keys.filter fun n => n.1 = kind

theorem length_savedOf {s : NamedRecords json} (h : ∀ n r, s.saved.get n = some r → r.1 = n.1)
    (kind : Kind) : (s.savedOf kind).length = (s.names kind).length := by
  unfold savedOf names
  rw [GoMap.vals_eq_filterMap, filterMap_filterMap, length_filterMap_eq_countP,
    ← countP_eq_length_filter]
  refine countP_congr fun n hn => ?_
  obtain ⟨r, hr⟩ := GoMap.mem_keys_iff.mp hn
  rw [hr, Option.bind_some, AnyMeta.isSome_ofKind, h n r hr, decide_eq_true_iff]

theorem filter_under {s : NamedRecords json} {l : List (Kind × GoString)}
    (h : ∀ n ∈ l, s.Inside n) (kind : Kind) :
    l.filter (under s.store.root kind ∘ recordPath s.store.root) =
      l.filter fun n => n.1 = kind := by
  refine filter_congr fun n hn => ?_
  rw [Bool.eq_iff_iff, decide_eq_true_iff]
  exact ⟨fun hu => under_unique (h n hn) hu, fun heq => heq ▸ h n hn⟩

theorem Mirrored.docs_perm {s : NamedRecords json} (h : s.Mirrored) (kind : Kind) :
    ((s.store.kvs.keys.filter (under s.store.root kind)).filterMap s.store.kvs.get).Perm
      ((s.savedOf kind).map (json.marshal kind)) := by
  refine (h.mirrors.filter_perm (under s.store.root kind)).trans (.of_eq ?_)
  unfold savedOf
  rw [filter_under h.inside, GoMap.vals_eq_filterMap, filterMap_filterMap,
    filterMap_filter, map_filterMap, map_filterMap]
  refine filterMap_congr fun n hn => ?_
  obtain ⟨⟨kind', m⟩, hr⟩ := GoMap.mem_keys_iff.mp hn
  obtain rfl : kind' = n.1 := h.kind n _ hr
  by_cases hkind : n.1 = kind
  · subst hkind
    simp [hr, AnyMeta.ofKind_mk, doc]
  · simp [hr, hkind, AnyMeta.ofKind]

theorem Mirrored.exact {s : NamedRecords json} (h : s.Mirrored) : s.Exact := by
  rw [exact_iff]
  intro kind r
  have hdocs := r.perm.trans (h.docs_perm kind)
  have hload : s.store.load kind r = some (r.docs.filterMap (json.unmarshal kind)) := by
    refine mapM_eq_filterMap fun d hd => ?_
    obtain ⟨m, -, rfl⟩ := mem_map.mp (hdocs.mem_iff.mp hd)
    rw [json.unmarshal_marshal]
    rfl
  refine ⟨_, hload, (hdocs.filterMap _).trans (.of_eq ?_)⟩
  rw [filterMap_map]
  exact (filterMap_congr fun m _ => json.unmarshal_marshal kind m).trans filterMap_some

theorem ExactOf.length_eq {s : NamedRecords json} {kind : Kind} (h : s.ExactOf kind)
    (hkind : ∀ n r, s.saved.get n = some r → r.1 = n.1) :
    (s.store.kvs.keys.filter (under s.store.root kind)).length = (s.names kind).length := by
  obtain ⟨l, hl, hperm⟩ := h (s.store.reading kind)
  rw [← length_savedOf hkind, ← hperm.length_eq, length_of_mapM hl]
  exact (GoMap.length_filterMap_get fun k hk => mem_of_mem_filter hk).symm

/-! ## One call -/

def put (s : NamedRecords json) (kind : Kind) (m : kind.Meta) : NamedRecords json :=
  ⟨s.store.save kind m, s.saved.set (kind, kind.name m) ⟨kind, m⟩⟩

def drop (s : NamedRecords json) (kind : Kind) (name : GoString) : NamedRecords json :=
  ⟨s.store.delete kind name, s.saved.del (kind, name)⟩

section Call

variable {s : NamedRecords json} {kind : Kind} {m : kind.Meta} {name : GoString} (h : s.Mirrored)
include h

theorem kind_put (m : kind.Meta) :
    ∀ n r, (s.put kind m).saved.get n = some r → r.1 = n.1 := by
  intro n r hr
  unfold put at hr
  rw [GoMap.get_set] at hr
  split at hr
  · next heq =>
    cases hr
    rw [heq]
  · exact h.kind n r hr

theorem kind_drop (kind : Kind) (name : GoString) :
    ∀ n r, (s.drop kind name).saved.get n = some r → r.1 = n.1 := by
  intro n r hr
  unfold drop at hr
  rw [GoMap.get_del] at hr
  split at hr
  · cases hr
  · exact h.kind n r hr

theorem inside_put (hin : s.Inside (kind, kind.name m)) :
    ∀ n ∈ (s.put kind m).saved.keys, s.Inside n :=
  GoMap.forall_mem_keys_set h.inside hin _

theorem inside_drop (kind : Kind) (name : GoString) :
    ∀ n ∈ (s.drop kind name).saved.keys, s.Inside n :=
  GoMap.forall_mem_keys_del h.inside _

theorem mirrored_put (hin : s.Inside (kind, kind.name m)) (hfree : s.Free (kind, kind.name m)) :
    (s.put kind m).Mirrored where
  mirrors := h.mirrors.set hfree ⟨kind, m⟩
  inside := inside_put h hin
  kind := kind_put h m

theorem mirrored_drop (hfree : s.Free (kind, name)) : (s.drop kind name).Mirrored where
  mirrors := h.mirrors.del hfree
  inside := inside_drop h kind name
  kind := kind_drop h kind name

theorem inside_of_exact (hexact : (s.put kind m).ExactOf kind) :
    s.Inside (kind, kind.name m) := by
  by_contra hin
  have hnew : (kind, kind.name m) ∉ s.saved.keys := fun hmem => hin (h.inside _ hmem)
  have hlen := hexact.length_eq (kind_put h m)
  have hnames : ((s.put kind m).names kind).length = (s.names kind).length + 1 := by
    refine ((GoMap.keys_set_perm_of_not_mem hnew _).filter _).length_eq.trans ?_
    rw [filter_cons, if_pos (decide_eq_true rfl)]
    rfl
  have hkeys : ((s.put kind m).store.kvs.keys.filter (under s.store.root kind)).length =
      (s.store.kvs.keys.filter (under s.store.root kind)).length := by
    by_cases hmem : recordPath s.store.root (kind, kind.name m) ∈ s.store.kvs.keys
    · exact ((GoMap.keys_set_perm_of_mem hmem _).filter _).length_eq
    · refine ((GoMap.keys_set_perm_of_not_mem hmem _).filter _).length_eq.trans ?_
      rw [filter_cons_of_neg hin]
  have hbefore := h.mirrors.length_filter (under s.store.root kind)
  rw [filter_under h.inside] at hbefore
  have hroot : (s.put kind m).store.root = s.store.root := rfl
  rw [hnames, hroot, hkeys, hbefore] at hlen
  exact Nat.succ_ne_self _ hlen.symm

theorem free_of_exact_put (hin : s.Inside (kind, kind.name m))
    (hexact : (s.put kind m).ExactOf kind) : s.Free (kind, kind.name m) := by
  by_contra hfree
  have hlt := h.mirrors.length_set_lt hfree hin ⟨kind, m⟩ (json.marshal kind m)
  have hnames := congrArg List.length (filter_under (inside_put h hin) kind)
  exact hlt.ne ((hexact.length_eq (kind_put h m)).trans hnames.symm)

theorem free_of_exact_drop (hexact : (s.drop kind name).Exact) : s.Free (kind, name) := by
  by_contra hfree
  obtain ⟨n, hn⟩ := not_forall.mp hfree
  obtain ⟨hmem, hn⟩ := Classical.not_imp.mp hn
  have heq := (Classical.not_imp.mp hn).1
  have hin : under s.store.root n.1 (recordPath s.store.root (kind, name)) = true :=
    heq ▸ h.inside n hmem
  have hlt := h.mirrors.length_del_lt hfree hin
  have hlen := ((exact_iff _).mp hexact n.1).length_eq (kind_drop h kind name)
  have hnames := congrArg List.length (filter_under (inside_drop h kind name) n.1)
  exact hlt.ne (hlen.trans hnames.symm)

theorem clear_of_exact_put (hexact : (s.put kind m).Exact) :
    s.Inside (kind, kind.name m) ∧ s.Free (kind, kind.name m) := by
  have hkind := (exact_iff _).mp hexact kind
  have hin := inside_of_exact h hkind
  exact ⟨hin, free_of_exact_put h hin hkind⟩

end Call

theorem mirrored_step {s : NamedRecords json} {c : RecordCall} (h : s.Mirrored) (hc : s.Clear c) :
    (s.step c).Mirrored := by
  cases c with
  | saveQueue m => exact mirrored_put h hc.1 hc.2
  | deleteQueue name => exact mirrored_drop h hc
  | saveExchange m => exact mirrored_put h hc.1 hc.2
  | deleteExchange name => exact mirrored_drop h hc

theorem clear_of_exact {s : NamedRecords json} {c : RecordCall} (h : s.Mirrored)
    (hexact : (s.step c).Exact) : s.Clear c := by
  cases c with
  | saveQueue m => exact clear_of_exact_put h hexact
  | deleteQueue name => exact free_of_exact_drop h hexact
  | saveExchange m => exact clear_of_exact_put h hexact
  | deleteExchange name => exact free_of_exact_drop h hexact

/-- In every sequence of calls, `LoadQueues` and `LoadExchanges` return after each call what a map
keyed by kind and name would, exactly if each call is clear. -/
theorem loadRecords_exact_iff (json : RecordJson) (root : GoString) (calls : List RecordCall) :
    Along step (fun s c => (s.step c).Exact) (new json root) calls ↔
      Along step Clear (new json root) calls :=
  Along.iff_of_kept (I := Mirrored) (fun _ _ h hc => mirrored_step h hc)
    (fun _ _ h => ⟨clear_of_exact h, fun hc => (mirrored_step h hc).exact⟩) (mirrored_new root)

/-! ## Plain names -/

def target : RecordCall → Kind × GoString
  | .saveQueue m => (.queues, m.name)
  | .deleteQueue name => (.queues, name)
  | .saveExchange m => (.exchanges, m.name)
  | .deleteExchange name => (.exchanges, name)

theorem recordPath_plain (root : GoString) {n : Kind × GoString} (h : PlainName n.2) :
    recordPath root n = rootDir root ++ (n.1.segment ++ 0x2f :: n.2) :=
  (pathJoin_plain_plain root (plainName_segment n.1) h).trans (append_assoc _ _ _)

theorem inside_of_plain (s : NamedRecords json) {n : Kind × GoString} (h : PlainName n.2) :
    s.Inside n := by
  unfold Inside under
  rw [ isPrefixOf_iff_prefix, dirPath_eq, recordPath_plain _ h,
    prefix_append_right_inj]
  exact prefix_append _ _

theorem recordPath_inj {root : GoString} {n n' : Kind × GoString} (h : PlainName n.2)
    (h' : PlainName n'.2) (heq : recordPath root n = recordPath root n') : n = n' := by
  rw [recordPath_plain root h, recordPath_plain root h', append_cancel_left_eq] at heq
  obtain ⟨hseg, hname⟩ := append_cons_inj (plainName_segment n.1).2.2.2
    (plainName_segment n'.1).2.2.2 heq
  exact Prod.ext (kind_unique (hseg ▸ prefix_rfl)) hname

theorem keys_step {s : NamedRecords json} (hs : ∀ n ∈ s.saved.keys, PlainName n.2)
    {c : RecordCall} (hc : PlainName (target c).2) :
    ∀ n ∈ (s.step c).saved.keys, PlainName n.2 := by
  cases c with
  | saveQueue m => exact GoMap.forall_mem_keys_set hs hc _
  | deleteQueue name => exact GoMap.forall_mem_keys_del hs _
  | saveExchange m => exact GoMap.forall_mem_keys_set hs hc _
  | deleteExchange name => exact GoMap.forall_mem_keys_del hs _

theorem clear_of_free {s : NamedRecords json} {c : RecordCall} (hin : s.Inside (target c))
    (hfree : s.Free (target c)) : s.Clear c := by
  cases c with
  | saveQueue m => exact ⟨hin, hfree⟩
  | deleteQueue name => exact hfree
  | saveExchange m => exact ⟨hin, hfree⟩
  | deleteExchange name => exact hfree

theorem clear_of_plain {s : NamedRecords json} (hs : ∀ n ∈ s.saved.keys, PlainName n.2)
    {calls : List RecordCall} (h : ∀ c ∈ calls, PlainName (target c).2) :
    Along step Clear s calls := by
  refine Along.of_inv (I := fun s => ∀ n ∈ s.saved.keys, PlainName n.2) ?_ ?_ hs
    (Along.of_forall h s)
  · intro s c hs hc
    exact keys_step hs hc
  · intro s c hs hc
    exact clear_of_free (inside_of_plain s hc) fun n hn heq => recordPath_inj (hs n hn) hc heq

/-- With plain names, `LoadQueues` and `LoadExchanges` return after each call what was saved. -/
theorem loadRecords_of_plain (json : RecordJson) (root : GoString) (calls : List RecordCall)
    (h : ∀ c ∈ calls, PlainName (target c).2) :
    Along step (fun s c => (s.step c).Exact) (new json root) calls :=
  Along.of_inv (fun _ _ hs hc => mirrored_step hs hc) (fun _ _ hs hc => (mirrored_step hs hc).exact)
    (mirrored_new root) (clear_of_plain (fun _ hn => absurd hn not_mem_nil) h)

def recordsThemselves : RecordJson where
  Doc := AnyMeta
  marshal kind m := ⟨kind, m⟩
  unmarshal := AnyMeta.ofKind
  unmarshal_marshal := AnyMeta.ofKind_mk

def namedQueue (name : GoString) : QueueMeta := ⟨name, false, false, false, []⟩

/-- A queue is saved, another one beside it, and the first is deleted. -/
theorem loadRecords_of_plain_two :
    let calls := [.saveQueue (namedQueue (str "a")), .saveQueue (namedQueue (str "b")),
      .deleteQueue (str "a")]
    (calls.foldl step (new recordsThemselves (str "/gomq"))).savedOf .queues =
        [namedQueue (str "b")] ∧
      Along step (fun s c => (s.step c).Exact) (new recordsThemselves (str "/gomq")) calls :=
  ⟨rfl, loadRecords_of_plain _ _ _ (by decide)⟩

/-- The queues `a/b` and `a//b` have one path, so one of the two is left. -/
theorem loadRecords_collides :
    let s := [RecordCall.saveQueue (namedQueue (str "a/b")),
      .saveQueue (namedQueue (str "a//b"))].foldl step (new recordsThemselves (str "/gomq"))
    s.store.kvs.keys = [str "/gomq/queues/a/b"] ∧
      s.saved.keys = [(.queues, str "a//b"), (.queues, str "a/b")] ∧ ¬ s.Exact := by
  have hlen : ∀ s : NamedRecords recordsThemselves,
      (s.store.reading .queues).docs.length ≠ (s.savedOf .queues).length → ¬ s.Exact := by
    intro s hne hexact
    obtain ⟨l, hl, hperm⟩ := hexact.1 (s.store.reading .queues)
    exact hne ((length_of_mapM hl).symm.trans hperm.length_eq)
  exact ⟨by decide, by decide, hlen _ (by decide)⟩

end NamedRecords

end Gomq.Broker
