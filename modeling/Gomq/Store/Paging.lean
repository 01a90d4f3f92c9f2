import Gomq.Store.Extended
import Gomq.Lib.Spill
import Gomq.Lib.Run
import Mathlib.Data.List.GetD

/-!
# Order of a paged queue

`pageOldest` moves the older half of a queue into a page file and keeps the newer half in memory;
`LoadPage` appends what it reads to the queue, behind the newer half. A run of the store carries
the history of one queue: the payloads enqueued and returned, and where each of them is, as numbers
in a `Spill`. `placed_run` says that no payload is lost in any run, and that the payloads come back
in order in those runs that load no page behind a later message.
-/

namespace Gomq.Store

open Wire Broker ExtendedMessageStore List

/-! ## What the operations do -/

namespace ExtendedMessageStore

variable {z : Zlib} {es : ExtendedMessageStore} {queueName : GoString}

/-- The page that is due for a queue: its path and the number of messages for it. -/
def pageDue (es : ExtendedMessageStore) (queueName : GoString) : Option (PagePath × ℕ) :=
  match es.pager with
  | none => none
  | some pm =>
    if es.opts.maxInMemoryMessages < (es.inMemory queueName).length then
      some (pm.nextPath queueName, (es.inMemory queueName).length / 2)
    else none

/-- The store after `n` messages of a queue have been written to the next page. -/
def pagedOut (es : ExtendedMessageStore) (pm : PageManager) (queueName : GoString) (n : ℕ) :
    ExtendedMessageStore :=
  { es with
    queues := es.queues.set queueName ((es.inMemory queueName).drop n)
    pager := some { pm with seq := pm.seq + 1 }
    disk := es.disk.set (pm.nextPath queueName) (writePage ((es.inMemory queueName).take n)) }

theorem enqueueExt_of_notDue (hc : es.compressor = none) {msg : Message}
    (hdue : (es.enqueue queueName msg).pageDue queueName = none) :
    es.enqueueExt z none queueName msg = (none, es.enqueue queueName msg) := by
  have hpacked : es.packed z msg = msg := by unfold packed; rw [hc]
  unfold enqueueExt
  rw [hpacked]
  dsimp only
  unfold pageDue at hdue
  cases hpm : (es.enqueue queueName msg).pager with
  | none => rfl
  | some pm =>
    rw [hpm] at hdue
    dsimp only at hdue ⊢
    split at hdue
    · cases hdue
    · rename_i hfew
      rw [if_neg hfew]

theorem enqueueExt_of_due (hc : es.compressor = none) {msg : Message} {path : PagePath} {n : ℕ}
    (hdue : (es.enqueue queueName msg).pageDue queueName = some (path, n)) :
    ∃ pm, es.pager = some pm ∧ path = pm.nextPath queueName ∧
      n = ((es.enqueue queueName msg).inMemory queueName).length / 2 ∧
      es.enqueueExt z none queueName msg =
        (none, (es.enqueue queueName msg).pagedOut pm queueName n) := by
  have hpacked : es.packed z msg = msg := by unfold packed; rw [hc]
  unfold pageDue at hdue
  cases hpm : (es.enqueue queueName msg).pager with
  | none => rw [hpm] at hdue; cases hdue
  | some pm =>
    rw [hpm] at hdue
    dsimp only at hdue
    split at hdue
    · rename_i hmany
      obtain ⟨rfl, rfl⟩ := Prod.mk.inj (Option.some.inj hdue)
      refine ⟨pm, hpm, rfl, rfl, ?_⟩
      unfold enqueueExt
      rw [hpacked]
      dsimp only
      rw [hpm]
      dsimp only
      rw [if_pos hmany]
      unfold pageOldest
      dsimp only
      rw [if_neg (not_le.mpr hmany)]
      rfl
    · cases hdue

theorem foldl_enqueue (queueName : GoString) (msgs : List Message) (es : ExtendedMessageStore) :
    let es' := msgs.foldl (fun es m => es.enqueue queueName m) es
    es'.inMemory queueName = es.inMemory queueName ++ msgs ∧
      (∀ other, other ≠ queueName → es'.inMemory other = es.inMemory other) ∧
      es'.disk = es.disk ∧ es'.pager = es.pager ∧ es'.compressor = es.compressor := by
  induction msgs generalizing es with
  | nil => exact ⟨(append_nil _).symm, fun _ _ => rfl, rfl, rfl, rfl⟩
  | cons m msgs ih =>
    obtain ⟨hself, hother, hdisk, hpager, hcomp⟩ := ih (es.enqueue queueName m)
    refine ⟨?_, ?_, hdisk, hpager, hcomp⟩
    · rw [foldl_cons, hself, inMemory_enqueue_self, append_assoc, singleton_append]
    · intro other hne
      rw [foldl_cons, hother other hne, inMemory_enqueue_ne hne]

theorem loadPage_cases (es : ExtendedMessageStore) (queueName : GoString) (path : PagePath) :
    (∃ e, es.loadPage none queueName path = (some e, es)) ∨
      ∃ content msgs, es.disk.get path = some content ∧ readPage content = .ok msgs ∧
        es.loadPage none queueName path =
          (none, msgs.foldl (fun es m => es.enqueue queueName m)
            { es with disk := es.disk.del path }) := by
  obtain ⟨queues, compressor, _ | pm, opts, disk⟩ := es
  · exact .inl ⟨_, rfl⟩
  · unfold loadPage load
    dsimp only
    cases hf : disk.get path with
    | none => exact .inl ⟨_, rfl⟩
    | some content =>
      cases hr : readPage content with
      | error e =>
        refine .inl ⟨.readPage (some e), ?_⟩
        simp only [reduceCtorEq, if_false, hr]
      | ok msgs =>
        refine .inr ⟨content, msgs, rfl, hr, ?_⟩
        simp only [reduceCtorEq, if_false, hr]

end ExtendedMessageStore

/-! ## Runs -/

/-- An operation on the store, with the file operation that fails in it. -/
inductive StoreAction where
  | enqueueExt (queueName : GoString) (msg : Message) (fault : Option Fault)
  | dequeueExt (queueName : GoString)
  | loadPage (queueName : GoString) (pagePath : PagePath) (fault : Option Fault)

/-- A store with the history of one queue: the payloads that were enqueued and returned, and where
each of them is. -/
structure PagedRun where
  store : ExtendedMessageStore
  enqueued : List Bytes
  returned : List Bytes
  numbers : Spill PagePath

namespace PagedRun

def start (opts : StoreOptions) : PagedRun :=
  ⟨newExtendedMessageStore ∅ ∅ opts, [], [], .empty⟩

def payload (r : PagedRun) (k : ℕ) : Bytes := r.enqueued.getD k []

def numbersPushed (r : PagedRun) (q : GoString) (msg : Message) : Spill PagePath :=
  match (r.store.enqueue q msg).pageDue q with
  | none => r.numbers.push
  | some (path, n) => r.numbers.push.pageOut path n

/-- One operation, as the queue `q` sees it. -/
def step (z : Zlib) (q : GoString) (r : PagedRun) : StoreAction → PagedRun
  | .enqueueExt queueName msg fault =>
    let store := (r.store.enqueueExt z fault queueName msg).2
    if queueName = q then
      { r with
        store := store
        enqueued := r.enqueued ++ [msg.payload]
        numbers := r.numbersPushed q msg }
    else { r with store := store }
  | .dequeueExt queueName =>
    match r.store.dequeueExt z queueName with
    | (none, store) => { r with store := store }
    | (some msg, store) =>
      if queueName = q then
        { r with
          store := store
          returned := r.returned ++ [msg.payload]
          numbers := r.numbers.take }
      else { r with store := store }
  | .loadPage queueName pagePath fault =>
    match r.store.loadPage fault queueName pagePath with
    | (some _, store) => { r with store := store }
    | (none, store) =>
      if queueName = q then { r with store := store, numbers := r.numbers.load pagePath }
      else { r with store := store }

/-- No file operation fails, the pages loaded are those of the queue they are loaded into, and a
message is dequeued only when no page is left of which it comes after all messages. -/
def Legal (q : GoString) (r : PagedRun) : StoreAction → Prop
  | .enqueueExt _ _ fault => fault = none
  | .dequeueExt queueName =>
    queueName = q → ∀ x ∈ r.numbers.memory.head?, ∀ page ∈ r.numbers.pages.vals,
      ¬∀ y ∈ page, y < x
  | .loadPage queueName pagePath fault => fault = none ∧ pagePath.queueName = queueName

def Fitting (q : GoString) (_ : PagedRun) : StoreAction → Prop
  | .enqueueExt queueName msg _ => queueName = q → Fits msg
  | _ => True

/-- A page is loaded only if everything in memory was enqueued before its messages. -/
def LoadsInOrder (q : GoString) (r : PagedRun) : StoreAction → Prop
  | .loadPage queueName pagePath _ =>
    queueName = q → ∀ page ∈ r.numbers.pages.get pagePath, ∀ x ∈ r.numbers.memory,
      ∀ y ∈ page, x < y
  | _ => True

end PagedRun

open PagedRun

/-! ## Where the payloads are -/

/-- A page and the file of the same path: both are missing, or the file holds the payloads of the
page. -/
def PageHolds (payload : ℕ → Bytes) : Option (List ℕ) → Option Bytes → Prop
  | none, none => True
  | some page, some content =>
    ∃ msgs, readPage content = .ok msgs ∧ msgs.map Message.payload = page.map payload ∧
      ∀ m ∈ msgs, Fits m
  | _, _ => False

/-- Every payload that was enqueued is in memory, in exactly one page file, or returned: `numbers`
says where it is, and the memory, the files and the history hold what it says. -/
structure Placed (q : GoString) (r : PagedRun) : Prop where
  count : r.numbers.count = r.enqueued.length
  once : r.numbers.Conserved
  memory : (r.store.inMemory q).map Message.payload = r.numbers.memory.map r.payload
  returned : r.returned = r.numbers.taken.map r.payload
  files : ∀ path, path.queueName = q →
    PageHolds r.payload (r.numbers.pages.get path) (r.store.disk.get path)
  own : ∀ path page, r.numbers.pages.get path = some page → path.queueName = q

/-- What keeps it so: nothing is compressed, what is in memory can be written to a page, and the
next page gets a path of its own. -/
structure Kept (q : GoString) (r : PagedRun) : Prop extends Placed q r where
  plain : r.store.compressor = none
  fits : ∀ m ∈ r.store.inMemory q, Fits m
  fresh : ∀ pm, r.store.pager = some pm → ∀ path content,
    r.store.disk.get path = some content → path.seq ≤ pm.seq

theorem PageHolds.congr {f g : ℕ → Bytes} {page : Option (List ℕ)} {content : Option Bytes}
    (h : PageHolds f page content) (hfg : ∀ ns ∈ page, ∀ k ∈ ns, f k = g k) :
    PageHolds g page content := by
  cases page with
  | none => cases content with
    | none => trivial
    | some _ => exact h
  | some ns => cases content with
    | none => exact h
    | some _ =>
      obtain ⟨msgs, hread, hmap, hfits⟩ := h
      refine ⟨msgs, hread, hmap.trans (map_congr_left fun k hk => ?_), hfits⟩
      exact hfg ns rfl k hk

section Steps

variable {q : GoString} {r : PagedRun}

theorem Placed.lt_length (h : Placed q r) {k : ℕ}
    (hk : k ∈ r.numbers.taken ∨ k ∈ r.numbers.memory ∨
      ∃ path page, r.numbers.pages.get path = some page ∧ k ∈ page) : k < r.enqueued.length := by
  rw [← h.count]
  apply h.once.lt_count
  rcases hk with hk | hk | ⟨path, page, hpage, hk⟩
  · exact mem_append_left _ hk
  · exact mem_append_right _ (mem_append_left _ hk)
  · refine mem_append_right _ (mem_append_right _ ?_)
    exact mem_flatten.mpr ⟨page, GoMap.mem_vals_iff.mpr ⟨path, hpage⟩, hk⟩

theorem Kept.push (h : Kept q r) {msg : Message} (hfit : Fits msg) :
    Kept q
      { r with
        store := r.store.enqueue q msg
        enqueued := r.enqueued ++ [msg.payload]
        numbers := r.numbers.push } := by
  have hold : ∀ k, k < r.enqueued.length →
      r.payload k = (r.enqueued ++ [msg.payload]).getD k [] := fun k hk =>
    (getD_append _ _ _ _ hk).symm
  have hnew : (r.enqueued ++ [msg.payload]).getD r.numbers.count [] = msg.payload := by
    rw [h.count, getD_append_right _ _ _ _ (le_refl _), Nat.sub_self]
    rfl
  refine ⟨⟨?_, h.once.push, ?_, ?_, ?_, h.own⟩, h.plain, ?_, h.fresh⟩
  · simp [Spill.push, h.count]
  · show ((r.store.enqueue q msg).inMemory q).map Message.payload =
      (r.numbers.memory ++ [r.numbers.count]).map fun k => (r.enqueued ++ [msg.payload]).getD k []
    rw [inMemory_enqueue_self, map_append, map_append, h.memory]
    congr 1
    · exact map_congr_left fun k hk => hold k (h.lt_length (.inr (.inl hk)))
    · simp only [map_cons, map_nil, hnew]
  · rw [h.returned]
    exact map_congr_left fun k hk => hold k (h.lt_length (.inl hk))
  · intro path hpath
    refine (h.files path hpath).congr fun page hpage k hk => ?_
    exact hold k (h.lt_length (.inr (.inr ⟨path, page, hpage, hk⟩)))
  · intro m hm
    rw [inMemory_enqueue_self] at hm
    rcases mem_append.mp hm with hm | hm
    · exact h.fits m hm
    · rw [mem_singleton.mp hm]
      exact hfit

theorem Kept.nextPath_free (h : Kept q r) {pm : PageManager} (hpm : r.store.pager = some pm)
    (queueName : GoString) : r.store.disk.get (pm.nextPath queueName) = none := by
  by_contra hne
  obtain ⟨content, hcontent⟩ := Option.ne_none_iff_exists'.mp hne
  have : pm.seq + 1 ≤ pm.seq := h.fresh pm hpm _ content hcontent
  omega

theorem Kept.nextPage_free (h : Kept q r) {pm : PageManager} (hpm : r.store.pager = some pm) :
    r.numbers.pages.get (pm.nextPath q) = none := by
  have hfile := h.files (pm.nextPath q) rfl
  rw [h.nextPath_free hpm] at hfile
  cases hp : r.numbers.pages.get (pm.nextPath q) with
  | none => rfl
  | some page =>
    rw [hp] at hfile
    exact hfile.elim

theorem fresh_pagedOut {pm : PageManager} (queueName : GoString) (content : Bytes)
    (hfresh : ∀ path content, r.store.disk.get path = some content → path.seq ≤ pm.seq)
    (path : PagePath) (old : Bytes)
    (h : (r.store.disk.set (pm.nextPath queueName) content).get path = some old) :
    path.seq ≤ pm.seq + 1 := by
  rw [GoMap.get_set] at h
  split at h
  · rename_i heq
    rw [heq]
    exact le_refl _
  · exact Nat.le_succ_of_le (hfresh path old h)

theorem Kept.pageOut (h : Kept q r) {pm : PageManager} (hpm : r.store.pager = some pm) (n : ℕ) :
    Kept q
      { r with
        store := r.store.pagedOut pm q n
        numbers := r.numbers.pageOut (pm.nextPath q) n } := by
  have hmem : (r.store.pagedOut pm q n).inMemory q = (r.store.inMemory q).drop n :=
    GoMap.getD_set_self _ _ _ _
  have htake : ∀ m ∈ (r.store.inMemory q).take n, Fits m :=
    fun m hm => h.fits m (mem_of_mem_take hm)
  refine ⟨⟨h.count, h.once.pageOut (h.nextPage_free hpm) n, ?_, h.returned, ?_, ?_⟩,
    h.plain, ?_, ?_⟩
  · show ((r.store.pagedOut pm q n).inMemory q).map Message.payload =
      (r.numbers.memory.drop n).map r.payload
    rw [hmem, map_drop, h.memory, map_drop]
  · intro path hpath
    show PageHolds r.payload
      ((r.numbers.pages.set (pm.nextPath q) (r.numbers.memory.take n)).get path)
      ((r.store.disk.set (pm.nextPath q) (writePage ((r.store.inMemory q).take n))).get path)
    rw [GoMap.get_set, GoMap.get_set]
    split
    · refine ⟨_, readPage_writePage htake, ?_, ?_⟩
      · rw [map_map, map_take, map_take, ← h.memory]
        rfl
      · intro m hm
        obtain ⟨m', hm', rfl⟩ := mem_map.mp hm
        exact (htake m' hm').restored
    · exact h.files path hpath
  · intro path page hpage
    change (r.numbers.pages.set (pm.nextPath q) _).get path = some page at hpage
    rw [GoMap.get_set] at hpage
    split at hpage
    · rename_i heq
      rw [heq]
      rfl
    · exact h.own path page hpage
  · intro m hm
    rw [hmem] at hm
    exact h.fits m (mem_of_mem_drop hm)
  · intro pm' hpm'
    obtain rfl := Option.some.inj hpm'
    exact fresh_pagedOut q _ (h.fresh pm hpm)

theorem Kept.take (h : Kept q r) {msg : Message} {rest : List Message}
    (hmsg : r.store.inMemory q = msg :: rest) :
    Kept q
      { r with
        store := { r.store with queues := r.store.queues.set q rest }
        returned := r.returned ++ [msg.payload]
        numbers := r.numbers.take } := by
  have hmemory := h.memory
  rw [hmsg, map_cons] at hmemory
  cases hnum : r.numbers.memory with
  | nil =>
    rw [hnum] at hmemory
    cases hmemory
  | cons x numbers =>
    rw [hnum, map_cons] at hmemory
    obtain ⟨hx, hrest⟩ := List.cons.inj hmemory
    have htake : r.numbers.take =
        { r.numbers with memory := numbers, taken := r.numbers.taken ++ [x] } := by
      unfold Spill.take
      rw [hnum]
    have hmem : ({ r.store with queues := r.store.queues.set q rest } :
        ExtendedMessageStore).inMemory q = rest := GoMap.getD_set_self _ _ _ _
    refine ⟨⟨?_, h.once.take, ?_, ?_, ?_, ?_⟩, h.plain, ?_, h.fresh⟩
    · rw [htake]
      exact h.count
    · dsimp only
      rw [hmem, htake]
      exact hrest
    · dsimp only
      rw [htake, h.returned, hx, map_append]
      rfl
    · rw [htake]
      exact h.files
    · rw [htake]
      exact h.own
    · intro m hm
      rw [hmem] at hm
      exact h.fits m (by rw [hmsg]; exact mem_cons_of_mem _ hm)

theorem Kept.load (h : Kept q r) {path : PagePath} (hpath : path.queueName = q) {content : Bytes}
    {msgs : List Message} (hfile : r.store.disk.get path = some content)
    (hread : readPage content = .ok msgs) :
    Kept q
      { r with
        store := msgs.foldl (fun es m => es.enqueue q m)
          { r.store with disk := r.store.disk.del path }
        numbers := r.numbers.load path } := by
  have hholds := h.files path hpath
  rw [hfile] at hholds
  cases hpage : r.numbers.pages.get path with
  | none =>
    rw [hpage] at hholds
    exact hholds.elim
  | some page =>
    rw [hpage] at hholds
    obtain ⟨msgs', hread', hpayloads, hfits⟩ := hholds
    obtain rfl := Except.ok.inj (hread'.symm.trans hread)
    obtain ⟨hmem, -, hdisk, hpager, hcomp⟩ := foldl_enqueue q
      msgs' { r.store with disk := r.store.disk.del path }
    have hload : r.numbers.load path =
        { r.numbers with
          memory := r.numbers.memory ++ page
          pages := r.numbers.pages.del path } := by
      unfold Spill.load
      rw [hpage]
    refine ⟨⟨?_, h.once.load path, ?_, ?_, ?_, ?_⟩, ?_, ?_, ?_⟩
    · rw [hload]
      exact h.count
    · dsimp only
      rw [hmem, hload, map_append, map_append, hpayloads]
      exact congrArg (· ++ _) h.memory
    · rw [hload]
      exact h.returned
    · intro other hother
      dsimp only
      rw [hdisk, hload]
      dsimp only
      rw [GoMap.get_del, GoMap.get_del]
      split
      · trivial
      · exact h.files other hother
    · intro other page' hpage'
      rw [hload] at hpage'
      dsimp only at hpage'
      rw [GoMap.get_del] at hpage'
      split at hpage'
      · cases hpage'
      · exact h.own other page' hpage'
    · exact hcomp.trans h.plain
    · intro m hm
      dsimp only at hm
      rw [hmem] at hm
      rcases mem_append.mp hm with hm | hm
      · exact h.fits m hm
      · exact hfits m hm
    · intro pm hpm other old hold
      dsimp only at hpm hold
      rw [hpager] at hpm
      rw [hdisk, GoMap.get_del] at hold
      split at hold
      · cases hold
      · exact h.fresh pm hpm other old hold

/-- An operation on another queue: it may write or delete pages, none of them of this queue. -/
theorem Kept.other (h : Kept q r) {store : ExtendedMessageStore}
    (hmem : store.inMemory q = r.store.inMemory q)
    (hcomp : store.compressor = r.store.compressor)
    (hdisk : ∀ path, path.queueName = q → store.disk.get path = r.store.disk.get path)
    (hfresh : ∀ pm, store.pager = some pm → ∀ path content,
      store.disk.get path = some content → path.seq ≤ pm.seq) :
    Kept q { r with store := store } := by
  refine ⟨⟨h.count, h.once, ?_, h.returned, ?_, h.own⟩, hcomp.trans h.plain, ?_, hfresh⟩
  · dsimp only
    rw [hmem]
    exact h.memory
  · intro path hpath
    dsimp only
    rw [hdisk path hpath]
    exact h.files path hpath
  · intro m hm
    rw [hmem] at hm
    exact h.fits m hm

theorem Kept.dequeueExt_cons (h : Kept q r) (z : Zlib) {queueName : GoString} {msg : Message}
    {rest : List Message} (hmsg : r.store.inMemory queueName = msg :: rest) :
    r.store.dequeueExt z queueName =
      (some msg, { r.store with queues := r.store.queues.set queueName rest }) := by
  have hplain : r.store.unpacked z msg = msg := by
    unfold unpacked
    rw [h.plain]
  rw [dequeueExt_of_cons hmsg, hplain]

theorem dequeueExt_nil (z : Zlib) {es : ExtendedMessageStore} {queueName : GoString}
    (h : es.inMemory queueName = []) : es.dequeueExt z queueName = (none, es) := by
  unfold dequeueExt dequeue
  rw [h]

/-- What a step does to the numbers of the queue. -/
inductive NumbersStep (q : GoString) (s : Spill PagePath) : StoreAction → Spill PagePath → Prop
  | same (a : StoreAction) : NumbersStep q s a s
  | push (a : StoreAction) : NumbersStep q s a s.push
  | pageOut (a : StoreAction) {path : PagePath} {n : ℕ} (hfree : s.push.pages.get path = none)
      (hn : n < s.push.memory.length) : NumbersStep q s a (s.push.pageOut path n)
  | take : NumbersStep q s (.dequeueExt q) s.take
  | load (path : PagePath) (fault : Option Fault) :
      NumbersStep q s (.loadPage q path fault) (s.load path)

theorem Kept.enqueueExt (h : Kept q r) (z : Zlib) {msg : Message} (hfit : Fits msg) :
    Kept q (r.step z q (.enqueueExt q msg none)) ∧
      NumbersStep q r.numbers (.enqueueExt q msg none)
        (r.step z q (.enqueueExt q msg none)).numbers := by
  have hpush := h.push hfit
  simp only [step, if_true, numbersPushed]
  cases hdue : (r.store.enqueue q msg).pageDue q with
  | none =>
    rw [enqueueExt_of_notDue h.plain hdue]
    exact ⟨hpush, .push _⟩
  | some due =>
    obtain ⟨path, n⟩ := due
    obtain ⟨pm, hpm, rfl, rfl, heq⟩ :=
      enqueueExt_of_due (z := z) h.plain hdue
    rw [heq]
    have hlen : ((r.store.enqueue q msg).inMemory q).length = r.numbers.push.memory.length := by
      simpa using congrArg List.length hpush.memory
    refine ⟨hpush.pageOut hpm _, .pageOut _ (hpush.nextPage_free hpm) ?_⟩
    rw [hlen]
    simp only [Spill.push, length_append, length_singleton]
    omega

theorem Kept.enqueueExt_other (h : Kept q r) (z : Zlib) {queueName : GoString}
    (hne : q ≠ queueName) (msg : Message) :
    Kept q { r with store := (r.store.enqueueExt z none queueName msg).2 } := by
  cases hdue : (r.store.enqueue queueName msg).pageDue queueName with
  | none =>
    rw [enqueueExt_of_notDue h.plain hdue]
    exact h.other (inMemory_enqueue_ne hne msg) rfl (fun _ _ => rfl) h.fresh
  | some due =>
    obtain ⟨path, n⟩ := due
    obtain ⟨pm, hpm, rfl, -, heq⟩ :=
      enqueueExt_of_due (z := z) h.plain hdue
    rw [heq]
    refine h.other ?_ rfl ?_ ?_
    · show (GoMap.set (GoMap.set r.store.queues queueName _) queueName _).getD q [] =
        r.store.inMemory q
      rw [GoMap.getD_set_ne hne, GoMap.getD_set_ne hne]
      rfl
    · intro path hpath
      refine GoMap.get_set_ne ?_
      rintro rfl
      exact hne hpath.symm
    · intro pm' hpm'
      obtain rfl := Option.some.inj hpm'
      exact fresh_pagedOut queueName _ (h.fresh pm hpm)

theorem Kept.step (h : Kept q r) (z : Zlib) {a : StoreAction} (hlegal : r.Legal q a)
    (hfit : r.Fitting q a) :
    Kept q (r.step z q a) ∧ NumbersStep q r.numbers a (r.step z q a).numbers := by
  cases a with
  | enqueueExt queueName msg fault =>
    obtain rfl : fault = none := hlegal
    by_cases hq : queueName = q
    · subst hq
      exact h.enqueueExt z (hfit rfl)
    · simp only [PagedRun.step, hq, if_false]
      exact ⟨h.enqueueExt_other z (Ne.symm hq) msg, .same _⟩
  | dequeueExt queueName =>
    simp only [PagedRun.step]
    cases hmem : r.store.inMemory queueName with
    | nil =>
      rw [dequeueExt_nil z hmem]
      exact ⟨h, .same _⟩
    | cons msg rest =>
      rw [h.dequeueExt_cons z hmem]
      dsimp only
      split
      · rename_i hq
        subst hq
        exact ⟨h.take hmem, .take⟩
      · rename_i hq
        exact ⟨h.other (GoMap.getD_set_ne (Ne.symm hq)) rfl (fun _ _ => rfl) h.fresh, .same _⟩
  | loadPage queueName path fault =>
    obtain ⟨rfl, hpath⟩ : fault = none ∧ path.queueName = queueName := hlegal
    simp only [PagedRun.step]
    rcases r.store.loadPage_cases queueName path with ⟨e, heq⟩ | ⟨content, msgs, hfile, hread, heq⟩
    · rw [heq]
      exact ⟨h, .same _⟩
    · rw [heq]
      dsimp only
      split
      · rename_i hq
        subst hq
        exact ⟨h.load hpath hfile hread, .load path none⟩
      · rename_i hq
        obtain ⟨-, hother, hdisk, hpager, hcomp⟩ := foldl_enqueue queueName
          msgs { r.store with disk := r.store.disk.del path }
        refine ⟨h.other (hother q (Ne.symm hq)) hcomp ?_ ?_, .same _⟩
        · intro path' hpath'
          rw [hdisk]
          refine GoMap.get_del_ne ?_
          rintro rfl
          exact hq (hpath.symm.trans hpath')
        · intro pm hpm path' content' hcontent
          rw [hpager] at hpm
          rw [hdisk, GoMap.get_del] at hcontent
          split at hcontent
          · cases hcontent
          · exact h.fresh pm hpm path' content' hcontent

theorem inOrder_step {s s' : Spill PagePath} {a : StoreAction} (hnums : r.numbers = s)
    (h : s.InOrder) (hc : s.Conserved) (hstep : NumbersStep q s a s') (hlegal : r.Legal q a)
    (hload : r.LoadsInOrder q a) : s'.InOrder := by
  subst hnums
  cases hstep with
  | same => exact h
  | push => exact h.push hc
  | pageOut _ hfree hn => exact (h.push hc).pageOut hfree hn
  | take => exact h.take hc (hlegal rfl)
  | load path => exact h.load fun page hpage => hload rfl page hpage

end Steps

/-! ## The order of the payloads -/

theorem kept_start {opts : StoreOptions} (hoff : opts.compressionThreshold ≤ 0) (q : GoString) :
    Kept q (start opts) := by
  have hnone : ∀ path, (start opts).store.disk.get path = none := fun _ => rfl
  refine ⟨⟨rfl, Spill.conserved_empty, rfl, rfl, fun _ _ => trivial, nofun⟩, ?_, nofun, ?_⟩
  · exact if_neg (by omega)
  · intro pm _ path content hcontent
    rw [hnone] at hcontent
    cases hcontent

theorem map_getD_range (l : List Bytes) {t : ℕ} (ht : t ≤ l.length) :
    (List.range t).map (fun k => l.getD k []) = l.take t := by
  apply ext_getElem
  · simp [ht]
  · intro k h1 h2
    simp only [length_map, length_range] at h1
    rw [getElem_map, getElem_range, getElem_take,
      getD_eq_getElem _ _ (by omega)]

theorem Placed.returned_in_order {q : GoString} {r : PagedRun} (h : Placed q r)
    (ho : r.numbers.InOrder) : r.returned <+: r.enqueued := by
  have hlen : r.numbers.taken.length ≤ r.enqueued.length := by
    rw [← h.count, ← length_range (n := r.numbers.count), ← h.once.length_eq,
      length_append]
    exact Nat.le_add_right _ _
  rw [h.returned, ho.taken]
  show (List.range r.numbers.taken.length).map (fun k => r.enqueued.getD k []) <+: r.enqueued
  rw [map_getD_range _ hlen]
  exact take_prefix _ _

/-- In every run every payload is in one place; and if no page is loaded behind a later message,
the payloads returned are the first of those enqueued. -/
theorem placed_run (z : Zlib) (opts : StoreOptions) (hoff : opts.compressionThreshold ≤ 0)
    (q : GoString) (as : List StoreAction)
    (hlegal : Along (step z q) (Legal q) (start opts) as)
    (hfit : Along (step z q) (Fitting q) (start opts) as) :
    Placed q (as.foldl (step z q) (start opts)) ∧
      (Along (step z q) (LoadsInOrder q) (start opts) as →
        (as.foldl (step z q) (start opts)).returned <+:
          (as.foldl (step z q) (start opts)).enqueued) := by
  have hkept := (hlegal.and hfit).inv (I := Kept q)
    (fun r a h ha => (h.step z ha.1 ha.2).1) (kept_start hoff q)
  refine ⟨hkept.toPlaced, fun hload => ?_⟩
  have hboth := ((hlegal.and hfit).and hload).inv (I := fun r => Kept q r ∧ r.numbers.InOrder)
    (fun r a h ha => by
      obtain ⟨hk, hstep⟩ := h.1.step z ha.1.1 ha.1.2
      exact ⟨hk, inOrder_step rfl h.2 h.1.once hstep ha.1.1 ha.2⟩)
    ⟨kept_start hoff q, Spill.inOrder_empty⟩
  exact hboth.1.returned_in_order hboth.2

instance decidableLegal (q : GoString) (r : PagedRun) :
    (a : StoreAction) → Decidable (Legal q r a)
  | .enqueueExt _ _ fault => inferInstanceAs (Decidable (fault = none))
  | .dequeueExt queueName =>
    inferInstanceAs (Decidable (queueName = q → ∀ x ∈ r.numbers.memory.head?,
      ∀ page ∈ r.numbers.pages.vals, ¬∀ y ∈ page, y < x))
  | .loadPage queueName pagePath fault =>
    inferInstanceAs (Decidable (fault = none ∧ pagePath.queueName = queueName))

instance decidableFitting (q : GoString) (r : PagedRun) :
    (a : StoreAction) → Decidable (Fitting q r a)
  | .enqueueExt queueName msg _ => inferInstanceAs (Decidable (queueName = q → Fits msg))
  | .dequeueExt _ => inferInstanceAs (Decidable True)
  | .loadPage _ _ _ => inferInstanceAs (Decidable True)

instance decidableLoadsInOrder (q : GoString) (r : PagedRun) :
    (a : StoreAction) → Decidable (LoadsInOrder q r a)
  | .enqueueExt _ _ _ => inferInstanceAs (Decidable True)
  | .dequeueExt _ => inferInstanceAs (Decidable True)
  | .loadPage queueName pagePath _ =>
    inferInstanceAs (Decidable (queueName = q → ∀ page ∈ r.numbers.pages.get pagePath,
      ∀ x ∈ r.numbers.memory, ∀ y ∈ page, x < y))

def enqueueByte (b : UInt8) : StoreAction := .enqueueExt (str "q") (newMessage [b] {}) none

def pagedBytes : List StoreAction :=
  [enqueueByte 1, .dequeueExt (str "q"), enqueueByte 2, enqueueByte 3, enqueueByte 4]

theorem placed_pagedBytes :
    ((0 : ℤ) ≤ 0 ∧
        Along (step zerosCodec (str "q")) (Legal (str "q"))
          (start ⟨0, 2, str "d"⟩) pagedBytes ∧
        Along (step zerosCodec (str "q")) (Fitting (str "q"))
          (start ⟨0, 2, str "d"⟩) pagedBytes ∧
        Along (step zerosCodec (str "q")) (LoadsInOrder (str "q"))
          (start ⟨0, 2, str "d"⟩) pagedBytes) ∧
      Placed (str "q") (pagedBytes.foldl (step zerosCodec (str "q"))
          (start ⟨0, 2, str "d"⟩)) ∧
      (pagedBytes.foldl (step zerosCodec (str "q"))
          (start ⟨0, 2, str "d"⟩)).returned <+:
        (pagedBytes.foldl (step zerosCodec (str "q"))
          (start ⟨0, 2, str "d"⟩)).enqueued :=
  have hrun := placed_run zerosCodec ⟨0, 2, str "d"⟩ (le_refl 0) (str "q") pagedBytes
    (by decide) (by decide)
  ⟨⟨le_refl 0, by decide, by decide, by decide⟩, hrun.1, hrun.2 (by decide)⟩

/-- The third message moves the first to a page, and the page is loaded at once: it comes after the
second and the third, and the second is returned first. -/
def loadedBytes : List StoreAction :=
  [enqueueByte 1, enqueueByte 2, enqueueByte 3, .loadPage (str "q") ⟨str "d", str "q", 1⟩ none,
    .dequeueExt (str "q")]

theorem page_loaded_behind :
    Along (step zerosCodec (str "q")) (Legal (str "q"))
        (start ⟨0, 2, str "d"⟩) loadedBytes ∧
      (loadedBytes.foldl (step zerosCodec (str "q"))
        (start ⟨0, 2, str "d"⟩)).enqueued = [[1], [2], [3]] ∧
      (loadedBytes.foldl (step zerosCodec (str "q"))
        (start ⟨0, 2, str "d"⟩)).returned = [[2]] ∧
      ¬(loadedBytes.foldl (step zerosCodec (str "q"))
          (start ⟨0, 2, str "d"⟩)).returned <+:
        (loadedBytes.foldl (step zerosCodec (str "q"))
          (start ⟨0, 2, str "d"⟩)).enqueued := by
  refine ⟨by decide, by decide, by decide, by decide⟩

end Gomq.Store
