import Gomq.Store.Extended

/-!
# What paging loses

A page record has the payload, the content type, the delivery tag and the enqueue time of a message.
Where a message has anything else, it does not come back from its page (`load_flush_iff`). And the
queue is cut before the page is written, so when the page cannot be written the older half of the
queue is neither in memory nor in a page (`enqueueExt_keeps_iff`).
-/

namespace Gomq.Store

open Wire Broker List

/-! ## What a page brings back -/

def Timed (m : Message) : Prop := ∃ t < 2 ^ 63, m.enqueuedAt = some t

def Bare (m : Message) : Prop :=
  m.exchange = [] ∧ m.routingKey = [] ∧
    m.properties = { contentType := m.properties.contentType }

def recorded (m : Message) : Bytes × UInt64 × Time × GoString :=
  (m.payload, m.deliveryTag, m.enqueuedAt, m.properties.contentType)

theorem unixTime_unixNano {t : ℕ} (h : t < 2 ^ 63) : unixTime (unixNano (some t)) = some t := by
  unfold unixTime unixNano
  rw [Int64.toNatClampNeg_ofNat_of_lt h]

theorem recorded_restored {m : Message} (h : Timed m) : recorded (restored m) = recorded m := by
  obtain ⟨t, ht, hm⟩ := h
  unfold recorded restored
  rw [hm, unixTime_unixNano ht]

theorem restored_eq_iff {m : Message} (h : Timed m) : restored m = m ↔ Bare m := by
  constructor
  · intro heq
    exact ⟨by rw [← heq]; rfl, by rw [← heq]; rfl, congrArg Message.properties heq.symm⟩
  · rintro ⟨hex, hkey, hprops⟩
    obtain ⟨t, ht, hm⟩ := h
    obtain ⟨payload, properties, exchange, routingKey, tag, enqueuedAt⟩ := m
    cases hex
    cases hkey
    cases hm
    unfold restored
    dsimp only at hprops ⊢
    rw [← hprops, unixTime_unixNano ht]

theorem load_flush (pm : PageManager) (queueName : GoString) (disk : Disk) {msgs : List Message}
    (h : ∀ m ∈ msgs, Fits m) :
    (pm.flush none queueName msgs disk).1 = .ok (pm.nextPath queueName) ∧
      (load none (pm.nextPath queueName) (pm.flush none queueName msgs disk).2.2).1 =
        .ok (msgs.map restored) := by
  refine ⟨rfl, ?_⟩
  show (load none _ (disk.set (pm.nextPath queueName) (writePage msgs))).1 = _
  unfold load
  simp only [GoMap.get_set_self, reduceCtorEq, if_false, readPage_writePage h]

theorem map_restored_eq_iff {msgs : List Message} (h : ∀ m ∈ msgs, Timed m) :
    msgs.map restored = msgs ↔ ∀ m ∈ msgs, Bare m := by
  have hmap := map_inj_left (l := msgs) (f := restored) (g := id)
  rw [map_id] at hmap
  exact hmap.trans (forall₂_congr fun m hm => restored_eq_iff (h m hm))

/-- `Load` after `Flush` returns as many messages in the same order, each with its payload, tag,
time and content type. They are the messages that were written exactly if those were bare. -/
theorem load_flush_iff (pm : PageManager) (queueName : GoString) (disk : Disk)
    (msgs : List Message) (hfits : ∀ m ∈ msgs, Fits m) (htimed : ∀ m ∈ msgs, Timed m) :
    ∃ path loaded, (pm.flush none queueName msgs disk).1 = .ok path ∧
      (load none path (pm.flush none queueName msgs disk).2.2).1 = .ok loaded ∧
      loaded.map recorded = msgs.map recorded ∧ (loaded = msgs ↔ ∀ m ∈ msgs, Bare m) := by
  obtain ⟨hflush, hload⟩ := load_flush pm queueName disk hfits
  refine ⟨_, _, hflush, hload, ?_, map_restored_eq_iff htimed⟩
  rw [map_map]
  exact map_congr_left fun m hm => recorded_restored (htimed m hm)

def addressed : Message where
  payload := str "x"
  properties :=
    { contentType := str "text", priority := 9, expiration := str "60000"
      headers := [(str "k", .int32 1)] }
  exchange := str "ex"
  routingKey := str "key"
  deliveryTag := 1
  enqueuedAt := some 5

theorem load_flush_iff_addressed :
    Fits addressed ∧ Timed addressed ∧ ¬ Bare addressed ∧
      ∃ path loaded, ((newPageManager []).flush none (str "q") [addressed] ∅).1 = .ok path ∧
        (load none path ((newPageManager []).flush none (str "q") [addressed] ∅).2.2).1 =
          .ok loaded ∧ loaded.map recorded = [recorded addressed] ∧ loaded ≠ [addressed] := by
  have hfits : Fits addressed := by decide
  have htimed : Timed addressed := ⟨5, by decide, rfl⟩
  have hbare : ¬ Bare addressed := fun h => absurd h.1 (by decide)
  obtain ⟨path, loaded, hflush, hload, hkept, hiff⟩ := load_flush_iff (newPageManager []) (str "q")
    ∅ [addressed] (by simpa using hfits) (by simpa using htimed)
  exact ⟨hfits, htimed, hbare, path, loaded, hflush, hload, hkept,
    fun heq => hbare (hiff.mp heq addressed mem_cons_self)⟩

/-- It comes back without its address, its priority, its expiration and its headers. -/
theorem load_flush_strips :
    let r := (newPageManager []).flush none (str "q") [addressed] ∅
    (load none ((newPageManager []).nextPath (str "q")) r.2.2).1 =
      .ok [{ payload := str "x", properties := { contentType := str "text" }, deliveryTag := 1,
             enqueuedAt := some 5 }] := by
  have hfits : ∀ m ∈ [addressed], Fits m := by decide
  exact (load_flush (newPageManager []) (str "q") ∅ hfits).2

/-! ## A page that cannot be written -/

/-- The faults that `Flush` meets. -/
def Fault.Flushes : Fault → Prop
  | .mkdir => True
  | .create => True
  | .write _ => True
  | _ => False

theorem flush_error_iff (fault : Option Fault) (pm : PageManager) (queueName : GoString)
    (msgs : List Message) (disk : Disk) :
    (∃ e, (pm.flush fault queueName msgs disk).1 = .error e) ↔
      ∃ f, fault = some f ∧ f.Flushes := by
  rcases fault with _ | _ | _ | _ | _ | _ | _ <;> simp [PageManager.flush, Fault.Flushes]

namespace ExtendedMessageStore

section PageOut

variable {z : Zlib} {fault : Option Fault} {es : ExtendedMessageStore} {queueName : GoString}
  {msg : Message}

theorem pageOldest_eq (pm : PageManager)
    (h : es.opts.maxInMemoryMessages < (es.inMemory queueName).length) :
    (es.pageOldest fault pm queueName).2.inMemory queueName =
        (es.inMemory queueName).drop ((es.inMemory queueName).length / 2) ∧
      ((∃ e, (es.pageOldest fault pm queueName).1 = some e) ↔
        ∃ f, fault = some f ∧ f.Flushes) := by
  unfold pageOldest
  dsimp only
  rw [if_neg (not_le.mpr h), ← flush_error_iff fault pm queueName
    ((es.inMemory queueName).take ((es.inMemory queueName).length / 2)) es.disk]
  rcases pm.flush fault queueName
    ((es.inMemory queueName).take ((es.inMemory queueName).length / 2)) es.disk
    with ⟨_ | path, pm', disk⟩
  · exact ⟨GoMap.getD_set_self _ _ _ _, by simp⟩
  · exact ⟨GoMap.getD_set_self _ _ _ _, by simp⟩

theorem enqueueExt_of_pager {pm : PageManager} (h : es.pager = some pm) :
    es.enqueueExt z fault queueName msg =
      if es.opts.maxInMemoryMessages < (es.inMemory queueName).length + 1 then
        (es.enqueue queueName (es.packed z msg)).pageOldest fault pm queueName
      else (none, es.enqueue queueName (es.packed z msg)) := by
  have hpager : (es.enqueue queueName (es.packed z msg)).pager = some pm := h
  have hopts : (es.enqueue queueName (es.packed z msg)).opts = es.opts := rfl
  unfold enqueueExt
  dsimp only
  rw [hpager, hopts, inMemory_enqueue_self, length_append, length_singleton]
  rfl

def FailsToPage (es : ExtendedMessageStore) (fault : Option Fault) (queueName : GoString) : Prop :=
  (∃ f, fault = some f ∧ f.Flushes) ∧ es.pager.isSome ∧
    es.opts.maxInMemoryMessages < (es.inMemory queueName).length + 1

theorem lt_length_enqueue (m : Message)
    (h : es.opts.maxInMemoryMessages < (es.inMemory queueName).length + 1) :
    (es.enqueue queueName m).opts.maxInMemoryMessages <
      ((es.enqueue queueName m).inMemory queueName).length := by
  rw [inMemory_enqueue_self, length_append, length_singleton]
  exact h

theorem enqueueExt_error_iff :
    (∃ e, (es.enqueueExt z fault queueName msg).1 = some e) ↔ es.FailsToPage fault queueName := by
  unfold FailsToPage
  cases hpager : es.pager with
  | none => simp [enqueueExt_of_noPager hpager]
  | some pm =>
    rw [enqueueExt_of_pager hpager]
    by_cases hdue : es.opts.maxInMemoryMessages < (es.inMemory queueName).length + 1
    · rw [if_pos hdue, (pageOldest_eq pm (lt_length_enqueue _ hdue)).2]
      simp [hdue]
    · simp [hdue]

theorem inMemory_of_failsToPage (h : es.FailsToPage fault queueName) :
    (es.enqueueExt z fault queueName msg).2.inMemory queueName =
      (es.inMemory queueName ++ [es.packed z msg]).drop
        (((es.inMemory queueName).length + 1) / 2) := by
  obtain ⟨-, hpager, hdue⟩ := h
  obtain ⟨pm, hpm⟩ := Option.isSome_iff_exists.mp hpager
  rw [enqueueExt_of_pager hpm, if_pos hdue, (pageOldest_eq pm (lt_length_enqueue _ hdue)).1,
    inMemory_enqueue_self, length_append, length_singleton]

end PageOut

/-- For every store, fault and message: if the call returns a paging error, the queue still has all
its messages and the new one in order, exactly if the calls that fail find the queue empty. -/
theorem enqueueExt_keeps_iff (z : Zlib) (fault : Option Fault) (es : ExtendedMessageStore)
    (queueName : GoString) (msg : Message) :
    (∀ e, (es.enqueueExt z fault queueName msg).1 = some e →
      (es.inMemory queueName ++ [es.packed z msg]).Sublist
        ((es.enqueueExt z fault queueName msg).2.inMemory queueName)) ↔
      (es.FailsToPage fault queueName → es.inMemory queueName = []) := by
  refine exists_imp.symm.trans ?_
  rw [enqueueExt_error_iff]
  refine forall_congr' fun hfails => ?_
  rw [inMemory_of_failsToPage hfails]
  constructor
  · intro hsub
    have hlen := hsub.length_le
    rw [length_drop, length_append, length_singleton] at hlen
    exact length_eq_zero_iff.mp (by omega)
  · intro hnil
    rw [hnil]
    exact List.Sublist.refl _

/-- A new store pages only with a limit of at least one message, so a call on it that fails finds
the queue non-empty. -/
theorem inMemory_ne_nil_of_failsToPage {fault : Option Fault}
    {base : GoMap GoString (List Message)} {disk : Disk} {opts : StoreOptions}
    {queueName : GoString}
    (h : (newExtendedMessageStore base disk opts).FailsToPage fault queueName) :
    (newExtendedMessageStore base disk opts).inMemory queueName ≠ [] := by
  obtain ⟨-, hpager, hdue⟩ := h
  intro hnil
  have hlimit : 0 < opts.maxInMemoryMessages := by
    by_contra hnone
    have hoff : (newExtendedMessageStore base disk opts).pager = none := if_neg fun h => hnone h.1
    rw [hoff] at hpager
    cases hpager
  rw [hnil] at hdue
  have hdue : opts.maxInMemoryMessages < 0 + 1 := hdue
  omega

def brokenDir : ExtendedMessageStore :=
  newExtendedMessageStore (GoMap.set ∅ (str "q") [newMessage [1] {}]) ∅ ⟨0, 1, str "pages"⟩

theorem enqueueExt_loses :
    let r := brokenDir.enqueueExt zerosCodec (some .mkdir) (str "q") (newMessage [2] {})
    r.1 = some .mkdir ∧ (brokenDir.inMemory (str "q")).map Message.payload = [[1]] ∧
      (r.2.inMemory (str "q")).map Message.payload = [[2]] ∧ r.2.disk.keys = [] := by
  decide

end ExtendedMessageStore

end Gomq.Store
