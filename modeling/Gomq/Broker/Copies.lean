import Gomq.Broker.Visits

/-!
# How many copies a queue gets

Each router drops duplicates among the queues it selects, but a publish visits many exchanges, and
every one that selects a queue puts a copy into it. The copies stay, unless the length limit of the
queue lets each copy drive out the one before (`Displaces`). So a queue ends with at most one copy
exactly if at most one visited exchange selects it or its copies displace each other
(`atMostOneCopy_iff`).
-/

namespace Gomq.Broker

open Wire List

/-! ## One queue -/

section OneQueue

def makeRoom (args : Table) (l : List MsgRef) : List MsgRef :=
  if 0 < maxLength args ∧ (maxLength args).toInt ≤ l.length then l.tail else l

def place (priority : MsgRef → UInt8) (args : Table) (m : MsgRef) (l : List MsgRef) :
    List MsgRef :=
  if 0 < maxPriority args then insertByPriority priority m l else l ++ [m]

variable (priority : MsgRef → UInt8) (args : Table) (m : MsgRef)

theorem perm_place (l : List MsgRef) : (place priority args m l).Perm (m :: l) := by
  unfold place
  split
  · exact perm_insertByPriority priority m l
  · exact perm_append_singleton m l

theorem count_place (l : List MsgRef) : (place priority args m l).count m = l.count m + 1 := by
  rw [(perm_place priority args m l).count_eq, count_cons_self]

theorem length_place (l : List MsgRef) : (place priority args m l).length = l.length + 1 :=
  (perm_place priority args m l).length_eq

/-- The message goes to the head: it finds the queue empty, or a head of lower priority. -/
def GoesFirst (l : List MsgRef) : Prop :=
  ∀ a ∈ l.head?, 0 < maxPriority args ∧ priority a < priority m

theorem place_of_goesFirst {l : List MsgRef} (h : GoesFirst priority args m l) :
    place priority args m l = m :: l := by
  cases l with
  | nil => simp [place, insertByPriority]
  | cons a l =>
    obtain ⟨hp, ha⟩ := h a rfl
    simp [place, insertByPriority, hp, ha]

theorem goesFirst_of_head {l : List MsgRef} (hm : m ∉ l)
    (h : (place priority args m l).head? = some m) : GoesFirst priority args m l := by
  intro a ha
  obtain ⟨t, rfl⟩ : ∃ t, l = a :: t := ⟨l.tail, eq_cons_of_mem_head? ha⟩
  have hne : a ≠ m := fun h => hm (h ▸ mem_cons_self)
  unfold place at h
  by_cases hp : 0 < maxPriority args
  · refine ⟨hp, ?_⟩
    rw [if_pos hp, insertByPriority] at h
    by_contra hlow
    rw [if_neg hlow] at h
    exact hne (Option.some.inj h)
  · rw [if_neg hp] at h
    exact absurd (Option.some.inj h) hne

theorem count_le_makeRoom (l : List MsgRef) : l.count m ≤ (makeRoom args l).count m + 1 := by
  unfold makeRoom
  split
  · cases l with
    | nil => simp
    | cons a l =>
      rw [count_cons, tail_cons]
      split <;> omega
  · omega

theorem not_mem_makeRoom {l : List MsgRef} (hm : m ∉ l) : m ∉ makeRoom args l := by
  unfold makeRoom
  split
  · exact fun h => hm (mem_of_mem_tail h)
  · exact hm

/-- One copy more: first room, then the copy. -/
def addCopy (l : List MsgRef) : List MsgRef := place priority args m (makeRoom args l)

/-- Copies drive each other out: with the first copy in it the queue is full, and the copy is at its
head. -/
def CopiesDisplace (l : List MsgRef) : Prop :=
  0 < maxLength args ∧ (maxLength args).toInt ≤ (makeRoom args l).length + 1 ∧
    GoesFirst priority args m (makeRoom args l)

theorem count_addCopy {l : List MsgRef} (hm : m ∉ l) : (addCopy priority args m l).count m = 1 := by
  unfold addCopy
  rw [count_place, count_eq_zero_of_not_mem (not_mem_makeRoom args m hm)]

variable {priority args m}

theorem addCopy_addCopy {l : List MsgRef} (h : CopiesDisplace priority args m l) :
    addCopy priority args m (addCopy priority args m l) = addCopy priority args m l := by
  obtain ⟨hpos, hfull, hfirst⟩ := h
  have hone : addCopy priority args m l = m :: makeRoom args l :=
    place_of_goesFirst priority args m hfirst
  have hroom : makeRoom args (m :: makeRoom args l) = makeRoom args l :=
    if_pos ⟨hpos, by simpa using hfull⟩
  rw [hone]
  unfold addCopy
  rw [hroom]
  exact place_of_goesFirst priority args m hfirst

theorem two_le_count_addCopy {l : List MsgRef} (hm : m ∉ l)
    (h : ¬ CopiesDisplace priority args m l) :
    2 ≤ (addCopy priority args m (addCopy priority args m l)).count m := by
  have hone := count_addCopy priority args m hm
  have hkept : (makeRoom args (addCopy priority args m l)).count m = 1 := by
    by_cases hfull : 0 < maxLength args ∧
        (maxLength args).toInt ≤ (addCopy priority args m l).length
    · -- the oldest message goes, which is not the copy
      have hlen : (addCopy priority args m l).length = (makeRoom args l).length + 1 :=
        length_place priority args m _
      have hhead : (addCopy priority args m l).head? ≠ some m := by
        intro hhead
        refine h ⟨hfull.1, ?_, goesFirst_of_head priority args m (not_mem_makeRoom args m hm) hhead⟩
        have := hfull.2
        rw [hlen] at this
        exact_mod_cast this
      unfold makeRoom
      rw [if_pos hfull]
      cases hl : addCopy priority args m l with
      | nil => rw [hl] at hone; cases hone
      | cons a t =>
        rw [hl] at hone hhead
        rw [count_cons_of_ne fun h => hhead (congrArg some h)] at hone
        exact hone
    · unfold makeRoom
      rw [if_neg hfull]
      exact hone
  rw [show addCopy priority args m (addCopy priority args m l) =
    place priority args m (makeRoom args (addCopy priority args m l)) from rfl, count_place, hkept]

theorem count_le_addCopy (l : List MsgRef) :
    l.count m ≤ (addCopy priority args m l).count m := by
  unfold addCopy
  rw [count_place]
  exact count_le_makeRoom args m l

theorem count_le_iterate (n : ℕ) (l : List MsgRef) :
    l.count m ≤ ((addCopy priority args m)^[n] l).count m := by
  induction n generalizing l with
  | zero => exact le_refl _
  | succ n ih => exact (count_le_addCopy l).trans (ih _)

theorem count_iterate_le_one_iff (n : ℕ) {l : List MsgRef} (hm : m ∉ l) :
    ((addCopy priority args m)^[n] l).count m ≤ 1 ↔
      n ≤ 1 ∨ CopiesDisplace priority args m l := by
  have hone := count_addCopy priority args m hm
  match n with
  | 0 => simp [count_eq_zero_of_not_mem hm]
  | 1 => simp [hone]
  | n + 2 =>
    rw [Function.iterate_add_apply]
    constructor
    · intro hle
      right
      by_contra hnot
      have h2 := two_le_count_addCopy hm hnot
      have hmono : _ ≤ ((addCopy priority args m)^[n] _).count m :=
        count_le_iterate n (addCopy priority args m (addCopy priority args m l))
      have : (addCopy priority args m)^[2] l =
          addCopy priority args m (addCopy priority args m l) := rfl
      rw [this] at hle
      omega
    · rintro (hn | hdis)
      · omega
      · have hfix : ∀ k, (addCopy priority args m)^[k] (addCopy priority args m l) =
            addCopy priority args m l := fun k => Function.iterate_fixed (addCopy_addCopy hdis) k
        have : (addCopy priority args m)^[2] l = (addCopy priority args m)^[1]
            (addCopy priority args m l) := rfl
        rw [this, hfix, hfix]
        exact hone.le

end OneQueue

/-! ## The store of a queue -/

namespace Server

def priorityOf (s : Server) (m : MsgRef) : UInt8 := (s.msgs.read m).properties.priority

theorem ready_storeIn (s : Server) (qn : GoString) (args : Table) (m : MsgRef) (q : GoString) :
    (s.storeIn qn args m).ready q =
      if q = qn then place s.priorityOf args m (s.ready q) else s.ready q := by
  unfold storeIn place
  by_cases hq : q = qn
  · subst hq
    rw [if_pos rfl]
    split
    · simp only [enqueuePriority, ready, GoMap.getD_set_self]
      rfl
    · rw [ready_enqueue_self]
  · rw [if_neg hq]
    split
    · simp [enqueuePriority, ready, hq]
    · rw [ready_enqueue_ne hq]

theorem ready_storeAndDeliver (env : Env) (m : MsgRef) (c : UInt16) (qn : GoString) (args : Table)
    (s : Server) (q : GoString) :
    (storeAndDeliver env m c qn args s).ready q =
      if q = qn then place s.priorityOf args m (s.ready q) else s.ready q := by
  have hprio : (s.modifyMsg m fun m => m.setEnqueuedAt (some env.now)).priorityOf =
      s.priorityOf :=
    funext (keeps_modifyMsg (f := fun m => m.properties.priority) s m fun _ => rfl)
  rw [(storeAndDeliver_delivers env m c qn args s).ready, ← hprio, ready_storeIn]
  rfl

def Plain (s : Server) : Prop := ∀ q x, s.queues.get q = some x → getDeadLetterConfig x.args = none

def overflowing (s : Server) (qn : GoString) (args : Table) : Option MsgRef :=
  if 0 < maxLength args ∧ (maxLength args).toInt ≤ (s.ready qn).length then (s.ready qn).head?
  else none

theorem evictOldest_eq (dl : MsgRef → Table → Server → Server) (s : Server) (qn : GoString)
    (args : Table) :
    ∃ st, (∀ q, ({ s with store := st } : Server).ready q =
        if q = qn then makeRoom args (s.ready q) else s.ready q) ∧
      s.evictOldest dl qn args =
        match s.overflowing qn args with
        | none => { s with store := st }
        | some o => dl o args { s with store := st } := by
  have hsame : makeRoom args (s.ready qn) = s.ready qn → ∀ q, s.ready q =
      if q = qn then makeRoom args (s.ready q) else s.ready q := by
    intro h q
    by_cases hq : q = qn
    · rw [if_pos hq, hq, h]
    · rw [if_neg hq]
  unfold evictOldest overflowing
  by_cases hfull : 0 < maxLength args ∧ (maxLength args).toInt ≤ (s.ready qn).length
  · rw [if_pos hfull, if_pos hfull]
    cases hr : s.ready qn with
    | nil =>
      have hdeq : s.dequeue qn = (none, s) := by unfold dequeue; rw [hr]
      refine ⟨s.store, hsame (by simp [makeRoom, hr]), ?_⟩
      rw [hdeq]
      rfl
    | cons o l =>
      have hdeq : s.dequeue qn = (some o, { s with store := s.store.set qn l }) := by
        unfold dequeue; rw [hr]
      refine ⟨s.store.set qn l, fun q => ?_, ?_⟩
      · by_cases hq : q = qn
        · subst hq
          rw [if_pos rfl, makeRoom, if_pos hfull, hr]
          simp [ready]
        · simp [ready, hq]
      · rw [hdeq]
        rfl
  · rw [if_neg hfull, if_neg hfull]
    exact ⟨s.store, hsame (by rw [makeRoom, if_neg hfull]), rfl⟩

theorem of_overflowing {s : Server} {qn : GoString} {args : Table} {o : MsgRef}
    (h : s.overflowing qn args = some o) : 0 < maxLength args ∧ o ∈ s.ready qn := by
  unfold overflowing at h
  split at h
  · rename_i hfull
    exact ⟨hfull.1, mem_of_head? h⟩
  · cases h

theorem evictOldest_plain (env : Env) {args : Table} (h : getDeadLetterConfig args = none)
    (s : Server) (qn : GoString) :
    (s.evictOldest (deadLetter env) qn args).msgs = s.msgs ∧
      ∀ q, (s.evictOldest (deadLetter env) qn args).ready q =
        if q = qn then makeRoom args (s.ready q) else s.ready q := by
  obtain ⟨st, hready, heq⟩ := evictOldest_eq (deadLetter env) s qn args
  rw [heq]
  cases s.overflowing qn args with
  | none => exact ⟨rfl, hready⟩
  | some o =>
    dsimp only
    rw [deadLetter_of_none env o h]
    exact ⟨rfl, hready⟩

def copyInto (s : Server) (m : MsgRef) (q : GoString) (l : List MsgRef) : List MsgRef :=
  match s.queues.get q with
  | none => l
  | some x => addCopy s.priorityOf x.args m l

section Loop

variable (env : Env) (m : MsgRef) (c : UInt16)

theorem publishTo_plain {s : Server} (hs : s.Plain) (qn : GoString) :
    (publishTo env (deadLetter env) true m c s qn).headersOf m = s.headersOf m ∧
      ∀ q, (publishTo env (deadLetter env) true m c s qn).ready q =
        if q = qn then s.copyInto m q (s.ready q) else s.ready q := by
  cases hx : s.queues.get qn with
  | none =>
    rw [publishTo_none env _ m c hx]
    refine ⟨rfl, fun q => ?_⟩
    by_cases heq : q = qn
    · subst heq; rw [if_pos rfl, copyInto, hx]
    · rw [if_neg heq]
  | some x =>
    obtain ⟨hmsgs, hready⟩ := evictOldest_plain env (hs qn x hx) s qn
    have hprio : (s.evictOldest (deadLetter env) qn x.args).priorityOf = s.priorityOf := by
      unfold priorityOf; rw [hmsgs]
    rw [publishTo_some env _ m c hx, if_pos rfl]
    constructor
    · have h := keeps_storeAndDeliver stampless_headers env m c qn x.args
        (s.evictOldest (deadLetter env) qn x.args) m
      rw [hmsgs] at h
      exact h
    · intro q
      rw [ready_storeAndDeliver, hprio, hready]
      by_cases heq : q = qn
      · subst heq
        rw [if_pos rfl, if_pos rfl, if_pos rfl, copyInto, hx]
        rfl
      · simp only [if_neg heq]

theorem foldl_plain (l : List GoString) {s : Server} (hs : s.Plain) :
    (l.foldl (publishTo env (deadLetter env) true m c) s).headersOf m = s.headersOf m ∧
      ∀ q, (l.foldl (publishTo env (deadLetter env) true m c) s).ready q =
        (s.copyInto m q)^[l.count q] (s.ready q) := by
  induction l generalizing s with
  | nil => exact ⟨rfl, fun _ => rfl⟩
  | cons qn l ih =>
    have hqueues : (publishTo env (deadLetter env) true m c s qn).queues = s.queues :=
      congrArg Config.queues (config_publishTo env m c s qn)
    have hprio : (publishTo env (deadLetter env) true m c s qn).priorityOf = s.priorityOf :=
      funext (keeps_publishTo stampless_priority
        (keeps_deadLetter stampless_priority (fun _ _ => rfl) env) env true m c s qn)
    obtain ⟨hheaders, hready⟩ := publishTo_plain env m c hs qn
    obtain ⟨hheaders', hready'⟩ := ih (s := publishTo env (deadLetter env) true m c s qn)
      (by unfold Plain; rw [hqueues]; exact hs)
    have hcopy : ∀ q, (publishTo env (deadLetter env) true m c s qn).copyInto m q =
        s.copyInto m q := by
      intro q
      funext l
      unfold copyInto
      rw [hqueues, hprio]
    rw [foldl_cons]
    refine ⟨hheaders'.trans hheaders, fun q => ?_⟩
    rw [hready', hcopy, hready, count_cons]
    by_cases heq : q = qn
    · subst heq
      simp
    · simp [heq, Ne.symm heq]

end Loop

end Server

/-! ## How often a queue is listed -/

namespace Config

def selecting (c : Config) (headers : Table) (ex key q : GoString) : List (GoString × GoString) :=
  (c.visits ex key).filter fun v => q ∈ c.routeAt headers v

theorem nodup_routeAt (c : Config) (headers : Table) (v : GoString × GoString) :
    (c.routeAt headers v).Nodup := by
  unfold routeAt
  cases c.exchanges.get v.1 with
  | none => exact nodup_nil
  | some x => exact nodup_collect _ _

theorem count_deliveries (c : Config) (headers : Table) (ex key q : GoString) :
    (c.deliveries headers ex key).count q = (c.selecting headers ex key q).length := by
  unfold deliveries selecting
  induction c.visits ex key with
  | nil => rfl
  | cons v l ih =>
    rw [flatMap_cons, count_append, ih]
    by_cases hq : q ∈ c.routeAt headers v
    · rw [count_eq_one_of_mem (c.nodup_routeAt headers v) hq,
        filter_cons_of_pos (by simpa using hq), length_cons, Nat.add_comm]
    · rw [count_eq_zero_of_not_mem hq, filter_cons_of_neg (by simpa using hq),
        Nat.zero_add]

end Config

/-! ## Copies -/

namespace Server

/-- In this queue, copies of the message drive each other out. -/
def Displaces (s : Server) (q : GoString) (args : Table) (m : MsgRef) : Prop :=
  CopiesDisplace s.priorityOf args m (s.ready q)

theorem ready_publish_plain (env : Env) (m : MsgRef) (c : UInt16) {s : Server} (hplain : s.Plain)
    (ex key q : GoString) :
    (s.publish env ex key m c).2.ready q =
      (s.copyInto m q)^[(s.config.deliveries (s.headersOf m) ex key).count q] (s.ready q) := by
  obtain ⟨hheaders, hready⟩ := foldl_plain env m c
    (s.config.deliveries (s.headersOf m) ex key) hplain
  rw [(publish_eq env m c s ex key (Or.inr hheaders) q).1]
  exact hready q

/-- Without dead-letter exchanges, every queue ends up with at most one copy of a new message
exactly if each is selected by at most one of the visited exchanges, or is so short that its copies
displace each other. -/
theorem atMostOneCopy_iff (env : Env) (s : Server) (ex key : GoString) (m : MsgRef) (c : UInt16)
    (hnew : ∀ q, m ∉ s.ready q) (hplain : s.Plain) :
    (∀ q, ((s.publish env ex key m c).2.ready q).count m ≤ 1) ↔
      ∀ q x, s.queues.get q = some x →
        (s.config.selecting (s.headersOf m) ex key q).length ≤ 1 ∨ s.Displaces q x.args m := by
  refine forall_congr' fun q => ?_
  rw [ready_publish_plain env m c hplain, Config.count_deliveries]
  cases hq : s.queues.get q with
  | none =>
    have hid : s.copyInto m q = id := by
      funext l
      rw [copyInto, hq]
      rfl
    rw [hid, Function.iterate_id, id, count_eq_zero_of_not_mem (hnew q)]
    simp
  | some x =>
    have hcopy : s.copyInto m q = addCopy s.priorityOf x.args m := by
      funext l
      rw [copyInto, hq]
    rw [hcopy, count_iterate_le_one_iff _ (hnew q)]
    simp [Displaces]

/-! ## Two ways to one queue -/

def twoWays : Server :=
  [ProtocolEvent.request default 0 (.queueDeclare (str "q") false false false false true []),
    .request default 0 (.exchangeDeclare (str "a") (str "fanout") false false false false true []),
    .request default 0 (.exchangeDeclare (str "b") (str "fanout") false false false false true []),
    .request default 0 (.queueBind (str "q") (str "a") [] true []),
    .request default 0 (.queueBind (str "q") (str "b") [] true []),
    .request default 0 (.exchangeBind (str "b") (str "a") [] true [])].foldl protocolStep newServer

theorem twoWays_new (q : GoString) : 0 ∉ twoWays.ready q := not_mem_nil

theorem twoWays_queues (q : GoString) :
    twoWays.queues.get q =
      if q = str "q" then some ⟨str "q", false, false, false, [], none⟩ else none := by
  have h : twoWays.queues =
      (∅ : GoMap GoString Queue).set (str "q") ⟨str "q", false, false, false, [], none⟩ := rfl
  rw [h, GoMap.get_set]
  rfl

theorem twoWays_plain : twoWays.Plain := by
  intro q x hq
  rw [twoWays_queues] at hq
  split at hq
  · cases hq; decide
  · cases hq

/-- The message that goes to `a` is in the queue twice. -/
theorem twoWays_twoCopies :
    (∀ q, 0 ∉ twoWays.ready q) ∧ twoWays.Plain ∧
      (twoWays.publish default (str "a") [] 0 0).2.ready (str "q") = [0, 0] ∧
      ¬ ∀ q, ((twoWays.publish default (str "a") [] 0 0).2.ready q).count 0 ≤ 1 := by
  have htwo : (twoWays.publish default (str "a") [] 0 0).2.ready (str "q") = [0, 0] := by
    decide +kernel
  refine ⟨twoWays_new, twoWays_plain, htwo, fun h => ?_⟩
  have hone := h (str "q")
  rw [htwo] at hone
  exact absurd hone (by decide)

/-- The message that goes to `b` is in the queue once. -/
theorem twoWays_oneCopy :
    (∀ q, 0 ∉ twoWays.ready q) ∧ twoWays.Plain ∧
      ∀ q, ((twoWays.publish default (str "b") [] 0 0).2.ready q).count 0 ≤ 1 := by
  refine ⟨twoWays_new, twoWays_plain,
    (atMostOneCopy_iff default twoWays (str "b") [] 0 0 twoWays_new twoWays_plain).mpr ?_⟩
  intro q x hq
  rw [twoWays_queues] at hq
  split at hq
  · subst q; exact Or.inl (by decide +kernel)
  · cases hq

end Server

end Gomq.Broker
