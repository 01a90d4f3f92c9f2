import Gomq.Broker.Copies
import Gomq.Pipeline.Flow

/-!
# The order of the publishes

Two workers that each took one of two items publish them in any order (`overtaken`). A worker
publishes what it took for one exchange in the order of the channel, so items that the same worker
takes keep their order (`sameWorker_keeps_order`); with one worker these are all.

The publisher is the one of the broker here. `envs` has the environment of each call, by the number
of its item.
-/

namespace Gomq.Pipeline

open Broker List

variable {n : Setup} {σ : Type}

/-! ## The order of the calls -/

theorem Flow.pairwise_sent {s : System n σ} (h : Flow s) :
    s.sent.Pairwise fun i j => i.ref < j.ref := by
  rw [← pairwise_map, h.refs]
  exact pairwise_lt_range

theorem sublist_of_pairwise {l : List PipelineItem} (hl : l.Pairwise fun i j => i.ref < j.ref)
    {i j : PipelineItem} (hi : i ∈ l) (hj : j ∈ l) (hij : i.ref < j.ref) : [i, j].Sublist l := by
  obtain ⟨a, b, rfl⟩ := append_of_mem hj
  obtain ⟨-, hb, hab⟩ := pairwise_append.mp hl
  have hia : i ∈ a := by
    rcases mem_append.mp hi with hi | hi
    · exact hi
    · rcases mem_cons.mp hi with rfl | hi
      · omega
      · have := (pairwise_cons.mp hb).1 i hi
        omega
  exact (singleton_sublist.mpr hia).append
    (singleton_sublist.mpr (mem_cons_self ..))

theorem Flow.published_in_order {s : System n σ} (h : Flow s) {w : Fin n.workers}
    {i j : PipelineItem} (hi : (w, i) ∈ s.taken) (hj : (w, j) ∈ s.published)
    (hij : i.ref < j.ref) (hex : i.exchange = j.exchange) :
    [i, j].Sublist (s.published.map Prod.snd) := by
  have hkept := h.kept w j.exchange
  have htaken : (toExchange j.exchange (ofWorker w s.taken)).Pairwise fun i j => i.ref < j.ref := by
    have hall : (s.taken.map Prod.snd).Pairwise fun i j => i.ref < j.ref := by
      have := h.pairwise_sent
      rw [h.fifo] at this
      exact (pairwise_append.mp this).1
    exact hall.sublist (filter_sublist.trans (filter_sublist.map Prod.snd))
  have hj' : j ∈ toExchange j.exchange (ofWorker w s.published) :=
    mem_toExchange.mpr ⟨mem_ofWorker.mpr hj, rfl⟩
  -- what is not published yet comes after everything that is
  have hi' : i ∈ toExchange j.exchange (ofWorker w s.published) := by
    have hin : i ∈ toExchange j.exchange (ofWorker w s.taken) :=
      mem_toExchange.mpr ⟨mem_ofWorker.mpr hi, hex⟩
    rw [← hkept] at hin htaken
    rcases mem_append.mp hin with hin | hin
    · exact hin
    · have := (pairwise_append.mp htaken).2.2 j hj' i hin
      omega
  have hpub : (toExchange j.exchange (ofWorker w s.published)).Pairwise
      fun i j => i.ref < j.ref := by
    rw [← hkept] at htaken
    exact (pairwise_append.mp htaken).1
  exact (sublist_of_pairwise hpub hi' hj' hij).trans
    (filter_sublist.trans (filter_sublist.map Prod.snd))

/-! ## The order in a queue -/

def publishCall (envs : ℕ → Env) (s : Server) (item : PipelineItem) : Server :=
  (s.publish (envs item.ref) item.exchange item.routingKey item.msg item.channelID).2

/-- No `m₁` stands behind an `m₂`. -/
def NotBehind (m₁ m₂ : MsgRef) (l : List MsgRef) : Prop :=
  l.Pairwise fun a b => ¬(a = m₂ ∧ b = m₁)

/-- A publish takes messages from the front of a queue without priorities, and appends. -/
theorem iterate_copyInto {s : Server} {q : GoString} {x : Queue} (hq : s.queues.get q = some x)
    (hprio : maxPriority x.args = 0) (m : MsgRef) (k : ℕ) (l : List MsgRef) :
    ∃ l' c, l' <:+ l ∧ (s.copyInto m q)^[k] l = l' ++ List.replicate c m := by
  induction k with
  | zero => exact ⟨l, 0, suffix_refl l, by simp⟩
  | succ k ih =>
    obtain ⟨l', c, hsuff, heq⟩ := ih
    have hcopy : ∀ l, s.copyInto m q l = makeRoom x.args l ++ [m] := by
      intro l
      unfold Server.copyInto
      rw [hq]
      simp [addCopy, place, hprio]
    have hroom : ∃ l'' c', l'' <:+ l ∧
        makeRoom x.args (l' ++ List.replicate c m) = l'' ++ List.replicate c' m := by
      unfold makeRoom
      split
      · cases l' with
        | nil => exact ⟨[], c - 1, nil_suffix, by simp⟩
        | cons a l' => exact ⟨l', c, (suffix_cons a l').trans hsuff, rfl⟩
      · exact ⟨l', c, hsuff, rfl⟩
    obtain ⟨l'', c', hsuff', heq'⟩ := hroom
    refine ⟨l'', c' + 1, hsuff', ?_⟩
    rw [Function.iterate_succ_apply', heq, hcopy, heq', append_assoc, replicate_succ']

theorem ready_publishCall (envs : ℕ → Env) {s : Server} {q : GoString} {x : Queue}
    (hplain : s.Plain) (hq : s.queues.get q = some x) (hprio : maxPriority x.args = 0)
    (item : PipelineItem) :
    ∃ l c, l <:+ s.ready q ∧
      (publishCall envs s item).ready q = l ++ List.replicate c item.msg := by
  obtain ⟨l, c, hsuff, heq⟩ := iterate_copyInto hq hprio item.msg
    ((s.config.deliveries (s.headersOf item.msg) item.exchange item.routingKey).count q) (s.ready q)
  refine ⟨l, c, hsuff, ?_⟩
  unfold publishCall
  rw [Server.ready_publish_plain _ _ _ hplain]
  exact heq

section Queue

variable {q : GoString} {i j : PipelineItem}

theorem NotBehind.append {l l' : List MsgRef} {m : MsgRef} {c : ℕ} (h : NotBehind i.msg j.msg l)
    (hsuff : l' <:+ l) (hne : i.msg ≠ j.msg) (hm : m = i.msg → j.msg ∉ l) :
    NotBehind i.msg j.msg (l' ++ List.replicate c m) := by
  refine pairwise_append.mpr ⟨List.Pairwise.sublist hsuff.sublist h, ?_, ?_⟩
  · rw [pairwise_replicate]
    exact .inr fun hm' => hne (hm'.2.symm.trans hm'.1)
  · rintro a ha b hb ⟨rfl, hb'⟩
    obtain ⟨-, rfl⟩ := mem_replicate.mp hb
    exact hm hb' (hsuff.subset ha)

theorem notBehind_foldl (envs : ℕ → Env) {broker : Server} {x : Queue} (hplain : broker.Plain)
    (hq : broker.queues.get q = some x) (hprio : maxPriority x.args = 0) (hne : i.msg ≠ j.msg)
    (hnew : j.msg ∉ broker.ready q) {calls : List PipelineItem} (hnd : calls.Nodup)
    (hi : ∀ item ∈ calls, item.msg = i.msg → item = i)
    (hj : ∀ item ∈ calls, item.msg = j.msg → item = j)
    (horder : ∀ before after, calls = before ++ after → j ∈ before → i ∈ before) :
    (calls.foldl (publishCall envs) broker).config = broker.config ∧
      NotBehind i.msg j.msg ((calls.foldl (publishCall envs) broker).ready q) ∧
      (j ∉ calls → j.msg ∉ (calls.foldl (publishCall envs) broker).ready q) := by
  induction calls using List.reverseRecOn with
  | nil =>
    refine ⟨rfl, ?_, fun _ => hnew⟩
    refine List.Pairwise.imp_of_mem (R := fun _ _ => True) ?_
      (pairwise_of_forall fun _ _ => trivial)
    rintro a b ha - - ⟨rfl, -⟩
    exact hnew ha
  | append_singleton calls item ih =>
    obtain ⟨hnd', -, hfresh⟩ := nodup_append.mp hnd
    obtain ⟨hconfig, hnot, habsent⟩ := ih hnd' (fun y hy => hi y (mem_append_left _ hy))
      (fun y hy => hj y (mem_append_left _ hy))
      (fun before after heq => horder before (after ++ [item]) (by rw [heq, append_assoc]))
    have hqueues : (calls.foldl (publishCall envs) broker).queues = broker.queues :=
      congrArg Config.queues hconfig
    have hplain' : (calls.foldl (publishCall envs) broker).Plain := by
      unfold Server.Plain
      rw [hqueues]
      exact hplain
    rw [foldl_append, foldl_cons, foldl_nil]
    obtain ⟨l, c, hsuff, hready⟩ := ready_publishCall envs hplain' (hqueues ▸ hq) hprio item
    have hmem : item ∈ calls ++ [item] := mem_append_right _ (mem_singleton_self item)
    refine ⟨(Server.framed_publish ..).config.trans hconfig, ?_, ?_⟩
    · rw [hready]
      refine hnot.append hsuff hne fun hmsg => habsent fun hjin => ?_
      -- `i` is published now, so it was not when `j` was
      obtain rfl := hi item hmem hmsg
      exact hfresh _ (horder calls [item] rfl hjin) _ (mem_singleton_self item) rfl
    · intro hjnot
      rw [hready, mem_append, not_or]
      refine ⟨fun hin => ?_, fun hin => ?_⟩
      · exact habsent (fun h => hjnot (mem_append_left _ h)) (hsuff.subset hin)
      · obtain ⟨-, hmsg⟩ := mem_replicate.mp hin
        obtain rfl := hj item hmem hmsg.symm
        exact hjnot hmem

end Queue

/-! ## One worker or several -/

def SameWorker (s : System n σ) (i j : PipelineItem) : Prop :=
  ∀ w w', (w, i) ∈ s.taken → (w', j) ∈ s.taken → w = w'

instance (s : System n σ) (i j : PipelineItem) : Decidable (SameWorker s i j) :=
  inferInstanceAs (Decidable (∀ w w', (w, i) ∈ s.taken → (w', j) ∈ s.taken → w = w'))

def SubmittedOnce (s : System n σ) (i : PipelineItem) : Prop :=
  ∀ item ∈ s.sent, item.msg = i.msg → item = i

theorem Flow.mem_taken_of_published {s : System n σ} (h : Flow s) {w : Fin n.workers}
    {item : PipelineItem} (hp : (w, item) ∈ s.published) : (w, item) ∈ s.taken :=
  Multiset.mem_coe.mp (Multiset.mem_of_le h.published_le (Multiset.mem_coe.mpr hp))

theorem Flow.taken_of_ref_lt {s : System n σ} (h : Flow s) {i j : PipelineItem} (hi : i ∈ s.sent)
    {w : Fin n.workers} (hj : (w, j) ∈ s.taken) (hij : i.ref < j.ref) :
    ∃ w', (w', i) ∈ s.taken := by
  have hsorted := h.pairwise_sent
  rw [h.fifo] at hi hsorted
  rcases mem_append.mp hi with hi | hi
  · obtain ⟨⟨w', i'⟩, hmem, rfl⟩ := mem_map.mp hi
    exact ⟨w', hmem⟩
  · have := (pairwise_append.mp hsorted).2.2 j (mem_map.mpr ⟨_, hj, rfl⟩) i hi
    omega

theorem Flow.nodup_published {s : System n σ} (h : Flow s) : (s.published.map Prod.snd).Nodup :=
  nodup_iff_count_le_one.mpr h.count_published_le

theorem mem_of_sublist_append {i j : PipelineItem} {before after : List PipelineItem}
    (hnd : (before ++ after).Nodup) (h : [i, j].Sublist (before ++ after)) (hj : j ∈ before) :
    i ∈ before := by
  obtain ⟨l₁, l₂, heq, h₁, h₂⟩ := sublist_append_iff.mp h
  cases l₁ with
  | nil =>
    have hj' : j ∈ after := h₂.subset (by rw [nil_append] at heq; rw [← heq]; simp)
    exact absurd hj' (disjoint_of_nodup_append hnd hj)
  | cons a l₁ =>
    obtain ⟨rfl, -⟩ := List.cons.inj heq
    exact h₁.subset (mem_cons_self ..)

theorem sameWorker_of_one (h : n.workers = 1) (s : System n σ) (i j : PipelineItem) :
    SameWorker s i j := by
  intro w w' _ _
  have hw := w.isLt
  have hw' := w'.isLt
  ext
  omega

/-- Let one item be sent before another to the same exchange, and let the same worker take both.
Then `Publish` is called for the first before it is called for the second, and in a queue without
priorities the first message does not come behind the second, provided that nothing but these calls
puts them there. -/
theorem sameWorker_keeps_order (envs : ℕ → Env) (cfg : PipelineConfig) (submitters : ℕ)
    (broker : Server) (as : List (Action (cfg.setup submitters)))
    (s : System (cfg.setup submitters) Server)
    (hs : s = as.foldl (System.step (publishCall envs)) (start (cfg.setup submitters) broker))
    (i j : PipelineItem) (hi : i ∈ s.sent) (hj : j ∈ s.published.map Prod.snd)
    (hij : i.ref < j.ref) (hex : i.exchange = j.exchange) (hw : SameWorker s i j) :
    [i, j].Sublist (s.published.map Prod.snd) ∧
      s.broker = (s.published.map Prod.snd).foldl (publishCall envs) broker ∧
      ∀ q x, broker.Plain → broker.queues.get q = some x → maxPriority x.args = 0 →
        i.msg ≠ j.msg → SubmittedOnce s i → SubmittedOnce s j → j.msg ∉ broker.ready q →
        NotBehind i.msg j.msg (s.broker.ready q) := by
  obtain ⟨hflow, hcalled⟩ := flow_called_run (publishCall envs) (cfg.setup submitters) broker as
  rw [← hs] at hflow hcalled
  obtain ⟨⟨w, j⟩, hpub, rfl⟩ := mem_map.mp hj
  have hjt := hflow.mem_taken_of_published hpub
  obtain ⟨w', hit⟩ := hflow.taken_of_ref_lt hi hjt hij
  obtain rfl := hw w' w hit hjt
  have hsub := hflow.published_in_order hit hpub hij hex
  refine ⟨hsub, hcalled, ?_⟩
  intro q x hplain hq hprio hne honce_i honce_j hnew
  have hsent : ∀ item ∈ s.published.map Prod.snd, item ∈ s.sent := by
    intro item hitem
    obtain ⟨p, hp, rfl⟩ := mem_map.mp hitem
    rw [hflow.fifo]
    exact mem_append_left _ (mem_map.mpr ⟨p, hflow.mem_taken_of_published hp, rfl⟩)
  rw [show s.broker = _ from hcalled]
  refine (notBehind_foldl envs hplain hq hprio hne hnew hflow.nodup_published
    (fun item hitem => honce_i item (hsent item hitem))
    (fun item hitem => honce_j item (hsent item hitem)) ?_).2.1
  intro before after heq hbefore
  have hnd := hflow.nodup_published
  rw [heq] at hnd hsub
  exact mem_of_sublist_append hnd hsub hbefore

def oneQueue : Server :=
  [ProtocolEvent.request default 0 (.queueDeclare (str "q") false false false false true []),
    .request default 0 (.exchangeDeclare (str "ex") (str "direct") false false false false true []),
    .request default 0 (.queueBind (str "q") (str "ex") (str "rk") true [])].foldl protocolStep
      newServer

/-- The goroutine submits message `0` and then message `1`, and each worker takes one of them. -/
def overtakingRun : List (Action twoWorkers) :=
  let g := onlySubmitter
  let w := firstWorker
  let w' := secondWorker
  [.submit g ⟨0, str "ex", str "rk", 0, 1⟩, .send g, .submit g ⟨0, str "ex", str "rk", 1, 1⟩,
    .send g, .receive w, .receive w', .gathered w [str "ex"], .gathered w' [str "ex"], .publish w',
    .publish w]

def batchedRun : List (Action twoWorkers) :=
  let g := onlySubmitter
  let w := firstWorker
  [.submit g ⟨0, str "ex", str "rk", 0, 1⟩, .send g, .submit g ⟨0, str "ex", str "rk", 1, 1⟩,
    .send g, .receive w, .receive w, .gathered w [str "ex"], .publish w, .publish w]

/-- The message submitted second is enqueued first. -/
theorem overtaken :
    let s := overtakingRun.foldl (System.step (publishCall fun _ => default))
      (start twoWorkers oneQueue)
    s.sent.map PipelineItem.msg = [0, 1] ∧ s.sent.map PipelineItem.exchange = [str "ex", str "ex"] ∧
      s.broker.ready (str "q") = [1, 0] := by
  decide +kernel

theorem batchedRun_keeps_order :
    let s := batchedRun.foldl (System.step (publishCall fun _ => default))
      (start twoWorkers oneQueue)
    s.sent = [⟨0, str "ex", str "rk", 0, 1⟩, ⟨1, str "ex", str "rk", 1, 1⟩] ∧
      [⟨0, str "ex", str "rk", 0, 1⟩, ⟨1, str "ex", str "rk", 1, 1⟩].Sublist
        (s.published.map Prod.snd) ∧
      s.broker = (s.published.map Prod.snd).foldl (publishCall fun _ => default) oneQueue ∧
      s.broker.ready (str "q") = [0, 1] ∧ NotBehind 0 1 (s.broker.ready (str "q")) := by
  intro s
  have hsent : s.sent = [⟨0, str "ex", str "rk", 0, 1⟩, ⟨1, str "ex", str "rk", 1, 1⟩] := by
    decide +kernel
  obtain ⟨hcalls, hbroker, hqueue⟩ := sameWorker_keeps_order (fun _ => default) ⟨2, 2, 2⟩ 1 oneQueue
    batchedRun s rfl ⟨0, str "ex", str "rk", 0, 1⟩ ⟨1, str "ex", str "rk", 1, 1⟩
    (by decide +kernel) (by decide +kernel) (by decide) (by decide) (by decide +kernel)
  refine ⟨hsent, hcalls, hbroker, by decide +kernel, ?_⟩
  refine hqueue (str "q") ⟨str "q", false, false, false, [], none⟩ ?_ (by rfl) (by decide)
    (by decide) ?_ ?_ (by decide +kernel)
  · intro q x hq
    have hqueues : oneQueue.queues =
        (∅ : GoMap GoString Queue).set (str "q") ⟨str "q", false, false, false, [], none⟩ := rfl
    rw [hqueues, GoMap.get_set] at hq
    split at hq
    · cases hq; decide
    · cases hq
  · unfold SubmittedOnce; rw [hsent]; decide
  · unfold SubmittedOnce; rw [hsent]; decide

end Gomq.Pipeline
