import Mathlib.Data.Finset.Card
import Mathlib.Logic.Relation

/-!
# Depth-first walks with one visited set

A walk enters nodes under labels: an edge says which node to enter and under which label. A node
that was entered before is refused, whatever the label, so each node is entered once, under the
label of its first edge in depth-first order. What is entered can be reached
(`leads_of_mem_visits`), and with fuel for all nodes everything that can be reached is entered, if
under another label (`mem_visits_of_leads`).

A search is a walk that stops at its target; it finds what can be reached (`search_iff`). `Searches`
is the same search without fuel; it ends on every finite graph (`searches_search`). A search decides
whether one more edge closes a cycle (`acyclic_addEdge_iff`).
-/

namespace Gomq.Dfs

open List

variable {N K : Type}

/-! ## Edges -/

/-- One edge of the walk: what was entered so far, and the visited set. -/
def follow (walk : N → K → List N → List (N × K) × List N) (acc : List (N × K) × List N)
    (e : N × K) : List (N × K) × List N :=
  (acc.1 ++ (walk e.1 e.2 acc.2).1, (walk e.1 e.2 acc.2).2)

/-- What was entered before the edges stays in front. -/
theorem foldl_follow (walk : N → K → List N → List (N × K) × List N) (l : List (N × K))
    (a : List (N × K)) (vis : List N) :
    l.foldl (follow walk) (a, vis) =
      (a ++ (l.foldl (follow walk) ([], vis)).1, (l.foldl (follow walk) ([], vis)).2) := by
  induction l generalizing a vis with
  | nil => simp
  | cons e l ih =>
    rw [foldl_cons, foldl_cons, follow, follow, ih, ih (([] : List (N × K)) ++ _)]
    simp

/-- An edge from the node of `v`. -/
def Leads (next : N → Option (List (N × K))) (v e : N × K) : Prop := ∃ l, next v.1 = some l ∧ e ∈ l

/-! ## What a walk leaves behind -/

/-- The result `r` of a walk that starts with the visited set `vis`: a node is visited because it
was before, is not there, or was entered, and the edges of what was entered lead to visited
nodes. -/
structure Walked (next : N → Option (List (N × K))) (vis : List N)
    (r : List (N × K) × List N) : Prop where
  subset : vis ⊆ r.2
  entered : ∀ n ∈ r.2, n ∈ vis ∨ next n = none ∨ ∃ k, (n, k) ∈ r.1
  closed : ∀ v ∈ r.1, ∀ e, Leads next v e → e.1 ∈ r.2

namespace Walked

variable {next : N → Option (List (N × K))} {vis vis' vis'' : List N} {a b : List (N × K)}

theorem refl (vis : List N) : Walked next vis ([], vis) where
  subset := List.Subset.refl vis
  entered := fun _ h => Or.inl h
  closed := fun _ hv => absurd hv not_mem_nil

theorem trans (h : Walked next vis (a, vis')) (h' : Walked next vis' (b, vis'')) :
    Walked next vis (a ++ b, vis'') where
  subset := List.Subset.trans h.subset h'.subset
  entered := by
    intro n hn
    rcases h'.entered n hn with hn | hn | ⟨k, hk⟩
    · rcases h.entered n hn with hn | hn | ⟨k, hk⟩
      · exact Or.inl hn
      · exact Or.inr (Or.inl hn)
      · exact Or.inr (Or.inr ⟨k, mem_append_left b hk⟩)
    · exact Or.inr (Or.inl hn)
    · exact Or.inr (Or.inr ⟨k, mem_append_right a hk⟩)
  closed := by
    intro v hv e he
    rcases mem_append.mp hv with hv | hv
    · exact h'.subset (h.closed v hv e he)
    · exact h'.closed v hv e he

end Walked

abbrev Edge (next : N → List N) (a b : N) : Prop := b ∈ next a

/-- What a search that fails leaves behind: each node it visited is not the target, and its edges
lead to visited nodes. -/
structure Explored (next : N → List N) (target : N) (vis vis' : List N) : Prop where
  subset : vis ⊆ vis'
  closed : ∀ n ∈ vis', n ∈ vis ∨ (n ≠ target ∧ ∀ e ∈ next n, e ∈ vis')

section Explored

variable {next : N → List N} {target : N} {vis vis' vis'' : List N}

theorem Explored.refl (vis : List N) : Explored next target vis vis :=
  ⟨List.Subset.refl vis, fun _ h => Or.inl h⟩

theorem Explored.trans (h : Explored next target vis vis')
    (h' : Explored next target vis' vis'') : Explored next target vis vis'' where
  subset := List.Subset.trans h.subset h'.subset
  closed := by
    intro n hn
    rcases h'.closed n hn with hn | hn
    · rcases h.closed n hn with hn | ⟨ht, he⟩
      · exact Or.inl hn
      · exact Or.inr ⟨ht, fun e hmem => h'.subset (he e hmem)⟩
    · exact Or.inr hn

end Explored

/-! ## The walk -/

variable [DecidableEq N]

/-- The nodes that a walk from `n` enters, in order and with their labels, and the visited set. The
edges of a node that is not there are `none`; it is visited but not entered. -/
def visits (next : N → Option (List (N × K))) :
    ℕ → N → K → List N → List (N × K) × List N
  | 0, _, _, vis => ([], vis)
  | fuel + 1, n, k, vis =>
    if n ∈ vis then ([], vis)
    else
      match next n with
      | none => ([], n :: vis)
      | some l => l.foldl (follow (visits next fuel)) ([(n, k)], n :: vis)

section Equations

variable {next : N → Option (List (N × K))} {fuel : ℕ} {n : N} {k : K} {vis : List N}

theorem visits_visited (h : n ∈ vis) : visits next (fuel + 1) n k vis = ([], vis) := by
  unfold visits; rw [if_pos h]

theorem visits_missing (h : n ∉ vis) (hn : next n = none) :
    visits next (fuel + 1) n k vis = ([], n :: vis) := by
  unfold visits; rw [if_neg h, hn]

theorem visits_found {l : List (N × K)} (h : n ∉ vis) (hn : next n = some l) :
    visits next (fuel + 1) n k vis =
      l.foldl (follow (visits next fuel)) ([(n, k)], n :: vis) := by
  conv_lhs => unfold visits
  rw [if_neg h, hn]

end Equations

/-! ## What can be reached -/

theorem leads_of_mem_visits (next : N → Option (List (N × K))) :
    ∀ (fuel : ℕ) (n : N) (k : K) (vis : List N), ∀ v ∈ (visits next fuel n k vis).1,
      Relation.ReflTransGen (Leads next) (n, k) v ∧ next v.1 ≠ none := by
  intro fuel
  induction fuel with
  | zero => exact fun _ _ _ v hv => absurd hv not_mem_nil
  | succ fuel ih =>
    intro n k vis v hv
    by_cases hn : n ∈ vis
    · rw [visits_visited hn] at hv
      exact absurd hv not_mem_nil
    cases hx : next n with
    | none =>
      rw [visits_missing hn hx] at hv
      exact absurd hv not_mem_nil
    | some l =>
      have hfold : ∀ (l' : List (N × K)) (vis' : List N), l' ⊆ l →
          ∀ v ∈ (l'.foldl (follow (visits next fuel)) ([], vis')).1,
            Relation.ReflTransGen (Leads next) (n, k) v ∧ next v.1 ≠ none := by
        intro l'
        induction l' with
        | nil => exact fun _ _ v hv => absurd hv not_mem_nil
        | cons e l' ihl =>
          intro vis' hsub v hv
          rw [foldl_cons, follow, foldl_follow, nil_append, mem_append] at hv
          rcases hv with hv | hv
          · obtain ⟨hreach, hthere⟩ := ih _ _ _ v hv
            exact ⟨.head ⟨l, hx, hsub mem_cons_self⟩ hreach, hthere⟩
          · exact ihl _ (fun a ha => hsub (mem_cons_of_mem e ha)) v hv
      rw [visits_found hn hx, foldl_follow, singleton_append, mem_cons] at hv
      rcases hv with rfl | hv
      · exact ⟨.refl, by rw [hx]; exact Option.some_ne_none l⟩
      · exact hfold l _ (List.Subset.refl l) v hv

/-! ## Fuel -/

section Fuel

variable {U : Finset N} {n : N} {vis vis' : List N}

theorem card_sdiff_cons_lt (hU : n ∈ U) (h : n ∉ vis) :
    (U \ (n :: vis).toFinset).card < (U \ vis.toFinset).card := by
  apply Finset.card_lt_card
  refine Finset.ssubset_iff_subset_ne.mpr ⟨?_, fun heq => ?_⟩
  · intro y hy
    simp only [Finset.mem_sdiff, mem_toFinset, mem_cons, not_or] at hy ⊢
    exact ⟨hy.1, hy.2.2⟩
  · have hin : n ∈ U \ vis.toFinset := by simp [hU, h]
    rw [← heq] at hin
    simp at hin

theorem card_sdiff_le (h : vis ⊆ vis') : (U \ vis'.toFinset).card ≤ (U \ vis.toFinset).card := by
  apply Finset.card_le_card
  intro y hy
  simp only [Finset.mem_sdiff, mem_toFinset] at hy ⊢
  exact ⟨hy.1, fun hmem => hy.2 (h hmem)⟩

end Fuel

/-! ## What is entered -/

section Closed

variable {next : N → Option (List (N × K))} {U : Finset N}

theorem walked_foldl {fuel : ℕ}
    (ih : ∀ n k vis, (U \ vis.toFinset).card < fuel →
      Walked next vis (visits next fuel n k vis) ∧ n ∈ (visits next fuel n k vis).2)
    (l : List (N × K)) (vis : List N) (hfuel : (U \ vis.toFinset).card < fuel) :
    Walked next vis (l.foldl (follow (visits next fuel)) ([], vis)) ∧
      ∀ e ∈ l, e.1 ∈ (l.foldl (follow (visits next fuel)) ([], vis)).2 := by
  induction l generalizing vis with
  | nil => exact ⟨.refl vis, fun _ he => absurd he not_mem_nil⟩
  | cons e l ihl =>
    obtain ⟨hwalk, hmem⟩ := ih e.1 e.2 vis hfuel
    obtain ⟨hrest, hedges⟩ := ihl (visits next fuel e.1 e.2 vis).2
      (lt_of_le_of_lt (card_sdiff_le hwalk.subset) hfuel)
    rw [foldl_cons, follow, foldl_follow, nil_append]
    refine ⟨hwalk.trans hrest, fun e' he' => ?_⟩
    rcases mem_cons.mp he' with rfl | he'
    · exact hrest.subset hmem
    · exact hedges e' he'

variable (hU : ∀ n l, next n = some l → n ∈ U)

include hU

theorem walked_visits : ∀ (fuel : ℕ) (n : N) (k : K) (vis : List N),
    (U \ vis.toFinset).card < fuel →
      Walked next vis (visits next fuel n k vis) ∧ n ∈ (visits next fuel n k vis).2 := by
  intro fuel
  induction fuel with
  | zero => exact fun _ _ _ h => absurd h (Nat.not_lt_zero _)
  | succ fuel ih =>
    intro n k vis hfuel
    by_cases hn : n ∈ vis
    · rw [visits_visited hn]
      exact ⟨.refl vis, hn⟩
    cases hx : next n with
    | none =>
      rw [visits_missing hn hx]
      refine ⟨⟨subset_cons_self n vis, fun y hy => ?_, fun _ hv => absurd hv
        not_mem_nil⟩, mem_cons_self⟩
      rcases mem_cons.mp hy with rfl | hy
      · exact Or.inr (Or.inl hx)
      · exact Or.inl hy
    | some l =>
      have hless := card_sdiff_cons_lt (hU n l hx) hn
      obtain ⟨hwalk, hedges⟩ := walked_foldl ih l (n :: vis) (by omega)
      rw [visits_found hn hx, foldl_follow, singleton_append]
      refine ⟨⟨?_, fun y hy => ?_, fun v hv e he => ?_⟩, hwalk.subset mem_cons_self⟩
      · exact List.Subset.trans (subset_cons_self n vis) hwalk.subset
      · rcases hwalk.entered y hy with hy | hy | ⟨k', hk'⟩
        · rcases mem_cons.mp hy with rfl | hy
          · exact Or.inr (Or.inr ⟨k, mem_cons_self⟩)
          · exact Or.inl hy
        · exact Or.inr (Or.inl hy)
        · exact Or.inr (Or.inr ⟨k', mem_cons_of_mem _ hk'⟩)
      · rcases mem_cons.mp hv with rfl | hv
        · -- the node's own edges were all followed
          obtain ⟨l', hl', he⟩ := he
          obtain rfl : l = l' := Option.some.inj (hx.symm.trans hl')
          exact hedges e he
        · exact hwalk.closed v hv e he

theorem mem_visits_of_leads {fuel : ℕ} {n : N} {k : K} (hfuel : U.card < fuel) {v : N × K}
    (hv : Relation.ReflTransGen (Leads next) (n, k) v) (hthere : next v.1 ≠ none) :
    ∃ k', (v.1, k') ∈ (visits next fuel n k []).1 := by
  obtain ⟨hwalk, hroot⟩ := walked_visits hU fuel n k [] (by simpa using hfuel)
  have hmem : v.1 ∈ (visits next fuel n k []).2 := by
    induction hv with
    | refl => exact hroot
    | @tail v e _ hve ihv =>
      obtain ⟨l, hl, he⟩ := hve
      have hv' := ihv (by rw [hl]; exact Option.some_ne_none l)
      rcases hwalk.entered v.1 hv' with h | h | ⟨k', hk'⟩
      · exact absurd h not_mem_nil
      · rw [hl] at h; cases h
      · exact hwalk.closed _ hk' e ⟨l, hl, he⟩
  rcases hwalk.entered v.1 hmem with h | h | h
  · exact absurd h not_mem_nil
  · exact absurd h hthere
  · exact h

end Closed

/-! ## Search -/

/-- Look for `target` from `n` on, and stop when it is found: the answer and the visited set. -/
def search (next : N → List N) (target : N) : ℕ → N → List N → Bool × List N
  | 0, _, vis => (false, vis)
  | fuel + 1, n, vis =>
    if n = target then (true, vis)
    else if n ∈ vis then (false, vis)
    else
      (next n).foldl (fun acc e => if acc.1 then acc else search next target fuel e acc.2)
        (false, n :: vis)

def searchStep (next : N → List N) (target : N) (fuel : ℕ) (acc : Bool × List N) (e : N) :
    Bool × List N :=
  if acc.1 then acc else search next target fuel e acc.2

section Search

variable {next : N → List N} {target n : N} {fuel : ℕ} {vis : List N}

theorem search_target : search next target (fuel + 1) target vis = (true, vis) := by
  unfold search; rw [if_pos rfl]

theorem search_visited (hn : n ≠ target) (h : n ∈ vis) :
    search next target (fuel + 1) n vis = (false, vis) := by
  unfold search; rw [if_neg hn, if_pos h]

theorem search_new (hn : n ≠ target) (h : n ∉ vis) :
    search next target (fuel + 1) n vis =
      (next n).foldl (searchStep next target fuel) (false, n :: vis) := by
  conv_lhs => unfold search
  rw [if_neg hn, if_neg h]
  rfl

theorem foldl_searchStep_found (l : List N) :
    l.foldl (searchStep next target fuel) (true, vis) = (true, vis) := by
  induction l with
  | nil => rfl
  | cons e l ih => simpa [searchStep] using ih

theorem foldl_searchStep_cons (e : N) (l : List N) :
    (e :: l).foldl (searchStep next target fuel) (false, vis) =
      l.foldl (searchStep next target fuel) (search next target fuel e vis) := by
  simp [searchStep]

theorem reach_of_search : ∀ (fuel : ℕ) (n : N) (vis : List N),
    (search next target fuel n vis).1 = true →
      Relation.ReflTransGen (Edge next) n target := by
  intro fuel
  induction fuel with
  | zero => intro n vis h; simp [search] at h
  | succ fuel ih =>
    intro n vis h
    by_cases hn : n = target
    · subst hn; exact .refl
    by_cases hv : n ∈ vis
    · simp [search_visited hn hv] at h
    have hfold : ∀ (l : List N) (vis : List N), l ⊆ next n →
        (l.foldl (searchStep next target fuel) (false, vis)).1 = true →
          Relation.ReflTransGen (Edge next) n target := by
      intro l
      induction l with
      | nil => intro vis _ h; simp at h
      | cons e l ihl =>
        intro vis hsub h
        rw [foldl_searchStep_cons] at h
        rcases hs : search next target fuel e vis with ⟨_ | _, vis'⟩
        · rw [hs] at h
          exact ihl vis' (fun a ha => hsub (mem_cons_of_mem e ha)) h
        · exact .head (hsub mem_cons_self) (ih e vis (by rw [hs]))
    rw [search_new hn hv] at h
    exact hfold _ _ (List.Subset.refl _) h

variable {U : Finset N}

theorem explored_foldl
    (ih : ∀ n vis, (U \ vis.toFinset).card < fuel → (search next target fuel n vis).1 = false →
      Explored next target vis (search next target fuel n vis).2 ∧
        n ∈ (search next target fuel n vis).2)
    (l : List N) (vis : List N) (hfuel : (U \ vis.toFinset).card < fuel)
    (h : (l.foldl (searchStep next target fuel) (false, vis)).1 = false) :
    Explored next target vis (l.foldl (searchStep next target fuel) (false, vis)).2 ∧
      ∀ e ∈ l, e ∈ (l.foldl (searchStep next target fuel) (false, vis)).2 := by
  induction l generalizing vis with
  | nil => exact ⟨.refl vis, fun _ he => absurd he not_mem_nil⟩
  | cons e l ihl =>
    rw [foldl_searchStep_cons] at h ⊢
    rcases hs : search next target fuel e vis with ⟨_ | _, vis'⟩
    · have hstep := ih e vis hfuel (by rw [hs])
      rw [hs] at h hstep
      obtain ⟨hrest, hedges⟩ := ihl vis' (lt_of_le_of_lt (card_sdiff_le hstep.1.subset) hfuel) h
      refine ⟨hstep.1.trans hrest, fun e' he' => ?_⟩
      rcases mem_cons.mp he' with rfl | he'
      · exact hrest.subset hstep.2
      · exact hedges e' he'
    · rw [hs, foldl_searchStep_found] at h
      simp at h

variable (hU : ∀ n, next n ≠ [] → n ∈ U)

include hU

theorem explored_search : ∀ (fuel : ℕ) (n : N) (vis : List N),
    (U \ vis.toFinset).card < fuel → (search next target fuel n vis).1 = false →
      Explored next target vis (search next target fuel n vis).2 ∧
        n ∈ (search next target fuel n vis).2 := by
  intro fuel
  induction fuel with
  | zero => exact fun _ _ h => absurd h (Nat.not_lt_zero _)
  | succ fuel ih =>
    intro n vis hfuel h
    by_cases hn : n = target
    · subst hn; simp [search_target] at h
    by_cases hv : n ∈ vis
    · rw [search_visited hn hv]
      exact ⟨.refl vis, hv⟩
    rw [search_new hn hv] at h ⊢
    have hall : Explored next target (n :: vis)
          ((next n).foldl (searchStep next target fuel) (false, n :: vis)).2 ∧
        ∀ e ∈ next n,
          e ∈ ((next n).foldl (searchStep next target fuel) (false, n :: vis)).2 := by
      by_cases hnil : next n = []
      · -- a node without edges may lie outside `U`; it needs no fuel
        rw [hnil]
        exact ⟨.refl _, fun _ he => absurd he not_mem_nil⟩
      · have hless := card_sdiff_cons_lt (hU n hnil) hv
        exact explored_foldl ih (next n) (n :: vis) (by omega) h
    obtain ⟨hex, hedges⟩ := hall
    refine ⟨⟨List.Subset.trans (subset_cons_self n vis) hex.subset, fun a ha => ?_⟩,
      hex.subset mem_cons_self⟩
    rcases hex.closed a ha with hmem | hmem
    · rcases mem_cons.mp hmem with rfl | hmem
      · exact Or.inr ⟨hn, hedges⟩
      · exact Or.inl hmem
    · exact Or.inr hmem

/-- With fuel for all nodes that have edges, the search finds exactly what can be reached. -/
theorem search_iff {fuel : ℕ} (hfuel : U.card < fuel) (n : N) :
    (search next target fuel n []).1 = true ↔ Relation.ReflTransGen (Edge next) n target := by
  refine ⟨reach_of_search fuel n [], fun hreach => ?_⟩
  by_contra hfound
  obtain ⟨hex, hmem⟩ := explored_search hU fuel n [] (by simpa using hfuel)
    (Bool.eq_false_iff.mpr hfound)
  -- the visited set is closed under edges, so it has the target
  have hclosed : ∀ a, Relation.ReflTransGen (Edge next) n a →
      a ∈ (search next target fuel n []).2 := by
    intro a ha
    induction ha with
    | refl => exact hmem
    | tail _ hedge ihr =>
      rcases hex.closed _ ihr with h | h
      · exact absurd h not_mem_nil
      · exact h.2 _ hedge
  have htarget := hclosed target hreach
  rcases hex.closed target htarget with h | h
  · exact absurd h not_mem_nil
  · exact h.1 rfl

end Search

/-! ## The search without fuel -/

/-- The loop of a search over nodes, as it runs without fuel: it ends at the target, skips what was
visited, and goes through the edges of any other node first. -/
inductive Searches (next : N → List N) (target : N) : List N → List N → Bool × List N → Prop
  | done {vis : List N} : Searches next target [] vis (false, vis)
  | found {l vis : List N} : Searches next target (target :: l) vis (true, vis)
  | visited {n : N} {l vis : List N} {r : Bool × List N} (hn : n ≠ target) (hv : n ∈ vis)
      (hl : Searches next target l vis r) : Searches next target (n :: l) vis r
  | within {n : N} {l vis vis' : List N} (hn : n ≠ target) (hv : n ∉ vis)
      (hin : Searches next target (next n) (n :: vis) (true, vis')) :
      Searches next target (n :: l) vis (true, vis')
  | behind {n : N} {l vis vis' : List N} {r : Bool × List N} (hn : n ≠ target) (hv : n ∉ vis)
      (hin : Searches next target (next n) (n :: vis) (false, vis'))
      (hl : Searches next target l vis' r) : Searches next target (n :: l) vis r

section Searches

variable {next : N → List N} {target n : N} {l vis vis' : List N} {r r' : Bool × List N}

omit [DecidableEq N] in
theorem Searches.unique (h : Searches next target l vis r) (h' : Searches next target l vis r') :
    r = r' := by
  induction h generalizing r' with
  | done => cases h'; rfl
  | found =>
    cases h' with
    | found => rfl
    | visited hn => exact absurd rfl hn
    | within hn => exact absurd rfl hn
    | behind hn => exact absurd rfl hn
  | visited hn hv _ ih =>
    cases h' with
    | found => exact absurd rfl hn
    | visited _ _ hl => exact ih hl
    | within _ hv' => exact absurd hv hv'
    | behind _ hv' => exact absurd hv hv'
  | within hn hv _ ih =>
    cases h' with
    | found => exact absurd rfl hn
    | visited _ hv' => exact absurd hv' hv
    | within _ _ hin => exact ih hin
    | behind _ _ hin => cases ih hin
  | behind hn hv _ _ ihin ihl =>
    cases h' with
    | found => exact absurd rfl hn
    | visited _ hv' => exact absurd hv' hv
    | within _ _ hin => cases ihin hin
    | behind _ _ hin hl =>
      cases ihin hin
      exact ihl hl

omit [DecidableEq N] in
theorem Searches.cons_true (h : Searches next target [n] vis (true, vis')) (l : List N) :
    Searches next target (n :: l) vis (true, vis') := by
  cases h with
  | found => exact .found
  | visited _ _ hl => cases hl
  | within hn hv hin => exact .within hn hv hin
  | behind _ _ _ hl => cases hl

omit [DecidableEq N] in
theorem Searches.cons_false (h : Searches next target [n] vis (false, vis'))
    (hl : Searches next target l vis' r) : Searches next target (n :: l) vis r := by
  cases h with
  | visited hn hv hdone =>
    cases hdone
    exact .visited hn hv hl
  | behind hn hv hin hdone =>
    cases hdone
    exact .behind hn hv hin hl

variable {U : Finset N} (hU : ∀ n, next n ≠ [] → n ∈ U)

include hU

theorem searches_foldl {fuel : ℕ}
    (ih : ∀ n vis, (U \ vis.toFinset).card < fuel →
      Searches next target [n] vis (search next target fuel n vis))
    (l : List N) (vis : List N) (hfuel : (U \ vis.toFinset).card < fuel) :
    Searches next target l vis (l.foldl (searchStep next target fuel) (false, vis)) := by
  induction l generalizing vis with
  | nil => exact .done
  | cons e l ihl =>
    have hstep := ih e vis hfuel
    rw [foldl_searchStep_cons]
    rcases hs : search next target fuel e vis with ⟨_ | _, vis'⟩
    · rw [hs] at hstep
      have hexp := (explored_search hU fuel e vis hfuel (by rw [hs])).1
      rw [hs] at hexp
      exact hstep.cons_false (ihl vis' (lt_of_le_of_lt (card_sdiff_le hexp.subset) hfuel))
    · rw [hs] at hstep
      rw [foldl_searchStep_found]
      exact hstep.cons_true l

theorem searches_search (fuel : ℕ) (n : N) (vis : List N)
    (hfuel : (U \ vis.toFinset).card < fuel) :
    Searches next target [n] vis (search next target fuel n vis) := by
  induction fuel generalizing n vis with
  | zero => exact absurd hfuel (Nat.not_lt_zero _)
  | succ fuel ih =>
    by_cases hn : n = target
    · subst hn
      rw [search_target]
      exact .found
    by_cases hv : n ∈ vis
    · rw [search_visited hn hv]
      exact .visited hn hv .done
    rw [search_new hn hv]
    have hedges : Searches next target (next n) (n :: vis)
        ((next n).foldl (searchStep next target fuel) (false, n :: vis)) := by
      by_cases hnil : next n = []
      · rw [hnil]
        exact .done
      · have hless := card_sdiff_cons_lt (hU n hnil) hv
        exact searches_foldl hU ih (next n) (n :: vis) (by omega)
    rcases hr : (next n).foldl (searchStep next target fuel) (false, n :: vis) with ⟨_ | _, vis'⟩
    · rw [hr] at hedges
      exact .behind hn hv hedges .done
    · rw [hr] at hedges
      exact .within hn hv hedges

end Searches

/-! ## Cycles -/

def Acyclic (r : N → N → Prop) : Prop := ∀ n, ¬ Relation.TransGen r n n

omit [DecidableEq N]

theorem Acyclic.mono {r r' : N → N → Prop} (h : Acyclic r) (hsub : ∀ a b, r' a b → r a b) :
    Acyclic r' := fun n hn => h n (Relation.TransGen.mono hsub n n hn)

theorem transGen_addEdge {r r' : N → N → Prop} {x y : N}
    (hr : ∀ a b, r' a b ↔ r a b ∨ (a = x ∧ b = y)) {a b : N} (h : Relation.TransGen r' a b) :
    Relation.TransGen r a b ∨ (Relation.ReflTransGen r a x ∧ Relation.ReflTransGen r y b) := by
  induction h with
  | single hab =>
    rcases (hr _ _).mp hab with h | ⟨rfl, rfl⟩
    · exact Or.inl (.single h)
    · exact Or.inr ⟨.refl, .refl⟩
  | tail _ hbc ih =>
    rcases (hr _ _).mp hbc with hbc | ⟨rfl, rfl⟩
    · rcases ih with h | ⟨hx, hy⟩
      · exact Or.inl (h.tail hbc)
      · exact Or.inr ⟨hx, hy.tail hbc⟩
    · rcases ih with h | ⟨hx, -⟩
      · exact Or.inr ⟨h.to_reflTransGen, .refl⟩
      · exact Or.inr ⟨hx, .refl⟩

/-- One more edge closes a cycle exactly if its end led to its start. -/
theorem acyclic_addEdge_iff {r r' : N → N → Prop} {x y : N} (h : Acyclic r)
    (hr : ∀ a b, r' a b ↔ r a b ∨ (a = x ∧ b = y)) :
    Acyclic r' ↔ ¬ Relation.ReflTransGen r y x := by
  constructor
  · intro hac hyx
    have hback : Relation.ReflTransGen r' y x :=
      Relation.ReflTransGen.mono (fun a b hab => (hr a b).mpr (Or.inl hab)) y x hyx
    exact hac x (Relation.TransGen.head' ((hr x y).mpr (Or.inr ⟨rfl, rfl⟩)) hback)
  · intro hyx n hn
    rcases transGen_addEdge hr hn with hn | ⟨hx, hy⟩
    · exact h n hn
    · exact hyx (hy.trans hx)

end Gomq.Dfs
