import Gomq.Lib.GoMap

/-!
# A map under encoded keys

A map from names to values is kept as a map from encoded names to documents. As long as no two names
in it are encoded alike, the one mirrors the other (`Mirrors`), and a read of all keys with a
property returns the documents of the names whose keys have it (`Mirrors.filter_perm`). A name that
is encoded like another one in the map costs an entry (`Mirrors.length_set_lt`,
`Mirrors.length_del_lt`).
-/

namespace Gomq

open List

section Mirrors

variable {N K V D : Type} [DecidableEq N] [DecidableEq K]

/-- The documents in `c` are those of the values in `a`, each under the key of its name, and no two
names share one. -/
structure Mirrors (enc : N → K) (doc : V → D) (a : GoMap N V) (c : GoMap K D) : Prop where
  get : ∀ n ∈ a.keys, c.get (enc n) = (a.get n).map doc
  keys : ∀ k ∈ c.keys, ∃ n ∈ a.keys, enc n = k
  inj : ∀ n ∈ a.keys, ∀ n' ∈ a.keys, enc n = enc n' → n = n'

/-- No other name in the map has the key of this one. -/
def SoleKey (enc : N → K) (a : GoMap N V) (n : N) : Prop := ∀ n' ∈ a.keys, enc n' = enc n → n' = n

namespace Mirrors

variable {enc : N → K} {doc : V → D} {a : GoMap N V} {c : GoMap K D} {n : N}

theorem empty : Mirrors enc doc (∅ : GoMap N V) ∅ where
  get _ h := absurd h not_mem_nil
  keys _ h := absurd h not_mem_nil
  inj _ h := absurd h not_mem_nil

theorem mem_keys (h : Mirrors enc doc a c) (hn : n ∈ a.keys) : enc n ∈ c.keys := by
  obtain ⟨v, hv⟩ := GoMap.mem_keys_iff.mp hn
  rw [GoMap.mem_keys_iff, h.get n hn, hv]
  exact ⟨doc v, rfl⟩

theorem keys_perm (h : Mirrors enc doc a c) : c.keys.Perm (a.keys.map enc) := by
  have hnodup : (a.keys.map enc).Nodup :=
    List.Nodup.map_on (fun n hn n' hn' => h.inj n hn n' hn') a.keys_nodup
  refine (perm_ext_iff_of_nodup c.keys_nodup hnodup).mpr fun k => ?_
  rw [mem_map]
  refine ⟨h.keys k, ?_⟩
  rintro ⟨n, hn, rfl⟩
  exact h.mem_keys hn

theorem filter_perm (h : Mirrors enc doc a c) (P : K → Bool) :
    ((c.keys.filter P).filterMap c.get).Perm
      (((a.keys.filter (P ∘ enc)).filterMap a.get).map doc) := by
  have hperm := (h.keys_perm.filter P).filterMap c.get
  rw [filter_map, filterMap_map] at hperm
  rw [map_filterMap]
  refine hperm.trans (.of_eq (filterMap_congr fun n hn => ?_))
  exact h.get n (mem_of_mem_filter hn)

section Step

variable (h : Mirrors enc doc a c)
include h

theorem set (hn : SoleKey enc a n) (v : V) :
    Mirrors enc doc (a.set n v) (c.set (enc n) (doc v)) where
  get n' hn' := by
    rw [GoMap.get_set, GoMap.get_set]
    by_cases heq : n' = n
    · rw [if_pos heq, if_pos (congrArg enc heq)]
      rfl
    · have hmem := (GoMap.mem_keys_set.mp hn').resolve_left heq
      rw [if_neg heq, if_neg fun hk => heq (hn n' hmem hk), h.get n' hmem]
  keys k hk := by
    rcases GoMap.mem_keys_set.mp hk with rfl | hk
    · exact ⟨n, GoMap.mem_keys_set.mpr (.inl rfl), rfl⟩
    · obtain ⟨n', hn', rfl⟩ := h.keys k hk
      exact ⟨n', GoMap.mem_keys_set.mpr (.inr hn'), rfl⟩
  inj n₁ h₁ n₂ h₂ heq := by
    rcases GoMap.mem_keys_set.mp h₁ with hn₁ | hn₁ <;>
      rcases GoMap.mem_keys_set.mp h₂ with hn₂ | hn₂
    · rw [hn₁, hn₂]
    · rw [hn₁] at heq ⊢
      exact (hn n₂ hn₂ heq.symm).symm
    · rw [hn₂] at heq ⊢
      exact hn n₁ hn₁ heq
    · exact h.inj n₁ hn₁ n₂ hn₂ heq

theorem del (hn : SoleKey enc a n) : Mirrors enc doc (a.del n) (c.del (enc n)) where
  get n' hn' := by
    obtain ⟨hne, hmem⟩ := GoMap.mem_keys_del.mp hn'
    rw [GoMap.get_del_ne hne, GoMap.get_del_ne fun hk => hne (hn n' hmem hk), h.get n' hmem]
  keys k hk := by
    obtain ⟨hne, hmem⟩ := GoMap.mem_keys_del.mp hk
    obtain ⟨n', hn', rfl⟩ := h.keys k hmem
    exact ⟨n', GoMap.mem_keys_del.mpr ⟨fun heq => hne (congrArg enc heq), hn'⟩, rfl⟩
  inj n₁ h₁ n₂ h₂ heq :=
    h.inj n₁ (GoMap.mem_keys_del.mp h₁).2 n₂ (GoMap.mem_keys_del.mp h₂).2 heq

theorem not_mem_of_not_soleKey (hn : ¬ SoleKey enc a n) : n ∉ a.keys := by
  intro hmem
  exact hn fun n' hn' heq => h.inj n' hn' n hmem heq

theorem enc_mem_of_not_soleKey (hn : ¬ SoleKey enc a n) : enc n ∈ c.keys := by
  obtain ⟨n', hn'⟩ := not_forall.mp hn
  obtain ⟨hmem, hn'⟩ := Classical.not_imp.mp hn'
  rw [← (Classical.not_imp.mp hn').1]
  exact h.mem_keys hmem

theorem length_filter (P : K → Bool) :
    (c.keys.filter P).length = (a.keys.filter (P ∘ enc)).length := by
  rw [(h.keys_perm.filter P).length_eq, filter_map, length_map]

theorem length_set_lt (hn : ¬ SoleKey enc a n) {P : K → Bool} (hP : P (enc n) = true) (v : V)
    (d : D) :
    ((c.set (enc n) d).keys.filter P).length < ((a.set n v).keys.filter (P ∘ enc)).length := by
  have hc := (GoMap.keys_set_perm_of_mem (h.enc_mem_of_not_soleKey hn) d).filter P
  have ha := (GoMap.keys_set_perm_of_not_mem (h.not_mem_of_not_soleKey hn) v).filter (P ∘ enc)
  have hcons : (P ∘ enc) n = true := hP
  rw [hc.length_eq, ha.length_eq, filter_cons_of_pos hcons, length_cons, h.length_filter]
  exact Nat.lt_succ_self _

theorem length_del_lt (hn : ¬ SoleKey enc a n) {P : K → Bool} (hP : P (enc n) = true) :
    ((c.del (enc n)).keys.filter P).length < ((a.del n).keys.filter (P ∘ enc)).length := by
  have hc := ((GoMap.keys_perm_del (h.enc_mem_of_not_soleKey hn)).filter P).length_eq
  rw [filter_cons_of_pos hP, length_cons, h.length_filter] at hc
  rw [GoMap.del_of_not_mem (h.not_mem_of_not_soleKey hn), hc]
  exact Nat.lt_succ_self _

end Step

end Mirrors

end Mirrors

end Gomq
