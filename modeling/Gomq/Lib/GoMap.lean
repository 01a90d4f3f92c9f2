import Mathlib.Data.List.AList

/-!
# Finite maps and heaps

`GoMap K V` is a finite map (`AList` of a constant family). The order of its entries is an
accident of its history; code that ranges over a map takes the order from outside.
`Heap α` holds mutable records behind references.
-/

namespace Gomq

open List

abbrev GoMap (K V : Type) := AList (fun _ : K => V)

namespace GoMap

variable {K V : Type} [DecidableEq K]

def get (m : GoMap K V) (k : K) : Option V := m.lookup k

def set (m : GoMap K V) (k : K) (v : V) : GoMap K V := m.insert k v

def del (m : GoMap K V) (k : K) : GoMap K V := m.erase k

/-- The value under `k`, or the zero value of the type. -/
def getD (m : GoMap K V) (k : K) (d : V) : V := (m.get k).getD d

omit [DecidableEq K] in
def vals (m : GoMap K V) : List V := m.entries.map Sigma.snd

@[simp] theorem get_empty (k : K) : (∅ : GoMap K V).get k = none := rfl

@[simp] theorem get_set_self (m : GoMap K V) (k : K) (v : V) : (m.set k v).get k = some v :=
  AList.lookup_insert m

@[simp] theorem get_set_ne {m : GoMap K V} {k k' : K} {v : V} (h : k' ≠ k) :
    (m.set k v).get k' = m.get k' := AList.lookup_insert_ne h

theorem get_set (m : GoMap K V) (k k' : K) (v : V) :
    (m.set k v).get k' = if k' = k then some v else m.get k' := by
  by_cases h : k' = k
  · subst h; rw [if_pos rfl, get_set_self]
  · rw [if_neg h, get_set_ne h]

@[simp] theorem get_del_self (m : GoMap K V) (k : K) : (m.del k).get k = none :=
  AList.lookup_erase k m

@[simp] theorem get_del_ne {m : GoMap K V} {k k' : K} (h : k' ≠ k) :
    (m.del k).get k' = m.get k' := AList.lookup_erase_ne h

theorem get_del (m : GoMap K V) (k k' : K) :
    (m.del k).get k' = if k' = k then none else m.get k' := by
  by_cases h : k' = k
  · subst h; rw [if_pos rfl, get_del_self]
  · rw [if_neg h, get_del_ne h]

@[simp] theorem getD_set_self (m : GoMap K V) (k : K) (v d : V) : (m.set k v).getD k d = v := by
  rw [getD, get_set_self, Option.getD_some]

@[simp] theorem getD_set_ne {m : GoMap K V} {k k' : K} {v d : V} (h : k' ≠ k) :
    (m.set k v).getD k' d = m.getD k' d := by rw [getD, get_set_ne h, getD]

theorem getD_set (m : GoMap K V) (k k' : K) (v d : V) :
    (m.set k v).getD k' d = if k' = k then v else m.getD k' d := by
  by_cases h : k' = k
  · subst h; rw [if_pos rfl, getD_set_self]
  · rw [if_neg h, getD_set_ne h]

theorem getD_of_get {m : GoMap K V} {k : K} {v d : V} (h : m.get k = some v) :
    m.getD k d = v := by rw [getD, h, Option.getD_some]

theorem getD_of_none {m : GoMap K V} {k : K} {d : V} (h : m.get k = none) :
    m.getD k d = d := by rw [getD, h, Option.getD_none]

/-! ## Keys and values -/

theorem mem_keys_iff {m : GoMap K V} {k : K} : k ∈ m.keys ↔ ∃ v, m.get k = some v := by
  rw [← AList.mem_keys, ← AList.lookup_isSome, Option.isSome_iff_exists]
  rfl

theorem mem_entries_iff {m : GoMap K V} {k : K} {v : V} :
    (⟨k, v⟩ : Sigma fun _ : K => V) ∈ m.entries ↔ m.get k = some v := by
  rw [← AList.mem_lookup_iff]
  rfl

theorem mem_vals_iff {m : GoMap K V} {v : V} : v ∈ m.vals ↔ ∃ k, m.get k = some v := by
  unfold vals
  rw [mem_map]
  constructor
  · rintro ⟨⟨k, w⟩, hmem, rfl⟩
    exact ⟨k, mem_entries_iff.mp hmem⟩
  · rintro ⟨k, hk⟩
    exact ⟨⟨k, v⟩, mem_entries_iff.mpr hk, rfl⟩

theorem del_of_get_none {m : GoMap K V} {k : K} (h : m.get k = none) : m.del k = m := by
  apply AList.ext
  exact kerase_of_notMem_keys (AList.lookup_eq_none.mp h)

theorem vals_perm_of_get {m : GoMap K V} {k : K} {v : V} (h : m.get k = some v) :
    m.vals.Perm (v :: (m.del k).vals) := by
  have hk : k ∈ m.entries.keys := mem_keys_iff.mpr ⟨v, h⟩
  obtain ⟨w, l₁, l₂, -, hm, hdel⟩ := exists_of_kerase hk
  -- the entry under `k` is the one the erasure takes out
  have hw : m.get k = some w := mem_entries_iff.mp (by rw [hm]; simp)
  obtain rfl : w = v := Option.some.inj (hw.symm.trans h)
  have hd : (m.del k).entries = l₁ ++ l₂ := hdel
  rw [vals, vals, hd, hm, map_append, map_append, map_cons]
  exact perm_middle

theorem vals_set (m : GoMap K V) (k : K) (v : V) : (m.set k v).vals = v :: (m.del k).vals := by
  show (List.kinsert k v m.entries).map Sigma.snd = _
  rw [kinsert_def]
  rfl

theorem vals_set_perm {m : GoMap K V} {k : K} (h : m.get k = none) (v : V) :
    (m.set k v).vals.Perm (v :: m.vals) := by
  rw [vals_set, del_of_get_none h]

theorem mem_keys_set {m : GoMap K V} {k k' : K} {v : V} :
    k' ∈ (m.set k v).keys ↔ k' = k ∨ k' ∈ m.keys := by
  rw [mem_keys_iff, mem_keys_iff, get_set]
  by_cases hk : k' = k
  · simp [hk]
  · simp [hk]

theorem mem_keys_del {m : GoMap K V} {k k' : K} : k' ∈ (m.del k).keys ↔ k' ≠ k ∧ k' ∈ m.keys := by
  rw [mem_keys_iff, mem_keys_iff, get_del]
  by_cases hk : k' = k
  · simp [hk]
  · simp [hk]

theorem forall_mem_keys_set {m : GoMap K V} {P : K → Prop} (h : ∀ k ∈ m.keys, P k) {k : K}
    (hk : P k) (v : V) : ∀ k' ∈ (m.set k v).keys, P k' := by
  intro k' hk'
  rcases mem_keys_set.mp hk' with rfl | hk'
  · exact hk
  · exact h k' hk'

theorem forall_mem_keys_del {m : GoMap K V} {P : K → Prop} (h : ∀ k ∈ m.keys, P k) (k : K) :
    ∀ k' ∈ (m.del k).keys, P k' :=
  fun k' hk' => h k' (mem_keys_del.mp hk').2

theorem keys_set_perm_of_mem {m : GoMap K V} {k : K} (h : k ∈ m.keys) (v : V) :
    (m.set k v).keys.Perm m.keys := by
  refine (perm_ext_iff_of_nodup (AList.keys_nodup _) (AList.keys_nodup m)).mpr fun k' => ?_
  rw [mem_keys_set, or_iff_right_of_imp]
  rintro rfl
  exact h

theorem keys_set_perm_of_not_mem {m : GoMap K V} {k : K} (h : k ∉ m.keys) (v : V) :
    (m.set k v).keys.Perm (k :: m.keys) := by
  have hnodup : (k :: m.keys).Nodup := nodup_cons.mpr ⟨h, m.keys_nodup⟩
  refine (perm_ext_iff_of_nodup (AList.keys_nodup _) hnodup).mpr fun k' => ?_
  rw [mem_keys_set, mem_cons]

theorem keys_perm_del {m : GoMap K V} {k : K} (h : k ∈ m.keys) :
    m.keys.Perm (k :: (m.del k).keys) := by
  have hnodup : (k :: (m.del k).keys).Nodup :=
    nodup_cons.mpr ⟨fun hmem => (mem_keys_del.mp hmem).1 rfl, AList.keys_nodup _⟩
  refine (perm_ext_iff_of_nodup m.keys_nodup hnodup).mpr fun k' => ?_
  rw [mem_cons, mem_keys_del]
  by_cases hk : k' = k
  · simp [hk, h]
  · simp [hk]

theorem del_of_not_mem {m : GoMap K V} {k : K} (h : k ∉ m.keys) : m.del k = m := by
  refine del_of_get_none ?_
  by_contra hne
  exact h (mem_keys_iff.mpr (Option.ne_none_iff_exists'.mp hne))

theorem vals_eq_filterMap (m : GoMap K V) : m.vals = m.keys.filterMap m.get := by
  show m.entries.map Sigma.snd = (m.entries.map Sigma.fst).filterMap m.get
  rw [filterMap_map, ← filterMap_eq_map]
  exact filterMap_congr fun e he => (mem_entries_iff.mp he).symm

theorem length_filterMap_get {m : GoMap K V} {l : List K} (h : ∀ k ∈ l, k ∈ m.keys) :
    (l.filterMap m.get).length = l.length := by
  induction l with
  | nil => rfl
  | cons k l ih =>
    obtain ⟨v, hv⟩ := mem_keys_iff.mp (h k mem_cons_self)
    rw [filterMap_cons_some hv, length_cons, length_cons,
      ih fun k' hk' => h k' (mem_cons_of_mem k hk')]

/-! ## Filling a map -/

/-- Put `v` under `k` unless something is there. -/
def setNew (m : GoMap K V) (k : K) (v : V) : GoMap K V :=
  match m.get k with
  | some _ => m
  | none => m.set k v

theorem get_setNew (m : GoMap K V) (k k' : K) (v : V) :
    (m.setNew k v).get k' = (m.get k').or (if k = k' then some v else none) := by
  unfold setNew
  by_cases hk : k = k'
  · subst hk
    cases h : m.get k with
    | none => simp
    | some w => simp [h]
  · cases h : m.get k with
    | none => simp [hk, get_set_ne (Ne.symm hk)]
    | some w => simp [hk]

theorem get_foldl_setNew {α : Type} (key : α → K) (val : α → V) (l : List α) (m : GoMap K V)
    (k : K) :
    (l.foldl (fun m a => m.setNew (key a) (val a)) m).get k =
      (m.get k).or ((l.find? fun a => key a = k).map val) := by
  induction l generalizing m with
  | nil => simp
  | cons a l ih =>
    rw [foldl_cons, ih, get_setNew, Option.or_assoc]
    by_cases ha : key a = k
    · simp [ha]
    · simp [ha]

/-- Values that know their keys are found by them, in whatever order they are listed. -/
theorem find?_vals {m : GoMap K V} {key : V → K} (hkey : ∀ k v, m.get k = some v → key v = k)
    {l : List V} (hl : l.Perm m.vals) (k : K) : (l.find? fun v => key v = k) = m.get k := by
  have hmem : ∀ v, v ∈ l ↔ ∃ k, m.get k = some v := fun v => hl.mem_iff.trans mem_vals_iff
  cases hfind : l.find? fun v => key v = k with
  | some v =>
    obtain ⟨k', hk'⟩ := (hmem v).mp (mem_of_find?_eq_some hfind)
    have hk : key v = k := by simpa using List.find?_some hfind
    rw [← hk, hkey k' v hk', hk']
  | none =>
    symm
    by_contra hne
    obtain ⟨v, hv⟩ := Option.ne_none_iff_exists'.mp hne
    have := List.find?_eq_none.mp hfind v ((hmem v).mpr ⟨k, hv⟩)
    simp [hkey k v hv] at this

end GoMap

/-! ## Heaps -/

/-- Records behind references `0, …, next - 1`. -/
structure Heap (α : Type) where
  next : ℕ
  cells : ℕ → α

namespace Heap

variable {α : Type}

def empty [Inhabited α] : Heap α := ⟨0, fun _ => default⟩

def read (h : Heap α) (r : ℕ) : α := h.cells r

/-- A new record; its reference is the old `next`. -/
def alloc (h : Heap α) (a : α) : Heap α := ⟨h.next + 1, Function.update h.cells h.next a⟩

def modify (h : Heap α) (r : ℕ) (f : α → α) : Heap α :=
  ⟨h.next, Function.update h.cells r (f (h.cells r))⟩

@[simp] theorem read_alloc_self (h : Heap α) (a : α) : (h.alloc a).read h.next = a :=
  Function.update_self ..

@[simp] theorem read_alloc_ne {h : Heap α} {a : α} {r : ℕ} (hr : r ≠ h.next) :
    (h.alloc a).read r = h.read r := Function.update_of_ne hr ..

@[simp] theorem read_modify_self (h : Heap α) (r : ℕ) (f : α → α) :
    (h.modify r f).read r = f (h.read r) := Function.update_self ..

@[simp] theorem read_modify_ne {h : Heap α} {r r' : ℕ} {f : α → α} (hr : r' ≠ r) :
    (h.modify r f).read r' = h.read r' := Function.update_of_ne hr ..

theorem read_modify (h : Heap α) (r r' : ℕ) (f : α → α) :
    (h.modify r f).read r' = if r' = r then f (h.read r) else h.read r' := by
  by_cases hr : r' = r
  · subst hr; rw [if_pos rfl, read_modify_self]
  · rw [if_neg hr, read_modify_ne hr]

/-- A part of the records that a change leaves alone. -/
theorem part_read_modify {β : Type} {h : Heap α} {r r' : ℕ} (part : α → β) (f : α → α)
    (hf : ∀ a, part (f a) = part a) : part ((h.modify r f).read r') = part (h.read r') := by
  rw [read_modify]
  split
  · next heq => rw [hf, heq]
  · rfl

end Heap

end Gomq
