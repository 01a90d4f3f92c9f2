import Mathlib.Data.List.Nodup

/-!
# Secondary indexes

Records are told apart by an identifier and listed, under a key computed from each, in the lists of
an index. `Index ident key R idx` says that the lists hold exactly the records of `R`, each once and
under its own key. A record is added at the end of its list, and taken out by a search for its
identifier.
-/

namespace Gomq

open List

variable {α ι κ : Type}

/-- In a list without repeated identifiers, the search takes out the one record that has `i`. -/
theorem mem_eraseP_ident [BEq ι] [LawfulBEq ι] {ident : α → ι} {l : List α}
    (hl : (l.map ident).Nodup) (i : ι) (x : α) :
    x ∈ l.eraseP (fun y => ident y == i) ↔ x ∈ l ∧ ident x ≠ i := by
  induction l with
  | nil => simp
  | cons y l ih =>
    obtain ⟨hy, hl⟩ := nodup_cons.mp hl
    by_cases hi : ident y = i
    · rw [eraseP_cons_of_pos (by simpa using hi), mem_cons]
      have hne : x ∈ l → ident x ≠ i := fun hx heq =>
        hy (mem_map.mpr ⟨x, hx, heq.trans hi.symm⟩)
      constructor
      · exact fun hx => ⟨.inr hx, hne hx⟩
      · rintro ⟨rfl | hx, hx'⟩
        · exact absurd hi hx'
        · exact hx
    · rw [eraseP_cons_of_neg (by simpa using hi), mem_cons, mem_cons, ih hl]
      constructor
      · rintro (rfl | hx)
        · exact ⟨.inl rfl, hi⟩
        · exact ⟨.inr hx.1, hx.2⟩
      · rintro ⟨rfl | hx, hx'⟩
        · exact .inl rfl
        · exact .inr ⟨hx, hx'⟩

/-- The lists `idx` hold the records of `R`, each once and under its key. -/
structure Index (ident : α → ι) (key : α → κ) (R : α → Prop) (idx : κ → List α) : Prop where
  mem : ∀ k x, x ∈ idx k ↔ R x ∧ key x = k
  nodup : ∀ k, ((idx k).map ident).Nodup

namespace Index

variable {ident : α → ι} {key : α → κ} {R R' : α → Prop} {idx idx' : κ → List α}

theorem empty (h : ∀ x, ¬ R x) : Index ident key R (fun _ => []) where
  mem k x := by simp [h x]
  nodup k := nodup_nil

theorem congr {ident' : α → ι} {key' : α → κ} (h : Index ident key R idx)
    (hident : ∀ x, R x → ident' x = ident x) (hkey : ∀ x, R x → key' x = key x) :
    Index ident' key' R idx where
  mem k x := by
    rw [h.mem]
    exact and_congr_right fun hx => by rw [hkey x hx]
  nodup k := by
    have hmap : (idx k).map ident' = (idx k).map ident :=
      map_congr_left fun x hx => hident x ((h.mem k x).mp hx).1
    rw [hmap]
    exact h.nodup k

theorem congr_right (h : Index ident key R idx) (hR : ∀ x, R' x ↔ R x)
    (hidx : ∀ k, idx' k = idx k) : Index ident key R' idx' where
  mem k x := by rw [hidx, h.mem, hR]
  nodup k := by
    rw [hidx]
    exact h.nodup k

theorem add (h : Index ident key R idx) {x : α} (hnew : ∀ y, R y → ident y ≠ ident x)
    (hR : ∀ y, R' y ↔ R y ∨ y = x) (hself : idx' (key x) = idx (key x) ++ [x])
    (hother : ∀ k, k ≠ key x → idx' k = idx k) : Index ident key R' idx' where
  mem k y := by
    rw [hR]
    by_cases hk : k = key x
    · subst hk
      rw [hself, mem_append, h.mem, mem_singleton]
      constructor
      · rintro (⟨hy, hkey⟩ | rfl)
        · exact ⟨.inl hy, hkey⟩
        · exact ⟨.inr rfl, rfl⟩
      · rintro ⟨hy | rfl, hkey⟩
        · exact .inl ⟨hy, hkey⟩
        · exact .inr rfl
    · rw [hother k hk, h.mem]
      constructor
      · exact fun ⟨hy, hkey⟩ => ⟨.inl hy, hkey⟩
      · rintro ⟨hy | rfl, hkey⟩
        · exact ⟨hy, hkey⟩
        · exact absurd hkey.symm hk
  nodup k := by
    by_cases hk : k = key x
    · subst hk
      rw [hself, map_append, map_singleton, nodup_append]
      refine ⟨h.nodup _, nodup_singleton _, ?_⟩
      rintro _ hi j hj rfl
      obtain ⟨y, hy, heq⟩ := mem_map.mp hi
      exact hnew y ((h.mem _ y).mp hy).1 (heq.trans (mem_singleton.mp hj))
    · rw [hother k hk]
      exact h.nodup k

theorem remove [BEq ι] [LawfulBEq ι] (h : Index ident key R idx) {x : α}
    (hinj : ∀ y, R y → ident y = ident x → y = x) (hR : ∀ y, R' y ↔ R y ∧ y ≠ x)
    (hself : idx' (key x) = (idx (key x)).eraseP fun y => ident y == ident x)
    (hother : ∀ k, k ≠ key x → idx' k = idx k) : Index ident key R' idx' where
  mem k y := by
    have hne : R y → (ident y ≠ ident x ↔ y ≠ x) := fun hy =>
      not_congr ⟨hinj y hy, fun heq => by rw [heq]⟩
    rw [hR]
    by_cases hk : k = key x
    · subst hk
      rw [hself, mem_eraseP_ident (h.nodup _), h.mem]
      constructor
      · rintro ⟨⟨hy, hkey⟩, hid⟩
        exact ⟨⟨hy, (hne hy).mp hid⟩, hkey⟩
      · rintro ⟨⟨hy, hyx⟩, hkey⟩
        exact ⟨⟨hy, hkey⟩, (hne hy).mpr hyx⟩
    · rw [hother k hk, h.mem]
      constructor
      · rintro ⟨hy, hkey⟩
        exact ⟨⟨hy, fun heq => hk (by rw [← hkey, heq])⟩, hkey⟩
      · rintro ⟨⟨hy, -⟩, hkey⟩
        exact ⟨hy, hkey⟩
  nodup k := by
    by_cases hk : k = key x
    · subst hk
      rw [hself]
      exact (h.nodup _).sublist (eraseP_sublist.map ident)
    · rw [hother k hk]
      exact h.nodup k

end Index

end Gomq
