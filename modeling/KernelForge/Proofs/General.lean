import Mathlib.Data.List.Nodup
import Mathlib.Data.List.Pairwise

/-!
# Lists, lookups and results

Facts about lists that speak of no definition of the project, kept in one place so that the modules
about code and about devices share them:

* lookups over a list (`mapM` in `Option` and in `Except`) told by the list of their results;
* an element found by its key, and the first or the last element with a property;
* lists taken apart at an element that one part lacks.
-/

namespace KernelForge

open List

section Lookups

variable {ε α β : Type} {l : List α} {r : List β}

/-- Lookups that all succeed still do so where each of them does. -/
theorem map_some_of {f g : α → Option β} (h : ∀ a b, f a = some b → g a = some b)
    (hl : l.map f = r.map some) : l.map g = r.map some := by
  rw [← hl]
  refine map_congr_left fun a ha => ?_
  obtain ⟨b, -, hb⟩ := mem_map.1 (hl ▸ mem_map_of_mem ha : f a ∈ r.map some)
  exact (h a b hb.symm).trans hb

theorem mapM_some_iff {f : α → Option β} :
    l.mapM f = some r ↔ l.map f = r.map some := by
  induction l generalizing r with
  | nil => cases r <;> simp
  | cons a l ih => cases r <;> simp [Option.bind_eq_some_iff, ih]

theorem mapM_some_of {f g : α → Option β} (h : ∀ a b, f a = some b → g a = some b)
    (hl : l.mapM f = some r) : l.mapM g = some r := by
  rw [mapM_some_iff] at hl ⊢
  exact map_some_of h hl

variable {x : Except ε α} {f : α → Except ε β}

theorem except_bind_ok {b : β} : x >>= f = .ok b ↔ ∃ a, x = .ok a ∧ f a = .ok b := by
  cases x with
  | error => exact ⟨nofun, fun ⟨_, h, _⟩ => nomatch h⟩
  | ok a => exact ⟨fun h => ⟨a, rfl, h⟩, fun ⟨_, rfl, h⟩ => h⟩

theorem except_mapM_cons_ok {a : α} :
    (a :: l).mapM f = .ok r ↔ ∃ b bs, f a = .ok b ∧ l.mapM f = .ok bs ∧ r = b :: bs := by
  rw [mapM_cons]
  constructor
  · intro h
    obtain ⟨b, hb, h⟩ := except_bind_ok.1 h
    obtain ⟨bs, hbs, h⟩ := except_bind_ok.1 h
    cases h
    exact ⟨b, bs, hb, hbs, rfl⟩
  · rintro ⟨b, bs, hb, hbs, rfl⟩
    exact except_bind_ok.2 ⟨b, hb, except_bind_ok.2 ⟨bs, hbs, rfl⟩⟩

/-- Results of a list are those of its members, in order. -/
theorem except_mapM_ok_iff : l.mapM f = .ok r ↔ l.map f = r.map .ok := by
  induction l generalizing r with
  | nil =>
    cases r with
    | nil => exact ⟨fun _ => rfl, fun _ => rfl⟩
    | cons => exact ⟨nofun, nofun⟩
  | cons a l ih =>
    rw [except_mapM_cons_ok]
    constructor
    · rintro ⟨b, bs, hb, hbs, rfl⟩
      rw [map_cons, map_cons, hb, ih.1 hbs]
    · intro h
      cases r with
      | nil => cases h
      | cons b bs =>
        exact ⟨b, bs, (List.cons.inj h).1, ih.2 (List.cons.inj h).2, rfl⟩

/-- A list of things that can all be read. -/
theorem mapM_ok_of {g : α → β} (h : ∀ a ∈ l, f a = .ok (g a)) : l.mapM f = .ok (l.map g) := by
  rw [except_mapM_ok_iff, map_map]
  exact map_congr_left h

end Lookups

/-! ## Elements and where they stand -/

variable {α β γ : Type}

/-- A pair of a zip is found by its key when keys differ. -/
theorem find?_zip_key [BEq α] [LawfulBEq α] {l : List (α × β)} {r : List γ}
    (hlen : l.length = r.length)
    (hnodup : (l.map Prod.fst).Nodup) {e : (α × β) × γ} (he : e ∈ l.zip r) :
    ((l.map Prod.fst).zip r).find? (fun e' => e'.1 == e.1.1) = some (e.1.1, e.2) := by
  induction l generalizing r with
  | nil => cases he
  | cons a l ih =>
    cases r with
    | nil => cases hlen
    | cons =>
      obtain ⟨ha, hnodup⟩ := nodup_cons.1 hnodup
      rw [map_cons, zip_cons_cons, List.find?_cons]
      rcases mem_cons.1 he with rfl | he
      · simp
      · have hne : a.1 ≠ e.1.1 := by
          rintro heq
          exact ha (mem_map.2 ⟨e.1, (of_mem_zip he).1, heq.symm⟩)
        rw [beq_false_of_ne hne]
        exact ih (by simpa using hlen) hnodup he

/-- An element that the second of two lists lacks stands in the first. -/
theorem split_left {u w t t' : List α} {a : α} (h : u ++ w = t ++ a :: t') (ha : a ∉ w) :
    ∃ v, u = t ++ a :: v ∧ t' = v ++ w := by
  rcases append_eq_append_iff.1 h with ⟨v, -, rfl⟩ | ⟨v, rfl, hv⟩
  · exact absurd (mem_append_right _ mem_cons_self) ha
  · cases v with
    | nil =>
      obtain rfl : a :: t' = w := hv
      exact absurd mem_cons_self ha
    | cons a' v =>
      obtain ⟨rfl, rfl⟩ := List.cons.inj hv
      exact ⟨v, rfl, rfl⟩

variable {l : List α} {P : α → Prop}

/-- The first element with a property. -/
theorem mem_split_first (h : ∃ a ∈ l, P a) :
    ∃ u d w, l = u ++ d :: w ∧ P d ∧ ∀ a ∈ u, ¬ P a := by
  classical
  obtain ⟨d, hd⟩ : ∃ d, l.find? (P ·) = some d := Option.isSome_iff_exists.1 (by simpa using h)
  obtain ⟨hP, u, w, rfl, hu⟩ := find?_eq_some_iff_append.1 hd
  exact ⟨u, d, w, rfl, by simpa using hP, by simpa using hu⟩

theorem mem_split_last (h : ∃ a ∈ l, P a) :
    ∃ u d w, l = u ++ d :: w ∧ P d ∧ ∀ a ∈ w, ¬ P a := by
  obtain ⟨w, d, u, hl, hd, hw⟩ := mem_split_first (l := l.reverse) (by simpa using h)
  exact ⟨u.reverse, d, w.reverse, by simpa using congrArg List.reverse hl, hd, by simpa using hw⟩

/-- Of lists without a common element, one has a given element. -/
theorem eq_of_mem_flatMap {g : α → List β} {a b : α} {x : β}
    (h : (l.flatMap g).Nodup) (ha : a ∈ l) (hb : b ∈ l) (hxa : x ∈ g a)
    (hxb : x ∈ g b) : a = b := by
  have : Std.Symm (Function.onFun List.Disjoint g) := ⟨fun _ _ h _ hb ha => h ha hb⟩
  by_contra hne
  exact (nodup_flatMap.1 h).2.forall ha hb hne hxa hxb

/-- Leaving out one more key takes its entry out. -/
theorem filter_perm [DecidableEq α] {entries : List (α × β)} {ks : List α} {k : α} {a : β}
    (hkeys : (entries.map Prod.fst).Nodup) (hmem : (k, a) ∈ entries) (hk : k ∉ ks) :
    (entries.filter fun e => e.1 ∉ ks).Perm ((k, a) :: entries.filter fun e => e.1 ∉ k :: ks) := by
  classical
  have hothers : (entries.filter fun e => e.1 ∉ ks).erase (k, a) =
      entries.filter fun e => e.1 ∉ k :: ks := by
    rw [((hkeys.of_map _).filter _).erase_eq_filter, filter_filter]
    refine filter_congr fun e he => Bool.eq_iff_iff.2 ?_
    -- keys are unique, so the entry is known by its key
    have hkey : e = (k, a) ↔ e.1 = k :=
      ⟨fun heq => heq ▸ rfl, fun heq => inj_on_of_nodup_map hkeys he hmem heq⟩
    simp [hkey]
  exact hothers ▸ perm_cons_erase (mem_filter.2 ⟨hmem, by simpa using hk⟩)

end KernelForge
