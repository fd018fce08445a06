import KernelForge.Table
import KernelForge.Proofs.General

/-!
# Entries of tables

What storing and forgetting do to the list of a table's entries, as far as its values are counted:
a new key adds one entry, a known key has its entry replaced, and forgetting takes one out.
-/

namespace KernelForge

open List

namespace Table

variable {κ α : Type} [DecidableEq κ] {t : Table κ α} {k : κ} {a b : α} {l : List (κ × α)}

/-- Store several values. -/
def insertAll (entries : List (κ × α)) (t : Table κ α) : Table κ α :=
  entries.foldl (fun t e => t.insert e.1 e.2) t

/-- A value under a new key hides no other value. -/
theorem get?_insert_of_none {k' : κ} (hk : t.get? k = none)
    (h : t.get? k' = some a) : (t.insert k b).get? k' = some a := by
  rw [get?_insert, if_neg, h]
  rintro rfl
  rw [hk] at h
  cases h

theorem get?_insert_self (t : Table κ α) (k : κ) (a : α) : (t.insert k a).get? k = some a := by
  rw [get?_insert, if_pos rfl]

/-- What is stored in a table was stored last or before. -/
theorem get?_insert_cases {k' : κ}
    (h : (t.insert k a).get? k' = some b) : (k = k' ∧ a = b) ∨ t.get? k' = some b := by
  rw [get?_insert] at h
  split at h
  · next hk => exact .inl ⟨hk, Option.some.inj h⟩
  · exact .inr h

theorem put_of_find_none (h : find k l = none) : put k a l = l ++ [(k, a)] := by
  induction l with
  | nil => rfl
  | cons e rest ih =>
    obtain ⟨k', b⟩ := e
    simp only [find] at h
    split at h
    · cases h
    · next hne => simp [put, hne, ih h]

/-- A new key is stored at the end. -/
theorem entries_insert_of_none (h : t.get? k = none) :
    (t.insert k a).entries = t.entries ++ [(k, a)] :=
  put_of_find_none h

theorem drop_perm (h : find k l = some a) : ((k, a) :: drop k l).Perm l := by
  induction l with
  | nil => cases h
  | cons e rest ih =>
    obtain ⟨k', b⟩ := e
    simp only [find] at h
    split at h
    · next heq =>
      cases h
      simp [drop, heq]
    · next hne =>
      simp only [drop, if_neg hne]
      exact (List.Perm.swap _ _ _).trans ((ih h).cons _)

/-- Forgetting a key takes one value out. -/
theorem values_erase_perm (h : t.get? k = some a) : (a :: (t.erase k).values).Perm t.values :=
  (drop_perm h).map Prod.snd

theorem mem_entries_of_get? (h : t.get? k = some a) : (k, a) ∈ t.entries :=
  (drop_perm h).mem_iff.1 mem_cons_self

theorem get?_isSome_of_mem {e : κ × α} (h : e ∈ t.entries) : (t.get? e.1).isSome := by
  obtain ⟨entries⟩ := t
  simp only [get?] at h ⊢
  induction entries with
  | nil => cases h
  | cons e' rest ih =>
    simp only [find]
    split
    · rfl
    · next hne =>
      rcases mem_cons.1 h with rfl | h
      · exact absurd rfl hne
      · exact ih h

/-- In a table of unique keys every entry is found. -/
theorem get?_of_mem (ht : t.Keyed) (h : (k, a) ∈ t.entries) : t.get? k = some a := by
  obtain ⟨entries⟩ := t
  simp only [get?, Keyed, keys] at h ht ⊢
  induction entries with
  | nil => cases h
  | cons e rest ih =>
    obtain ⟨k', b⟩ := e
    obtain ⟨hfirst, hrest⟩ := nodup_cons.1 (map_cons ▸ ht)
    simp only [find]
    rcases mem_cons.1 h with heq | hmem
    · cases heq
      rw [if_pos rfl]
    · rw [if_neg, ih hrest hmem]
      rintro rfl
      exact hfirst (mem_map.2 ⟨_, hmem, rfl⟩)

theorem mem_values_iff (ht : t.Keyed) : a ∈ t.values ↔ ∃ k, t.get? k = some a := by
  constructor
  · intro h
    obtain ⟨e, he, rfl⟩ := mem_map.1 h
    exact ⟨e.1, get?_of_mem ht he⟩
  · rintro ⟨k, hk⟩
    exact mem_map.2 ⟨_, mem_entries_of_get? hk, rfl⟩

/-- Values are unique where no two keys share one. -/
theorem values_nodup (ht : t.Keyed)
    (h : ∀ k k' a, t.get? k = some a → t.get? k' = some a → k = k') : t.values.Nodup := by
  have hkeys : t.entries.Pairwise fun e e' => e.1 ≠ e'.1 := pairwise_map.1 ht
  refine pairwise_map.2 (hkeys.imp_of_mem fun {e e'} he he' hne heq => hne ?_)
  have hget : t.get? e.1 = some e.2 := get?_of_mem ht he
  have hget' : t.get? e'.1 = some e.2 := heq ▸ get?_of_mem ht he'
  exact h e.1 e'.1 e.2 hget hget'

theorem drop_sublist (k : κ) (l : List (κ × α)) : (drop k l).Sublist l := by
  induction l with
  | nil => exact .refl _
  | cons e rest ih =>
    obtain ⟨k', b⟩ := e
    simp only [drop]
    split
    · exact sublist_cons_self _ _
    · exact ih.cons_cons _

theorem Keyed.erase (h : t.Keyed) (k : κ) : (t.erase k).Keyed :=
  List.Nodup.sublist ((drop_sublist k t.entries).map Prod.fst) h

/-! ## Keys -/

theorem keys_insert_of_none (h : t.get? k = none) : (t.insert k a).keys = t.keys ++ [k] := by
  unfold keys
  rw [entries_insert_of_none h, map_append]
  rfl

theorem keys_insert_of_some (h : t.get? k = some b) : (t.insert k a).keys = t.keys := by
  obtain ⟨entries⟩ := t
  simp only [get?, keys, insert] at h ⊢
  induction entries with
  | nil => cases h
  | cons e rest ih =>
    obtain ⟨k', b'⟩ := e
    simp only [find] at h
    split at h
    · next heq => simp [put, heq]
    · next hne => simp [put, hne, ih h]

/-- Forgetting a known key takes it out of the keys. -/
theorem keys_erase_perm (h : t.get? k = some a) : (k :: (t.erase k).keys).Perm t.keys :=
  (drop_perm h).map Prod.fst

theorem mem_keys_iff : k ∈ t.keys ↔ ∃ a, t.get? k = some a := by
  constructor
  · intro h
    obtain ⟨e, he, rfl⟩ := mem_map.1 h
    exact Option.isSome_iff_exists.1 (get?_isSome_of_mem he)
  · rintro ⟨a, ha⟩
    exact mem_map.2 ⟨_, mem_entries_of_get? ha, rfl⟩

theorem get?_eq_none_of_not_mem_keys (h : k ∉ t.keys) : t.get? k = none := by
  cases hk : t.get? k with
  | none => rfl
  | some a => exact absurd (mem_keys_iff.2 ⟨a, hk⟩) h

theorem find_drop_self (h : (l.map Prod.fst).Nodup) : find k (drop k l) = none := by
  induction l with
  | nil => rfl
  | cons e rest ih =>
    obtain ⟨k', b⟩ := e
    obtain ⟨hfirst, hrest⟩ := nodup_cons.1 (map_cons ▸ h)
    by_cases hk : k' = k
    · subst hk
      simp only [drop]
      exact get?_eq_none_of_not_mem_keys (t := ⟨rest⟩) hfirst
    · simp only [drop, if_neg hk, find, ih hrest]

/-- A forgotten key has no value. -/
theorem get?_erase_self (h : t.Keyed) (k : κ) : (t.erase k).get? k = none := find_drop_self h

theorem get?_erase (h : t.Keyed) (k k' : κ) :
    (t.erase k).get? k' = if k = k' then none else t.get? k' := by
  split
  · next heq => exact heq ▸ get?_erase_self h k
  · next hne => exact get?_erase_of_ne t hne

/-- A table keeps its keys unique when a new one is stored. -/
theorem Keyed.insert_of_none (ht : t.Keyed) (h : t.get? k = none) : (t.insert k a).Keyed := by
  unfold Keyed
  rw [keys_insert_of_none h]
  refine (perm_append_singleton _ _).nodup_iff.2 (nodup_cons.2 ⟨fun hk => ?_, ht⟩)
  obtain ⟨b, hb⟩ := mem_keys_iff.1 hk
  cases h.symm.trans hb

/-- Storing keeps keys unique. -/
theorem Keyed.insert (ht : t.Keyed) (k : κ) (a : α) : (t.insert k a).Keyed := by
  cases h : t.get? k with
  | none => exact ht.insert_of_none h
  | some =>
    unfold Keyed
    rw [keys_insert_of_some h]
    exact ht

/-- Forgetting an unknown key changes nothing. -/
theorem erase_of_none (h : t.get? k = none) : t.erase k = t := by
  obtain ⟨entries⟩ := t
  simp only [get?, erase] at h ⊢
  congr 1
  induction entries with
  | nil => rfl
  | cons e rest ih =>
    obtain ⟨k', b⟩ := e
    simp only [find] at h
    split at h
    · cases h
    · next hne => simp [drop, hne, ih h]

/-- What is stored under a key is forgotten with it. -/
theorem erase_insert (t : Table κ α) (k : κ) (a : α) : (t.insert k a).erase k = t.erase k := by
  obtain ⟨entries⟩ := t
  simp only [erase, insert]
  congr 1
  induction entries with
  | nil => simp [put, drop]
  | cons e rest ih =>
    obtain ⟨k', b⟩ := e
    by_cases hk : k' = k
    · simp [put, drop, hk]
    · simp [put, drop, hk, ih]

/-! ## Values -/

/-- Storing under a key takes the old value out and puts the new one in; the others stay. -/
theorem values_insert_perm (t : Table κ α) (k : κ) :
    ∃ rest, t.values.Perm ((t.get? k).toList ++ rest) ∧
      ∀ a, (t.insert k a).values.Perm (a :: rest) := by
  obtain ⟨entries⟩ := t
  simp only [get?, values, insert]
  induction entries with
  | nil => exact ⟨[], List.Perm.refl _, fun a => List.Perm.refl _⟩
  | cons e rest ih =>
    obtain ⟨k', b⟩ := e
    by_cases hk : k' = k
    · refine ⟨rest.map Prod.snd, ?_, fun a => ?_⟩
      · simp [find, hk]
      · simp [put, hk]
    · obtain ⟨others, hall, hput⟩ := ih
      refine ⟨b :: others, ?_, fun a => ?_⟩
      · simp only [find, if_neg hk]
        exact (hall.cons b).trans perm_middle.symm
      · simp only [put, if_neg hk]
        exact ((hput a).cons b).trans (List.Perm.swap _ _ _)

end Table

end KernelForge
