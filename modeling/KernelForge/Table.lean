/-!
# Association tables

Finite maps in order of first insertion. The view of a table is `Table.get?`; the laws below say
what each operation does to it, and later modules use only these. Keys are unique
(`Table.Keyed`), which every operation keeps.
-/

namespace KernelForge

/-- A finite map as the list of its entries, in order of first insertion. -/
structure Table (κ α : Type) where
  entries : List (κ × α)
deriving Repr

namespace Table

variable {κ α : Type} [DecidableEq κ]

def empty : Table κ α := ⟨[]⟩

instance : EmptyCollection (Table κ α) := ⟨empty⟩

instance : Inhabited (Table κ α) := ⟨empty⟩

/-- First value stored under a key in a list of entries. -/
def find (k : κ) : List (κ × α) → Option α
  | [] => none
  | (k', a) :: rest => if k' = k then some a else find k rest

/-- Replace the value under a key, or add an entry at the end. -/
def put (k : κ) (a : α) : List (κ × α) → List (κ × α)
  | [] => [(k, a)]
  | (k', b) :: rest => if k' = k then (k, a) :: rest else (k', b) :: put k a rest

/-- Drop the entry under a key. -/
def drop (k : κ) : List (κ × α) → List (κ × α)
  | [] => []
  | (k', b) :: rest => if k' = k then rest else (k', b) :: drop k rest

def get? (t : Table κ α) (k : κ) : Option α := find k t.entries

def insert (t : Table κ α) (k : κ) (a : α) : Table κ α := ⟨put k a t.entries⟩

def erase (t : Table κ α) (k : κ) : Table κ α := ⟨drop k t.entries⟩

def contains (t : Table κ α) (k : κ) : Bool := (t.get? k).isSome

/-- Keys in order of first insertion. -/
def keys (t : Table κ α) : List κ := t.entries.map Prod.fst

/-- Values in order of first insertion of their keys. -/
def values (t : Table κ α) : List α := t.entries.map Prod.snd

def size (t : Table κ α) : Nat := t.entries.length

def isEmpty (t : Table κ α) : Bool := t.entries.isEmpty

/-- No key has two entries. -/
def Keyed (t : Table κ α) : Prop := t.keys.Nodup

/-! ## Laws of the view -/

@[simp]
theorem get?_empty (k : κ) : (empty : Table κ α).get? k = none := rfl

theorem find_put (k k' : κ) (a : α) (l : List (κ × α)) :
    find k (put k' a l) = if k' = k then some a else find k l := by
  induction l with
  | nil => simp [put, find]
  | cons e rest ih =>
    obtain ⟨key, b⟩ := e
    by_cases h : key = k'
    · subst h
      simp only [put, if_true, find]
      by_cases h' : key = k <;> simp [h']
    · simp only [put, if_neg h, find, ih]
      by_cases h' : key = k
      · subst h'
        simp [Ne.symm h]
      · simp [h']

/-- Storing under a key changes that key only. -/
theorem get?_insert (t : Table κ α) (k k' : κ) (a : α) :
    (t.insert k' a).get? k = if k' = k then some a else t.get? k :=
  find_put k k' a t.entries

theorem find_drop_of_ne {k k' : κ} (h : k' ≠ k) (l : List (κ × α)) :
    find k (drop k' l) = find k l := by
  induction l with
  | nil => rfl
  | cons e rest ih =>
    obtain ⟨key, b⟩ := e
    by_cases hk : key = k'
    · subst hk
      simp [drop, find, h]
    · simp only [drop, if_neg hk, find, ih]

/-- Forgetting a key leaves every other key alone. -/
theorem get?_erase_of_ne (t : Table κ α) {k k' : κ} (h : k' ≠ k) : (t.erase k').get? k = t.get? k :=
  find_drop_of_ne h t.entries

end Table

end KernelForge
