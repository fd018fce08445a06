import KernelForge.Spirv.Draft

/-!
# The ledger of a draft

A draft hands out the ids `1, 2, ...` in order. The ledger of a draft says where each of them went:
it is either the result of exactly one instruction, or owed, which means that somebody holds it and
will make it the result of an instruction later. `Draft.Accounts` is this balance. Putting an
instruction in its place settles the debt of its result and changes nothing else. A ledger may be
opened at any time: an `Opening` says what the balance of the earlier ids was.
-/

namespace KernelForge.Spirv

open List

/-! ## Instructions of a draft -/

/-- The result an operand refers to. -/
def Operand.ref? : Operand → Option Id
  | .ref id => some id
  | _ => none

/-- The results that operands refer to. -/
def refs (operands : List Operand) : List Id := operands.filterMap Operand.ref?

section Refs

variable (l : List Operand)

@[simp] theorem refs_nil : refs [] = [] := rfl

@[simp] theorem refs_ref (id : Id) : refs (.ref id :: l) = id :: refs l := rfl

@[simp] theorem refs_literal (n : Nat) : refs (.literal n :: l) = refs l := rfl

@[simp] theorem refs_long (n : Nat) : refs (.long n :: l) = refs l := rfl

@[simp] theorem refs_text (s : String) : refs (.text s :: l) = refs l := rfl

@[simp] theorem refs_extInst (n : Nat) : refs (.extInst n :: l) = refs l := rfl

@[simp] theorem refs_enumerant (family : Family) (n : Nat) :
    refs (.enumerant family n :: l) = refs l := rfl

@[simp] theorem refs_append (l' : List Operand) : refs (l ++ l') = refs l ++ refs l' :=
  filterMap_append

@[simp] theorem refs_map_ref (ids : List Id) : refs (ids.map .ref) = ids := by
  induction ids with
  | nil => rfl
  | cons id ids ih => rw [map_cons, refs_ref, ih]

theorem refs_flatMap (operands : List Operand) :
    (operands.flatMap fun o => refs [o]) = refs operands := by
  induction operands with
  | nil => rfl
  | cons o rest ih => rw [flatMap_cons, ih, ← refs_append, singleton_append]

theorem refs_flatten (ls : List (List Operand)) : refs ls.flatten = ls.flatMap refs := by
  induction ls with
  | nil => rfl
  | cons l ls ih => rw [flatten_cons, refs_append, ih, flatMap_cons]

end Refs

def Instruction.mentions (i : Instruction) : List Id := i.resultType.toList ++ refs i.operands

def results (l : List Instruction) : List Id := l.filterMap Instruction.result

def Instruction.arrayType? (i : Instruction) : Option Id :=
  if i.opcode = .typeArray ∧ i.resultType = none then i.result else none

def arrayTypes (l : List Instruction) : List Id := l.filterMap Instruction.arrayType?

theorem arrayTypes_subset (l : List Instruction) : arrayTypes l ⊆ results l := by
  intro id hid
  obtain ⟨i, hi, harray⟩ := mem_filterMap.1 hid
  refine mem_filterMap.2 ⟨i, hi, ?_⟩
  unfold Instruction.arrayType? at harray
  split at harray
  · exact harray
  · cases harray

def mentioned (l : List Instruction) : List Id := l.flatMap Instruction.mentions

/-- The instructions of a module outside its functions. -/
def Module.sections (m : Module) : List Instruction :=
  m.capabilities ++ m.imports ++ m.memoryModel.toList ++ m.entryPoints ++ m.executionModes
    ++ m.names ++ m.annotations ++ m.globals

/-- The instructions of a function that is still open. -/
def Function.begun (f : Function) : List Instruction :=
  f.definition :: f.params ++ f.blocks.flatMap Block.instructions

/-- The instructions of a draft, those of the open function and block included. -/
def Draft.instructions (d : Draft) : List Instruction :=
  d.module.instructions ++ d.function.elim [] Function.begun ++ d.block.elim [] Block.instructions

/-- The balance of a ledger when it is opened: how often each id below a bound is a
result or owed, and the instructions outside functions. -/
class Opening where
  since : Nat
  count : Nat → Nat
  sections : List Instruction
  positive : 0 < since
  zero : count 0 = 0

namespace Opening

/-- How often an id is a result or owed when the next id to hand out is `next`. -/
def expected [o : Opening] (next id : Nat) : Nat :=
  if id < o.since then o.count id else if id < next then 1 else 0

theorem known_of_expected [o : Opening] {next id : Nat} (hle : o.since ≤ next)
    (h : 0 < expected next id) : 0 < id ∧ id < next := by
  unfold expected at h
  split at h
  · next hlt =>
    refine ⟨Nat.pos_of_ne_zero ?_, Nat.lt_of_lt_of_le hlt hle⟩
    rintro rfl
    rw [o.zero] at h
    exact Nat.lt_irrefl 0 h
  · next hge =>
    split at h
    · next hlt => exact ⟨Nat.lt_of_lt_of_le o.positive (Nat.le_of_not_lt hge), hlt⟩
    · exact absurd h (Nat.lt_irrefl 0)

theorem expected_succ [o : Opening] {next : Nat} (hle : o.since ≤ next) (id : Nat) :
    expected (next + 1) id = expected next id + if next = id then 1 else 0 := by
  unfold expected
  split
  · next hlt => rw [if_neg (by omega), Nat.add_zero]
  · by_cases hid : next = id
    · subst hid
      simp
    · rw [if_neg hid]
      have hiff : id < next + 1 ↔ id < next := by omega
      simp only [hiff, Nat.add_zero]

/-- The opening of a ledger that has handed out nothing. -/
@[reducible]
def empty : Opening := ⟨1, fun _ => 0, [], Nat.one_pos, rfl⟩

theorem expected_empty (next id : Nat) :
    @expected empty next id = if 0 < id ∧ id < next then 1 else 0 := by
  show (if id < 1 then 0 else if id < next then 1 else 0) = _
  rcases Nat.eq_zero_or_pos id with rfl | hpos
  · simp
  · simp [Nat.not_lt_of_le hpos, hpos]

end Opening

namespace Draft

/-- Whether an instruction is put in its place beside all others: there is one memory model, and a
function ends with a bare instruction. -/
def Admits (d : Draft) (i : Instruction) : Prop :=
  (i.opcode = .memoryModel → d.module.memoryModel = none) ∧
    (i.opcode = .functionEnd → i = ⟨.functionEnd, none, none, []⟩)

/-- All that putting an instruction in its place can do to a draft. -/
inductive Placed (i : Instruction) (d : Draft) : Draft → Prop
  | aside {m : Module} (hperm : m.sections.Perm (i :: d.module.sections))
    (hsections : d.module.sections.Sublist m.sections)
    (hfunctions : m.functions = d.module.functions) : Placed i d { d with module := m }
  | inBlock {b : Block} (hb : d.block = some b) :
    Placed i d { d with block := some { b with body := b.body ++ [i] } }
  | openFunction (hf : d.function = none) : Placed i d { d with function := some ⟨i, [], []⟩ }
  | param {f : Function} (hf : d.function = some f) :
    Placed i d { d with function := some { f with params := f.params ++ [i] } }
  | openBlock (hb : d.block = none) : Placed i d { d with block := some ⟨i, []⟩ }
  | terminate {f : Function} {b : Block} (hf : d.function = some f) (hb : d.block = some b) :
    Placed i d { d with
      function := some { f with blocks := f.blocks ++ [{ b with body := b.body ++ [i] }] }
      block := none }
  | closeFunction {f : Function} (hf : d.function = some f) (hb : d.block = none)
    (hi : i = ⟨.functionEnd, none, none, []⟩) :
    Placed i d
      { d.onModule (fun m => { m with functions := m.functions ++ [f] }) with function := none }

theorem declare_placed (d : Draft) (i : Instruction) : Placed i d (d.declare i) :=
  .aside (by simpa [Module.sections] using perm_append_singleton i d.module.sections)
    (.append_left (sublist_append_left _ _) _) rfl

variable {d d' : Draft} {i : Instruction}

theorem append_placed (h : d.append i = .ok d') : Placed i d d' := by
  unfold append at h
  split at h
  · cases h
  · next b hb =>
    cases h
    exact .inBlock hb

/-- Variables and lines are declared where nothing is open for them. -/
theorem appendOr_placed {c : Prop} [Decidable c]
    (h : (if c then d.append i else .ok (d.declare i)) = .ok d') : Placed i d d' := by
  split at h
  · exact append_placed h
  · cases h
    exact declare_placed d i

theorem place_placed (hi : d.Admits i) (h : d.place i = .ok d') : Placed i d d' := by
  unfold place at h
  split at h
  case h_3 hop =>
    cases h
    refine .aside ?_ ?_ rfl
    · rw [perm_iff_count]
      intro j
      simp only [Module.sections, hi.1 hop, Option.toList_none, Option.toList_some, count_append,
        count_cons]
      omega
    · simp only [Module.sections, hi.1 hop, append_assoc]
      exact .append_left (.append_left (sublist_cons_self _ _) _) _
  case h_8 => exact appendOr_placed h
  case h_9 => exact appendOr_placed h
  case h_10 => exact appendOr_placed h
  case h_11 =>
    unfold Draft.openFunction at h
    split at h <;> cases h
    exact .openFunction ‹_›
  case h_12 hop =>
    unfold Draft.closeFunction at h
    split at h <;> cases h
    exact .closeFunction ‹_› ‹_› (hi.2 hop)
  case h_13 =>
    unfold addParam at h
    split at h <;> cases h
    exact .param ‹_›
  case h_14 =>
    unfold Draft.openBlock at h
    split at h <;> cases h
    exact .openBlock ‹_›
  case h_15 =>
    split at h
    · cases h
      exact declare_placed d i
    · split at h
      · unfold Draft.terminate at h
        split at h <;> cases h
        exact .terminate ‹_› ‹_›
      · exact append_placed h
  -- the sections that are lists
  all_goals
    cases h
    refine .aside ?_ ?_ rfl
    · rw [perm_iff_count]
      intro j
      simp only [Module.sections, count_append, count_cons, count_nil]
      omega
    · simp only [Module.sections, append_assoc]
      repeat' first
        | exact .refl _
        | exact sublist_append_right _ _
        | refine .append_left ?_ _

namespace Placed

/-- Putting an instruction in its place adds it and nothing else. -/
theorem perm (h : Placed i d d') : d'.instructions.Perm (i :: d.instructions) := by
  have hmodule (m : Module) :
      m.instructions = m.sections ++ m.functions.flatMap Function.instructions := rfl
  rw [perm_iff_count]
  intro j
  cases h with
  | aside hperm hsections hfunctions =>
    have hcount := hperm.count_eq j
    simp only [instructions, hmodule, hfunctions, count_append, count_cons] at hcount ⊢
    omega
  | inBlock hb =>
    simp only [instructions, hb, Option.elim_some, Block.instructions, count_append,
      count_cons, count_nil]
    omega
  | openFunction hf =>
    simp only [instructions, hf, Option.elim_some, Option.elim_none, Function.begun,
      count_append, count_cons, count_nil, flatMap_nil]
    omega
  | param hf =>
    simp only [instructions, hf, Option.elim_some, Function.begun, count_append,
      count_cons, count_nil]
    omega
  | openBlock hb =>
    simp only [instructions, hb, Option.elim_some, Option.elim_none, Block.instructions,
      count_append, count_cons]
    omega
  | terminate hf hb =>
    simp only [instructions, hf, hb, Option.elim_some, Option.elim_none, Function.begun,
      Block.instructions, flatMap_append, flatMap_cons, flatMap_nil, count_append, count_cons,
      count_nil]
    omega
  | closeFunction hf hb hi =>
    subst hi
    simp only [onModule, instructions, hf, Option.elim_some, Option.elim_none, Function.begun,
      Module.instructions, Function.instructions, flatMap_append, flatMap_cons, flatMap_nil,
      count_append, count_cons, count_nil]
    omega

/-- Putting an instruction in its place takes nothing away. -/
theorem sections (h : Placed i d d') : d.module.sections.Sublist d'.module.sections := by
  cases h with
  | aside hperm hsections => exact hsections
  | _ => exact .refl _

/-- Putting an instruction in its place hands out no id. -/
theorem next (h : Placed i d d') : d'.next = d.next := by
  cases h <;> rfl

end Placed

/-- Every id handed out since the opening is the result of exactly one instruction or
owed, but not both, earlier ids have the balance of the opening, and nothing else is a result or
owed. -/
def Accounts [Opening] (d : Draft) (owed : List Id) : Prop :=
  ∀ id : Nat, (results d.instructions).count id + owed.count id = Opening.expected d.next id

section Accounts

variable [Opening]

variable {d : Draft} {owed : List Id}

theorem Accounts.of_perm {d' : Draft} {i : Instruction}
    (hp : d'.instructions.Perm (i :: d.instructions)) (hn : d'.next = d.next)
    (h : d.Accounts (i.result.toList ++ owed)) : d'.Accounts owed := by
  intro id
  have hc : (results d'.instructions).count id
      = i.result.toList.count id + (results d.instructions).count id := by
    unfold results
    rw [(hp.filterMap _).count_eq]
    cases hr : i.result with
    | none => simp [hr]
    | some => simp [hr, count_cons, Nat.add_comm]
  have hd := h id
  rw [count_append] at hd
  rw [hn]
  omega

theorem Accounts.known (h : d.Accounts owed) (hle : Opening.since ≤ d.next) {id : Nat}
    (hid : 0 < (results d.instructions).count id + owed.count id) : 0 < id ∧ id < d.next := by
  rw [h id] at hid
  exact Opening.known_of_expected hle hid

theorem Accounts.known_result (h : d.Accounts owed) (hle : Opening.since ≤ d.next) {id : Id}
    (hid : id ∈ results d.instructions) : 0 < id ∧ id < d.next :=
  h.known hle (Nat.add_pos_left (count_pos_iff.2 hid) _)

theorem Accounts.known_owed (h : d.Accounts owed) (hle : Opening.since ≤ d.next) {id : Id}
    (hid : id ∈ owed) : 0 < id ∧ id < d.next :=
  h.known hle (Nat.add_pos_right _ (count_pos_iff.2 hid))

/-- The order in which ids are owed does not matter. -/
theorem Accounts.perm {owed' : List Id} (h : d.Accounts owed) (hp : owed.Perm owed') :
    d.Accounts owed' := by
  intro id
  rw [← hp.count_eq]
  exact h id

/-- A new id is owed by whoever asked for it. -/
theorem Accounts.fresh (hle : Opening.since ≤ d.next) (h : d.Accounts owed) :
    d.fresh.2.Accounts (d.next :: owed) := by
  intro id
  have hd := h id
  show (results d.instructions).count id + (d.next :: owed).count id
    = Opening.expected (d.next + 1) id
  rw [count_cons, Opening.expected_succ hle, ← hd, Nat.add_assoc]
  simp only [beq_iff_eq]

end Accounts

end Draft

end KernelForge.Spirv
