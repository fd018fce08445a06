import KernelForge.Proofs.Execution.Sound
import KernelForge.Proofs.Execution.Steps
import KernelForge.Proofs.Ledger.Draft
import KernelForge.Proofs.Tables

/-!
# Declarations evaluated in order

A device evaluates the declarations of a module one after another; a declaration may need what an
earlier one declared. `Program.Knows` says what a program knows of a declaration it has evaluated,
and `Evaluates` that a list of declarations can be evaluated to the end. A declaration with a new
id can be added whenever the program knows what it refers to.
-/

namespace KernelForge.Device

open List
open Spirv (Id Operand Instruction StorageClass BuiltIn arrayTypes)

/-- The type a declaration stands for, if it can be told from the declaration alone. -/
def meaning? (i : Instruction) : Option Ty :=
  match i.opcode, i.operands with
  | .typeVoid, _ => some .void
  | .typeBool, _ => some .bool
  | .typeInt, .literal w :: _ => some (.int w)
  | .typeFloat, .literal w :: _ => some (.float w)
  | .typeVector, [.ref element, .literal lanes] => some (.vector element lanes)
  | .typePointer, [.enumerant .storageClass storage, .ref pointee] =>
    some (.pointer storage pointee)
  | .typeFunction, _ => some .function
  | _, _ => none

variable {count element : Id} {operand : Operand}

namespace Program

/-- A program that knows all that another does. -/
structure Extends (p p' : Program) : Prop where
  types : ∀ (id : Id) t, p.types[id]? = some t → p'.types[id]? = some t
  constants : ∀ (id : Id) v, p.constants[id]? = some v → p'.constants[id]? = some v
  globals : ∀ (id : Id) g, p.globals[id]? = some g → p'.globals[id]? = some g

/-- What a program knows of a declaration. -/
inductive Knows (p : Program) : Instruction → Prop
  | type {i : Instruction} {id : Id} {t : Ty} (hr : i.result = some id) (ht : meaning? i = some t)
      (hp : p.types[id]? = some t) : Knows p i
  | array {type : Option Id} {id element count n : Nat} {v : Value}
      (hc : p.constants[count]? = some v) (hv : v.asWord = .ok n)
      (hp : p.types[id]? = some (.array element n)) :
      Knows p ⟨.typeArray, type, some id, [.ref element, .ref count]⟩
  | number {type id n : Nat} {operand : Operand} {v : Value}
      (ho : operand = .literal n ∨ operand = .long n) (hv : p.ofBits n type = .ok v)
      (hp : p.constants[id]? = some v) : Knows p ⟨.constant, some type, some id, [operand]⟩
  | truth {type id : Id} (b : Bool) (hp : p.constants[id]? = some (.bool b)) :
      Knows p ⟨if b then .constantTrue else .constantFalse, some type, some id, []⟩
  | composite {type id : Id} {lanes : List Id} {vs : List Value}
      (hl : lanes.map (p.constants[·]?) = vs.map some) (hp : p.constants[id]? = some (.vector vs)) :
      Knows p ⟨.constantComposite, some type, some id, lanes.map .ref⟩
  | global {type id pointee : Id} {storage storage' : StorageClass} {b : Option BuiltIn}
      (ht : p.types[type]? = some (.pointer storage' pointee))
      (hp : p.globals[id]? = some ⟨storage, pointee, b⟩) :
      Knows p ⟨.variableDecl, some type, some id, [.enumerant .storageClass storage]⟩

variable {p p' p'' : Program} {i : Instruction} {id type n : Id} {t : Ty} {v : Value}

/-- A type that refers to known types is sound in a program that knows more. -/
theorem Extends.sound (h : p.Extends p') (ht : t.Sound p) : t.Sound p' := by
  cases t with
  | vector =>
    obtain ⟨hlanes, t, helement, ht⟩ := ht
    exact ⟨hlanes, t, h.types _ _ helement, ht⟩
  | array =>
    obtain ⟨hlength, t, helement, ht⟩ := ht
    exact ⟨hlength, t, h.types _ _ helement, ht⟩
  | _ => exact ht

theorem type_of_some (h : p.types[id]? = some t) : p.type id = .ok t := by
  rw [type, h]

theorem ofBits_extends (h : p.Extends p') (hv : p.ofBits n type = .ok v) :
    p'.ofBits n type = .ok v := by
  unfold ofBits at hv ⊢
  cases ht : p.types[type]? with
  | none =>
    simp only [Program.type, ht] at hv
    cases hv
  | some =>
    rw [type_of_some ht] at hv
    rw [type_of_some (h.types _ _ ht)]
    exact hv

variable {lanes : List Id} {vs : List Value}

theorem constants_later (h : p.Extends p') (hl : lanes.map (p.constants[·]?) = vs.map some) :
    lanes.map (p'.constants[·]?) = vs.map some :=
  map_some_of h.constants hl

/-- A program that knows more still knows a declaration. -/
theorem Knows.later (h : p.Extends p') (hk : p.Knows i) : p'.Knows i := by
  cases hk with
  | type hr ht hp => exact .type hr ht (h.types _ _ hp)
  | array hc hv hp => exact .array (h.constants _ _ hc) hv (h.types _ _ hp)
  | number ho hv hp => exact .number ho (ofBits_extends h hv) (h.constants _ _ hp)
  | truth b hp => exact .truth b (h.constants _ _ hp)
  | composite hl hp => exact .composite (constants_later h hl) (h.constants _ _ hp)
  | global ht hp => exact .global (h.types _ _ ht) (h.globals _ _ hp)

/-- What a program knows of the declaration of a type. -/
theorem Knows.type_of (hk : p.Knows i) (hr : i.result = some id) (ht : meaning? i = some t) :
    p.types[id]? = some t := by
  cases hk with
  | type hr' ht' hp =>
    rw [hr] at hr'
    rw [ht] at ht'
    cases hr'
    cases ht'
    exact hp
  | array | number | composite | global => cases ht
  | truth b => cases b <;> cases ht

theorem Knows.array_of {type : Option Id}
    (hk : p.Knows ⟨.typeArray, type, some id, [.ref element, .ref count]⟩) :
    ∃ n, p.types[id]? = some (.array element n) := by
  generalize hi : (⟨.typeArray, type, some id, [.ref element, .ref count]⟩ : Instruction) = i at hk
  cases hk with
  | type hr ht =>
    subst hi
    cases ht
  | array _ _ hp =>
    cases hi
    exact ⟨_, hp⟩
  | truth b => cases b <;> cases hi
  | number | composite | global => cases hi

theorem Knows.number_of (hk : p.Knows ⟨.constant, some type, some id, [operand]⟩) :
    ∃ n v, (operand = .literal n ∨ operand = .long n) ∧ p.ofBits n type = .ok v ∧
      p.constants[id]? = some v := by
  generalize hi : (⟨.constant, some type, some id, [operand]⟩ : Instruction) = i at hk
  cases hk with
  | type hr ht =>
    subst hi
    cases ht
  | number ho hv hp =>
    cases hi
    exact ⟨_, _, ho, hv, hp⟩
  | truth b => cases b <;> cases hi
  | array | composite | global => cases hi

/-- A type of numbers has a value for the bits of a word. -/
theorem ofBits_of_number (hp : p.Sound) (h : p.types[type]? = some t)
    (ht : (∃ w, t = .int w ∧ n < Nat.pow 2 64) ∨ ∃ w, t = .float w) :
    ∃ v, p.ofBits n type = .ok v ∧ v.Sound := by
  unfold ofBits
  rw [type_of_some h]
  rcases ht with ⟨w, rfl, hn⟩ | ⟨w, rfl⟩
  · exact ⟨_, rfl, Value.ofBits_sound (hp.types type _ h) hn⟩
  · by_cases h₁₆ : w = 16
    · subst h₁₆
      exact ⟨_, rfl, .float _ _⟩
    · by_cases h₃₂ : w = 32
      · subst h₃₂
        exact ⟨_, rfl, .float _ _⟩
      · refine ⟨.float n w, ?_, .float _ _⟩
        simp only [bind, Except.bind]
        rfl

theorem Knows.truth_of {b : Bool}
    (hk : p.Knows ⟨if b then .constantTrue else .constantFalse, some type, some id, []⟩) :
    p.constants[id]? = some (.bool b) := by
  generalize hi : (⟨if b then .constantTrue else .constantFalse, some type, some id, []⟩ :
    Instruction) = i at hk
  cases hk with
  | type hr ht =>
    subst hi
    cases b <;> cases ht
  | truth b' hp =>
    cases b <;> cases b' <;> cases hi <;> exact hp
  | array | number | composite | global => cases b <;> cases hi

/-! ## Adding a declaration -/

/-- All ids a program knows lie below a bound. -/
structure Below (p : Program) (next : Id) : Prop where
  types : ∀ (id : Id) t, p.types[id]? = some t → id < next
  constants : ∀ (id : Id) v, p.constants[id]? = some v → id < next
  globals : ∀ (id : Id) g, p.globals[id]? = some g → id < next

theorem Below.mono {next next' : Id} (h : p.Below next) (hle : next ≤ next') : p.Below next' where
  types id t ht := Nat.lt_of_lt_of_le (h.types id t ht) hle
  constants id v hv := Nat.lt_of_lt_of_le (h.constants id v hv) hle
  globals id g hg := Nat.lt_of_lt_of_le (h.globals id g hg) hle

section Adding

variable {next : Id}

section Table

variable {α : Type} {table : Std.TreeMap Id α} (h : ∀ id a, table[id]? = some a → id < next)
    (new : α)
include h

theorem get?_insert_next (id : Id) (a : α) (ha : table[id]? = some a) :
    (table.insert next new)[id]? = some a := by
  rw [Std.TreeMap.getElem?_insert, if_neg (by simpa using Nat.ne_of_gt (h id a ha))]
  exact ha

theorem insert_next_below (id : Id) (a : α) (ha : (table.insert next new)[id]? = some a) :
    id < next + 1 := by
  rw [Std.TreeMap.getElem?_insert] at ha
  split at ha
  · next heq =>
    cases Std.LawfulEqCmp.eq_of_compare heq
    exact Nat.lt_succ_self _
  · exact Nat.lt_succ_of_lt (h id a ha)

end Table

variable (h : p.Below next)
include h

theorem addType_extends (t : Ty) : p.Extends (p.addType next t) where
  types := get?_insert_next h.types t
  constants _ _ hv := hv
  globals _ _ hg := hg

theorem addType_below (t : Ty) : (p.addType next t).Below (next + 1) where
  types := insert_next_below h.types t
  constants id v hv := Nat.lt_succ_of_lt (h.constants id v hv)
  globals id g hg := Nat.lt_succ_of_lt (h.globals id g hg)

theorem addConstant_extends (v : Value) : p.Extends (p.addConstant next v) where
  types _ _ ht := ht
  constants := get?_insert_next h.constants v
  globals _ _ hg := hg

theorem addConstant_below (v : Value) : (p.addConstant next v).Below (next + 1) where
  types id t ht := Nat.lt_succ_of_lt (h.types id t ht)
  constants := insert_next_below h.constants v
  globals id g hg := Nat.lt_succ_of_lt (h.globals id g hg)

theorem addGlobal_extends (g : Global) :
    p.Extends { p with globals := p.globals.insert next g } where
  types _ _ ht := ht
  constants _ _ hv := hv
  globals := get?_insert_next h.globals g

theorem addGlobal_below (g : Global) :
    { p with globals := p.globals.insert next g }.Below (next + 1) where
  types id t ht := Nat.lt_succ_of_lt (h.types id t ht)
  constants id v hv := Nat.lt_succ_of_lt (h.constants id v hv)
  globals := insert_next_below h.globals g

theorem addType_sound (hs : p.Sound) (ht : t.Sound p) : (p.addType next t).Sound where
  types id t' hid := by
    refine (addType_extends h t).sound ?_
    rw [addType, Std.TreeMap.getElem?_insert] at hid
    split at hid
    · cases hid
      exact ht
    · exact hs.types id t' hid
  constants := hs.constants

theorem addConstant_sound (hs : p.Sound) (hv : v.Sound) : (p.addConstant next v).Sound where
  types id t ht := (addConstant_extends h v).sound (hs.types id t ht)
  constants id v' hid := by
    rw [addConstant, Std.TreeMap.getElem?_insert] at hid
    split at hid
    · cases hid
      exact hv
    · exact hs.constants id v' hid

theorem addGlobal_sound (hs : p.Sound) (g : Global) :
    { p with globals := p.globals.insert next g }.Sound where
  types id t ht := (addGlobal_extends h g).sound (hs.types id t ht)
  constants := hs.constants

omit h in
/-- A new type is the only new one. -/
theorem addType_arrays {id element length : Nat}
    (hid : (p.addType next t).types[id]? = some (.array element length)) :
    p.types[id]? = some (.array element length) ∨ id = next ∧ t = .array element length := by
  rw [addType, Std.TreeMap.getElem?_insert] at hid
  split at hid
  · next heq => exact .inr ⟨(Std.LawfulEqCmp.eq_of_compare heq).symm, Option.some.inj hid⟩
  · exact .inl hid

end Adding

@[simp]
theorem types_addType (p : Program) (id : Id) (t : Ty) : (p.addType id t).types[id]? = some t :=
  Std.TreeMap.getElem?_insert_self

@[simp]
theorem constants_addConstant (p : Program) (id : Id) (v : Value) :
    (p.addConstant id v).constants[id]? = some v :=
  Std.TreeMap.getElem?_insert_self

/-- The lanes of a composite, read by their positions from one on. -/
theorem composite_lanes_from (before : List Id) (hl : lanes.map (p.constants[·]?) = vs.map some) :
    (List.range' before.length lanes.length).mapM (fun n => do
      p.constantLane (← idAt ⟨.constantComposite, some type, some id,
        (before ++ lanes).map .ref⟩ n)) = .ok vs := by
  induction lanes generalizing before vs with
  | nil =>
    cases vs with
    | nil => rfl
    | cons => cases hl
  | cons lane lanes ih =>
    cases vs with
    | nil => cases hl
    | cons v =>
      obtain ⟨hv, hvs⟩ := List.cons.inj hl
      have hrest := ih (before ++ [lane]) hvs
      rw [append_assoc, singleton_append, length_append, length_singleton] at hrest
      have hid : idAt ⟨.constantComposite, some type, some id,
          (before ++ lane :: lanes).map .ref⟩ before.length = .ok lane := by
        simp [idAt]
      have hlane : p.constantLane lane = .ok v := by
        rw [constantLane, show p.constants[lane]? = some v from hv]
      rw [length_cons, List.range'_succ, mapM_cons, hid]
      show (p.constantLane lane >>= _) = _
      rw [hlane, hrest]
      rfl

theorem declare_composite (builtIns : List (Id × BuiltIn))
    (hl : lanes.map (p.constants[·]?) = vs.map some) :
    declare builtIns p ⟨.constantComposite, some type, some id, lanes.map .ref⟩ =
      .ok (p.addConstant id (.vector vs)) := by
  have hlanes : (List.range (lanes.map Operand.ref).length).mapM (fun n => do
      p.constantLane (← idAt ⟨.constantComposite, some type, some id, lanes.map .ref⟩ n)) =
      .ok vs := by
    rw [range_eq_range', length_map]
    exact composite_lanes_from [] hl
  show ((List.range (lanes.map Operand.ref).length).mapM (fun n => do
      p.constantLane (← idAt ⟨.constantComposite, some type, some id, lanes.map .ref⟩ n)) >>=
    fun lanes => (pure (p.addConstant id (.vector lanes)) : Except Fault Program)) = _
  rw [hlanes]
  rfl

end Program

/-! ## Lists of declarations -/

/-- A program in which nothing is declared. -/
structure Blank (p : Program) : Prop where
  types : p.types = ∅
  constants : p.constants = ∅
  globals : p.globals = ∅

/-- What a device knows once it has evaluated declarations with ids below a bound. -/
structure Evaluated (gs : List Instruction) (next : Id) (p : Program) : Prop where
  knows : ∀ i ∈ gs, p.Knows i
  below : p.Below next
  sound : p.Sound
  arrays : ∀ id element length, p.types[id]? = some (.array element length) → id ∈ arrayTypes gs

/-- Declarations with ids below a bound can be evaluated in their order. -/
def Evaluates (gs : List Instruction) (next : Id) : Prop :=
  ∀ builtIns p₀, Blank p₀ →
    ∃ p, gs.foldlM (Program.declare builtIns) p₀ = .ok p ∧ Evaluated gs next p ∧
      p.functions = p₀.functions

namespace Evaluates

open Program

variable {gs : List Instruction} {next next' : Id}

theorem nil (next : Id) : Evaluates [] next := by
  intro builtIns p₀ hblank
  have htypes : ∀ (id : Id) t, p₀.types[id]? ≠ some t := by simp [hblank.types]
  have hconstants : ∀ (id : Id) v, p₀.constants[id]? ≠ some v := by simp [hblank.constants]
  have hglobals : ∀ (id : Id) g, p₀.globals[id]? ≠ some g := by simp [hblank.globals]
  refine ⟨p₀, rfl, ⟨nofun, ⟨?_, ?_, ?_⟩, ⟨?_, ?_⟩, ?_⟩, rfl⟩
  · exact fun id t ht => absurd ht (htypes id t)
  · exact fun id v hv => absurd hv (hconstants id v)
  · exact fun id g hg => absurd hg (hglobals id g)
  · exact fun id t ht => absurd ht (htypes id t)
  · exact fun id v hv => absurd hv (hconstants id v)
  · exact fun id _ _ ht => absurd ht (htypes id _)

theorem mono (h : Evaluates gs next) (hle : next ≤ next') : Evaluates gs next' := by
  intro builtIns p₀ hblank
  obtain ⟨p, hrun, he, hsame⟩ := h builtIns p₀ hblank
  exact ⟨p, hrun, { he with below := he.below.mono hle }, hsame⟩

/-- One more declaration, with a new id, that can be evaluated after the others. -/
theorem add {i : Instruction} (h : Evaluates gs next)
    (hi : ∀ builtIns p, Evaluated gs next p → ∃ p', declare builtIns p i = .ok p' ∧
      p.Extends p' ∧ p'.Below (next + 1) ∧ p'.Knows i ∧ p'.Sound ∧
      (∀ id element length, p'.types[id]? = some (.array element length) →
        p.types[id]? = some (.array element length) ∨ i.arrayType? = some id) ∧
      p'.functions = p.functions) : Evaluates (gs ++ [i]) (next + 1) := by
  intro builtIns p₀ hblank
  obtain ⟨p, hrun, he, hbefore⟩ := h builtIns p₀ hblank
  obtain ⟨p', hdeclare, hext, hbelow, hknows, hsound, harrays, hsame⟩ := hi builtIns p he
  have hall := forall_mem_append.2
    ⟨fun j hj => (he.knows j hj).later hext, forall_mem_singleton.2 hknows⟩
  refine ⟨p', ?_, ⟨hall, hbelow, hsound, fun id element length hid => ?_⟩, hsame.trans hbefore⟩
  · rw [foldlM_append, hrun]
    show (declare builtIns p i >>= pure) = _
    rw [hdeclare]
    rfl
  · rw [arrayTypes, filterMap_append]
    rcases harrays id element length hid with hold | hnew
    · exact mem_append_left _ (he.arrays id element length hold)
    · exact mem_append_right _ (mem_filterMap.2 ⟨i, mem_cons_self, hnew⟩)

/-- A type that can be told from its declaration. -/
theorem addType {i : Instruction} {t : Ty} (h : Evaluates gs next) (hr : i.result = some next)
    (ht : meaning? i = some t) (hsound : ∀ p, Evaluated gs next p → t.Sound p) :
    Evaluates (gs ++ [i]) (next + 1) := by
  refine h.add fun builtIns p he => ⟨p.addType next t, ?_, addType_extends he.below t,
    addType_below he.below t, .type hr ht (types_addType p next t),
    addType_sound he.below he.sound (hsound p he), fun id element length hid => .inl ?_, rfl⟩
  · obtain ⟨op, type, result, operands⟩ := i
    cases hr
    unfold meaning? at ht
    dsimp only at ht
    split at ht <;> cases ht <;> rfl
  · rcases addType_arrays hid with hold | ⟨-, rfl⟩
    · exact hold
    · unfold meaning? at ht
      split at ht <;> cases ht

/-- A type of arrays whose length is known. -/
theorem addArray (h : Evaluates gs next)
    (hcount : ∀ p, Evaluated gs next p → ∃ v n, p.constants[count]? = some v ∧ v.asWord = .ok n ∧
      (Ty.array element n).Sound p) :
    Evaluates (gs ++ [⟨.typeArray, none, some next, [.ref element, .ref count]⟩]) (next + 1) := by
  refine h.add fun builtIns p he => ?_
  obtain ⟨v, n, hv, hn, hsound⟩ := hcount p he
  refine ⟨p.addType next (.array element n), ?_, addType_extends he.below _,
    addType_below he.below _, .array hv hn (types_addType p next _),
    addType_sound he.below he.sound hsound, fun id _ _ hid => ?_, rfl⟩
  · simp only [declare, idAt, List.getElem?_cons_succ, List.getElem?_cons_zero, bind,
      Except.bind, hv, hn]
    rfl
  · exact (addType_arrays hid).imp_right fun hnew => by rw [hnew.1]; rfl

variable {type : Id}

/-- A constant of a type whose values are given by their bits. -/
theorem addNumber {n : Id} (h : Evaluates gs next) (ho : operand = .literal n ∨ operand = .long n)
    (htype : ∀ p, Evaluated gs next p → ∃ v, p.ofBits n type = .ok v ∧ v.Sound) :
    Evaluates (gs ++ [⟨.constant, some type, some next, [operand]⟩]) (next + 1) := by
  refine h.add fun builtIns p he => ?_
  obtain ⟨v, hv, hsound⟩ := htype p he
  have hext := addConstant_extends he.below v
  refine ⟨p.addConstant next v, ?_, hext, addConstant_below he.below v,
    .number ho (ofBits_extends hext hv) (constants_addConstant p next v),
    addConstant_sound he.below he.sound hsound, fun _ _ _ => .inl, rfl⟩
  have hrun : (p.ofBits n type >>= fun v => pure (p.addConstant next v)) =
      (.ok (p.addConstant next v) : Except Fault Program) := by
    rw [hv]
    rfl
  rcases ho with rfl | rfl
  · exact hrun
  · exact hrun

theorem addTruth (h : Evaluates gs next) (b : Bool) :
    Evaluates (gs ++ [⟨if b then .constantTrue else .constantFalse, some type, some next, []⟩])
      (next + 1) := by
  refine h.add fun builtIns p he => ⟨p.addConstant next (.bool b), ?_,
    addConstant_extends he.below _, addConstant_below he.below _,
    .truth b (constants_addConstant p next _), addConstant_sound he.below he.sound (.bool b),
    fun _ _ _ => .inl, rfl⟩
  cases b with
  | true | false => rfl

/-- A vector of known constants. -/
theorem addComposite {lanes : List Id} (h : Evaluates gs next)
    (hlanes : ∀ p, Evaluated gs next p → ∀ lane ∈ lanes, ∃ v, p.constants[lane]? = some v) :
    Evaluates (gs ++ [⟨.constantComposite, some type, some next, lanes.map .ref⟩]) (next + 1) := by
  refine h.add fun builtIns p he => ?_
  obtain ⟨vs, hvs⟩ : ∃ vs : List Value, lanes.map (p.constants[·]?) = vs.map some := by
    have hall := hlanes p he
    clear hlanes
    induction lanes with
    | nil => exact ⟨[], rfl⟩
    | cons lane lanes ih =>
      obtain ⟨v, hv⟩ := hall lane mem_cons_self
      obtain ⟨vs, hvs⟩ := ih fun lane hlane => hall lane (mem_cons_of_mem _ hlane)
      exact ⟨v :: vs, by rw [map_cons, map_cons, hv, hvs]⟩
  have hext := addConstant_extends he.below (.vector vs)
  have hsound : ∀ v ∈ vs, v.Sound := by
    intro v hv
    have hsome : some v ∈ lanes.map (p.constants[·]?) := hvs ▸ mem_map_of_mem hv
    obtain ⟨lane, -, hlane⟩ := mem_map.1 hsome
    exact he.sound.constants lane v hlane
  exact ⟨p.addConstant next (.vector vs), declare_composite builtIns hvs, hext,
    addConstant_below he.below _,
    .composite (constants_later hext hvs) (constants_addConstant p next _),
    addConstant_sound he.below he.sound (.vector hsound), fun _ _ _ => .inl, rfl⟩

/-- A variable of a known type of pointers. -/
theorem addVariable {storage : StorageClass} (h : Evaluates gs next)
    (htype : ∀ p, Evaluated gs next p →
      ∃ storage' pointee, p.types[type]? = some (.pointer storage' pointee))
    :
    Evaluates (gs ++ [⟨.variableDecl, some type, some next, [.enumerant .storageClass storage]⟩])
      (next + 1) := by
  refine h.add fun builtIns p he => ?_
  obtain ⟨storage', pointee, ht⟩ := htype p he
  let g : Global := ⟨storage, pointee, (builtIns.find? fun e => e.1 == next).map Prod.snd⟩
  refine ⟨{ p with globals := p.globals.insert next g }, ?_, addGlobal_extends he.below g,
    addGlobal_below he.below g, .global ht Std.TreeMap.getElem?_insert_self,
    addGlobal_sound he.below he.sound g, fun _ _ _ => .inl, rfl⟩
  have hpointee : p.pointee type = .ok pointee := by
    show (p.type type >>= _) = _
    rw [type_of_some ht]
    rfl
  show (p.pointee type >>= _) = _
  rw [hpointee]
  rfl

end Evaluates

end KernelForge.Device
