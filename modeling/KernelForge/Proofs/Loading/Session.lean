import KernelForge.Proofs.Declarations.Assembly
import KernelForge.Proofs.Loading.Declarations

/-!
# Sessions that a device can load

The declarations of a session can be evaluated in the order in which they were made, because each
one refers to what was declared before it: every change of the declarations keeps this. And
functions hold instructions a device carries out: every step of an assembler keeps that.
`Session.Loads` says both.
-/

namespace KernelForge

open List

namespace Spirv

/-- A block a device can take over. -/
structure Block.Loadable (b : Block) : Prop where
  label : b.label.opcode = .label ∧ b.label.result.isSome = true
  body : ∀ i ∈ b.body, Device.isExecutable i.opcode = true

/-- A function a device can take over. -/
structure Function.Loadable (f : Function) : Prop where
  definition : f.definition.opcode = .function ∧ f.definition.result.isSome = true
  params : ∀ i ∈ f.params,
    i.opcode = .functionParameter ∧ i.result.isSome = true ∧ i.resultType.isSome = true
  blocks : ∀ b ∈ f.blocks, b.Loadable

end Spirv

namespace Codegen

open Lir (Kind)
open Spirv
open Device (Ty Program meaning?)

/-! ## What a device knows of a session -/

/-- The type a device has for a kind that is not a vector. -/
def scalarTy : Kind → Option Ty
  | .void => some .void
  | .bool => some .bool
  | .i8 => some (.int 8)
  | .i16 => some (.int 16)
  | .i32 => some (.int 32)
  | .i64 | .ptr => some (.int 64)
  | .f16 => some (.float 16)
  | .f32 => some (.float 32)
  | .f64 => some (.float 64)
  | .vector _ _ => none

variable {k : Kind} {form : Opcode × List Operand} {id type : Id}

theorem scalarForm_meaning (h : scalarForm k = some form) (type id : Option Id) :
    meaning? ⟨form.1, type, id, form.2⟩ = scalarTy k := by
  cases k <;> cases h <;> rfl

/-- The declarations of a session can be evaluated. -/
def Session.Evaluates (s : Session) : Prop :=
  Device.Evaluates s.draft.module.globals s.draft.next

abbrev Session.Evaluated (s : Session) (p : Program) : Prop :=
  Device.Evaluated s.draft.module.globals s.draft.next p

section Known

variable {s : Session} {p : Program} (he : s.Evaluated p)
include he

theorem Session.Declared.known {op : Opcode} {operands : List Operand} {t : Ty}
    (h : s.Declared op operands id) (ht : meaning? ⟨op, none, some id, operands⟩ = some t) :
    p.types[id]? = some t := by
  obtain ⟨i, hi, rfl, rfl, hr⟩ := h
  exact (he.knows i hi).type_of hr ht

/-- A device knows the type of a kind that is not a vector. -/
theorem Session.Declares.type_known (hd : s.Declares)
    (h : s.types.get? k = some id) {t : Ty} (ht : scalarTy k = some t) : p.types[id]? = some t := by
  have hdeclared := hd.types k id h
  cases k with
  | vector => cases ht
  | _ =>
    obtain ⟨form, hform, hdeclared⟩ := hdeclared
    refine hdeclared.known he ?_
    rw [scalarForm_meaning hform]
    exact ht

theorem Session.Declares.pointer_known (hd : s.Declares) {storage : StorageClass}
    (h : s.pointers.get? (type, storage) = some id) : p.types[id]? = some (.pointer storage type) :=
  (hd.pointers type storage id h).known he rfl

end Known

variable {text : String}

/-- An integer literal is a word. -/
theorem parseInt_lt {n : Nat} (h : parseInt text k = .ok n) : n < Nat.pow 2 64 := by
  unfold parseInt at h
  dsimp only at h
  split at h
  · cases h
  · cases h
    unfold Binary.mask
    split
    · exact Device.word64_lt _
    · exact Nat.lt_of_le_of_lt (Nat.mod_le _ _) (Device.word64_lt _)

/-- The form of a constant that is not a vector: a truth value, or a number of its kind. -/
theorem constantForm_cases (h : Build.constantForm text k = .ok form) :
    (∃ b : Bool, form = (if b then .constantTrue else .constantFalse, [])) ∨
      ∃ n operand t, form = (.constant, [operand]) ∧ (operand = .literal n ∨ operand = .long n) ∧
        scalarTy k = some t ∧ ((∃ w, t = .int w ∧ n < Nat.pow 2 64) ∨ ∃ w, t = .float w) := by
  cases k with
  | void | vector => cases h
  | bool =>
    obtain ⟨b, -, h⟩ := except_bind_ok.1 h
    cases h
    exact .inl ⟨b, rfl⟩
  | i8 | i16 | i32 =>
    obtain ⟨n, hn, h⟩ := except_bind_ok.1 h
    cases h
    exact .inr ⟨n, _, _, rfl, .inl rfl, rfl, .inl ⟨_, rfl, parseInt_lt hn⟩⟩
  | i64 | ptr =>
    obtain ⟨n, hn, h⟩ := except_bind_ok.1 h
    cases h
    exact .inr ⟨n, _, _, rfl, .inr rfl, rfl, .inl ⟨_, rfl, parseInt_lt hn⟩⟩
  | f16 | f32 =>
    obtain ⟨n, -, h⟩ := except_bind_ok.1 h
    cases h
    exact .inr ⟨_, _, _, rfl, .inl rfl, rfl, .inr ⟨_, rfl⟩⟩
  | f64 =>
    obtain ⟨n, -, h⟩ := except_bind_ok.1 h
    cases h
    exact .inr ⟨n, _, _, rfl, .inr rfl, rfl, .inr ⟨_, rfl⟩⟩

variable {s : Session} {p : Program}

/-- A device knows the constants of kinds that are not vectors. -/
theorem Session.Declares.constant_known (he : s.Evaluated p) (hd : s.Declares)
    (hk : k.isVector = false) (h : s.constants.get? (text, k) = some id) :
    ∃ v, p.constants[id]? = some v := by
  have hdeclared := hd.constants text k id h
  cases k with
  | vector => cases hk
  | _ =>
    obtain ⟨type, form, -, hform, hmem⟩ := hdeclared
    rcases constantForm_cases hform with ⟨b, rfl⟩ | ⟨n, operand, t, rfl, -⟩
    · exact ⟨_, (he.knows _ hmem).truth_of⟩
    · obtain ⟨n, v, -, -, hv⟩ := (he.knows _ hmem).number_of
      exact ⟨v, hv⟩

/-- A device knows the length of an array as a number. -/
theorem Session.Declares.length_known (he : s.Evaluated p) (hd : s.Declares)
    (h : s.constants.get? (text, .i32) = some id) :
    ∃ v n, p.constants[id]? = some v ∧ v.asWord = .ok n ∧ n < Nat.pow 2 32 := by
  obtain ⟨type, form, htype, hform, hmem⟩ := hd.constants text .i32 id h
  obtain ⟨n, -, hform⟩ := except_bind_ok.1 hform
  cases hform
  obtain ⟨n, v, -, hbits, hv⟩ := (he.knows _ hmem).number_of
  refine ⟨v, ?_⟩
  unfold Program.ofBits at hbits
  rw [Program.type_of_some (hd.type_known he htype rfl)] at hbits
  cases hbits
  exact ⟨_, hv, rfl, Binary.mask_lt (by decide)⟩

/-- A device knows a type for each kind, and it is no type of arrays. -/
theorem Session.Declares.kind_known (he : s.Evaluated p) (hd : s.Declares)
    (h : s.types.get? k = some id) :
    ∃ t, p.types[id]? = some t ∧ ∀ element length, t ≠ .array element length := by
  cases k with
  | vector =>
    obtain ⟨element, -, -, hvector⟩ := hd.types _ _ h
    exact ⟨_, hvector.known he rfl, nofun⟩
  | _ => exact ⟨_, hd.type_known he h rfl, nofun⟩

/-! ## Declarations stay in order -/

theorem lanes_le {n : UInt8} (h : n ∈ Kind.lanesAllowed) : n.toNat ≤ 16 := by
  simp only [Kind.lanesAllowed, mem_cons, not_mem_nil, or_false] at h
  rcases h with rfl | rfl | rfl | rfl | rfl <;> decide

namespace Session

variable {s' : Session} {known : Opcode → Id → Prop} {asked : List Capability} {op : Opcode}
  {operands : List Operand}

theorem TypeForm.evaluates (h : s.TypeForm known op operands) (hd : s.Declares)
    (he : Device.Evaluates s.draft.module.globals s.draft.next) :
    Device.Evaluates (s.draft.module.globals ++ [⟨op, none, some s.draft.next, operands⟩])
      (s.draft.next + 1) := by
  cases h with
  | @scalar k form hform _ =>
    cases k with
    | vector => cases hform
    | void | bool =>
      cases hform
      exact he.addType rfl rfl fun _ _ => trivial
    | i8 =>
      cases hform
      exact he.addType rfl rfl fun _ _ => .inl rfl
    | i16 =>
      cases hform
      exact he.addType rfl rfl fun _ _ => .inr (.inl rfl)
    | i32 =>
      cases hform
      exact he.addType rfl rfl fun _ _ => .inr (.inr (.inl rfl))
    | i64 | ptr =>
      cases hform
      exact he.addType rfl rfl fun _ _ => .inr (.inr (.inr rfl))
    | f16 | f32 | f64 =>
      cases hform
      exact he.addType rfl rfl fun _ _ => Nat.le_of_ble_eq_true rfl
  | @vector e n element hn helement =>
    refine he.addType rfl rfl fun p hp => ⟨lanes_le hn, ?_⟩
    cases e <;> exact ⟨_, hd.type_known hp helement rfl, trivial⟩
  | pointer | function => exact he.addType rfl rfl fun _ _ => trivial
  | array htype hcount =>
    refine he.addArray fun p hp => ?_
    obtain ⟨v, n, hv, hn, hlt⟩ := hd.length_known hp hcount
    exact ⟨v, n, hv, hn, hlt, hd.kind_known hp htype⟩

/-- A constant is declared after its type and its lanes. -/
theorem ConstantForm.evaluates (h : s.ConstantForm text op type operands k)
    (hd : s.Declares) (he : Device.Evaluates s.draft.module.globals s.draft.next) :
    Device.Evaluates (s.draft.module.globals ++ [⟨op, some type, some s.draft.next, operands⟩])
      (s.draft.next + 1) := by
  obtain ⟨htype, h⟩ := h
  cases k with
  | vector e =>
    obtain ⟨rfl, lanes, rfl, -, hlanes⟩ := h
    refine he.addComposite fun p hp lane hlane => ?_
    have hlane : some lane ∈ lanes.map some := mem_map_of_mem hlane
    rw [← hlanes] at hlane
    obtain ⟨part, -, hpart⟩ := mem_map.1 hlane
    exact hd.constant_known hp (Build.element_isVector e) hpart
  | _ =>
    rcases constantForm_cases h with ⟨b, hform⟩ | ⟨n, operand, t, hform, ho, ht, hnumber⟩
    · cases hform
      exact he.addTruth b
    · cases hform
      exact he.addNumber ho fun p hp =>
        Program.ofBits_of_number hp.sound (hd.type_known hp htype ht) hnumber

/-- A change keeps the declarations in order, if the variables that it declares
have types that the session remembers. -/
theorem Change.evaluates (h : Change known asked s s') (hvariable : ∀ id, ¬ known .variableDecl id)
    (hd : s.Declares) (he : s.Evaluates) : s'.Evaluates := by
  have he : Device.Evaluates s.draft.module.globals s.draft.next := he
  cases h with
  | aside h =>
    unfold Evaluates
    rw [h.globals]
    exact he.mono h.next
  | enable => exact he
  | moduleVariable htype =>
    obtain ⟨⟨pointee, storage⟩, hkey⟩ := htype.resolve_right (hvariable _)
    exact he.addVariable fun p hp => ⟨storage, pointee, hd.pointer_known hp hkey⟩
  | answer h =>
    cases h with
    | @adopt op operands hform =>
      unfold Evaluates
      cases hfound : s.draft.declared? op operands with
      | some =>
        rw [adopt_of_some s op operands hfound]
        exact he
      | none =>
        obtain ⟨hglobals, hnext⟩ := adopt_of_none s op operands hfound
        rw [hglobals, hnext]
        exact hform.evaluates hd he
    | constant hnew hform => exact hform.evaluates hd he
    | _ => exact he

theorem Changes.evaluates (h : s.Changes known asked s')
    (hvariable : ∀ id, ¬ known .variableDecl id) (hs : s.Coherent) (he : s.Evaluates) :
    s'.Evaluates := by
  induction h with
  | refl => exact he
  | tail hbefore h ih =>
    exact h.evaluates hvariable (Changes.coherent hbefore hs).declares ih

/-! ## Sessions a device can load -/

/-- Functions, also the open one, can be taken over. -/
structure Runnable (s : Session) : Prop where
  block : ∀ b, s.draft.block = some b → b.Loadable
  function : ∀ f, s.draft.function = some f → f.Loadable
  functions : ∀ f ∈ s.draft.module.functions, f.Loadable

/-- The declarations can be evaluated, and functions can be taken over. -/
structure Loads (s : Session) : Prop extends s.Runnable where
  declares : s.Declares
  evaluates : s.Evaluates

/-- A step that appends instructions a device carries out. -/
theorem Runnable.adds {c : List Instruction} (hs : s.Runnable) (h : s.Adds c s')
    (hc : ∀ i ∈ c, Device.isExecutable i.opcode = true) : s'.Runnable where
  block b hb := by
    rw [h.draft.block] at hb
    obtain ⟨b₀, hb₀, rfl⟩ := Option.map_eq_some_iff.1 hb
    refine ⟨(hs.block b₀ hb₀).label, fun i hi => ?_⟩
    exact (mem_append.1 hi).elim ((hs.block b₀ hb₀).body i) (hc i)
  function f hf := hs.function f (h.draft.function ▸ hf)
  functions f hf := hs.functions f (h.draft.functions ▸ hf)

instance : Around Runnable where
  toFrame := .ofAdds fun h hc hs => hs.adds h hc
  openBlock _ _ _ _ h hs := by
    rw [Build.openBlock_ok h]
    refine ⟨?_, hs.function, hs.functions⟩
    rintro b ⟨⟩
    exact ⟨⟨rfl, rfl⟩, forall_mem_nil _⟩
  terminate _ hop hexec _ _ _ h hs := by
    obtain ⟨f, b, hf, hb, rfl⟩ := Build.terminate_ok hop h
    refine ⟨nofun, ?_, hs.functions⟩
    rintro f' ⟨⟩
    refine ⟨(hs.function f hf).definition, (hs.function f hf).params, forall_mem_append.2
      ⟨(hs.function f hf).blocks, forall_mem_singleton.2 ⟨(hs.block b hb).label, ?_⟩⟩⟩
    exact forall_mem_append.2 ⟨(hs.block b hb).body, forall_mem_singleton.2 hexec⟩
  functionType _ _ _ _ _ h hs := hs.adds (Build.functionType_ok h) (forall_mem_nil _)
  globalVariable _ _ _ _ _ _ h hs := hs.2.adds (Build.declareValue_ok h).1.adds (forall_mem_nil _)
  decorate _ _ _ _ _ _ h hs := by
    have hb := Assemble.decorate_ok h
    exact ⟨hb.block ▸ hs.block, hb.function ▸ hs.function, hb.functions ▸ hs.functions⟩
  entryPoint _ _ _ _ h hs := by
    obtain ⟨d, hd, rfl⟩ := Build.onDraft_ok h
    cases hd
    exact ⟨hs.block, hs.function, hs.functions⟩
  openFunction _ _ _ _ _ _ h hs := by
    obtain ⟨d, hd, rfl⟩ := Build.onDraft_ok h
    simp only [Draft.place, Draft.openFunction] at hd
    split at hd <;> cases hd
    refine ⟨hs.block, ?_, hs.functions⟩
    rintro f ⟨⟩
    exact ⟨⟨rfl, rfl⟩, forall_mem_nil _, forall_mem_nil _⟩
  param _ _ _ _ _ h hs := by
    obtain ⟨d, hd, rfl⟩ := Build.onDraft_ok h
    simp only [Draft.place, Draft.addParam] at hd
    split at hd <;> cases hd
    next f hf =>
    refine ⟨hs.block, ?_, hs.functions⟩
    rintro f' ⟨⟩
    exact ⟨(hs.function f hf).definition,
      forall_mem_append.2 ⟨(hs.function f hf).params, forall_mem_singleton.2 ⟨rfl, rfl, rfl⟩⟩,
      (hs.function f hf).blocks⟩
  closeFunction _ _ _ h hs := by
    obtain ⟨d, hd, rfl⟩ := Build.onDraft_ok h
    simp only [Draft.place, Draft.closeFunction] at hd
    split at hd <;> cases hd
    next f hf hb =>
    exact ⟨hs.block, nofun,
      forall_mem_append.2 ⟨hs.functions, forall_mem_singleton.2 (hs.function f hf)⟩⟩

end Session

/-- Between functions everything in the module can be loaded. -/
theorem Assembler.Started.loads {a : Assembler} (h : a.Started) : a.session.Loads := by
  obtain ⟨target, haround⟩ := h.around
  have hchanges := haround (Session.Changes vetted [] (Assemble.headed target)) .refl
  have hs := headed_coherent target
  exact { haround Session.Runnable ⟨nofun, nofun, forall_mem_nil _⟩ with
    declares := (hchanges.coherent hs).declares
    evaluates := hchanges.evaluates (fun _ h => h rfl) hs (.nil _) }

end Codegen

end KernelForge
