import KernelForge.Proofs.Runs

/-!
# Steps that see no names

Names are a section of their own, which no step reads. So a step of a session does the same to a
session without names (`Build.Blind`). Compound steps do if their parts do; the parts are found by
instances.
-/

namespace KernelForge

section Mirrors

variable {ε σ α β : Type} {f : σ → σ}

/-- Something is done to the state behind a run. -/
def onState (f : σ → σ) : EStateM.Result ε σ α → EStateM.Result ε σ α
  | .ok a s => .ok a (f s)
  | .error e s => .error e (f s)

/-- What `x` makes of a state, `y` makes of the state that `f` has changed. -/
class Mirrors (f : σ → σ) (x y : EStateM ε σ α) : Prop where
  run : ∀ s, y (f s) = onState f (x s)

/-- Things that are the same by definition. -/
class Same (a b : α) : Prop where
  eq : a = b

instance (a : α) : Same a a := ⟨rfl⟩

variable {x y : EStateM ε σ α} {l : List β}

instance (a : α) : Mirrors (ε := ε) f (pure a) (pure a) := ⟨fun _ => rfl⟩

instance (e : ε) : Mirrors f (throw e : EStateM ε σ α) (throw e) := ⟨fun _ => rfl⟩

instance (e : Except ε α) : Mirrors f (ofExcept e : EStateM ε σ α) (ofExcept e) :=
  ⟨fun _ => by cases e <;> rfl⟩

instance Mirrors.bind {g k : α → EStateM ε σ β} [m : Mirrors f x y]
    [h : ∀ a, Mirrors f (g a) (k a)] : Mirrors f (x >>= g) (y >>= k) := by
  refine ⟨fun s => ?_⟩
  show EStateM.bind y k (f s) = onState f (EStateM.bind x g s)
  rw [EStateM.bind, EStateM.bind, m.run]
  cases x s with
  | ok a t => exact (h a).run t
  | error => rfl

theorem Mirrors.see {g k : σ → EStateM ε σ α} (h : ∀ s, Mirrors f (g s) (k (f s))) :
    Mirrors f (get >>= g) (get >>= k) := ⟨fun s => (h s).run s⟩

/-- A step that only looks at what `f` leaves alone. -/
theorem Mirrors.look {g : σ → EStateM ε σ α} (h : ∀ s, Mirrors f (g s) (g s))
    (hg : ∀ s, g (f s) = g s := by exact fun _ => rfl) : Mirrors f (get >>= g) (get >>= g) :=
  .see fun s => (hg s).symm ▸ h s

theorem Mirrors.modifyGet {g : σ → α × σ} (h : ∀ s, g (f s) = ((g s).1, f (g s).2)) :
    Mirrors (ε := ε) f (modifyGet g) (modifyGet g) :=
  ⟨fun s => congrArg (fun r : α × σ => EStateM.Result.ok r.1 r.2) (h s)⟩

instance {g : σ → σ} [h : ∀ s, Same (g (f s)) (f (g s))] :
    Mirrors (ε := ε) f (modify g) (modify g) := ⟨fun s => congrArg _ (h s).eq⟩

instance {c : Prop} [Decidable c] {z w : EStateM ε σ α} [Mirrors f x y] [Mirrors f z w] :
    Mirrors f (if c then x else z) (if c then y else w) := by split <;> assumption

instance {g : β → EStateM ε σ PUnit} [∀ b, Mirrors f (g b) (g b)] :
    Mirrors f (l.forM g) (l.forM g) := by
  induction l with
  | nil => exact ⟨fun _ => rfl⟩
  | cons b l ih => exact Mirrors.bind

instance {g : β → EStateM ε σ α} [∀ b, Mirrors f (g b) (g b)] :
    Mirrors f (l.mapM g) (l.mapM g) := by
  induction l with
  | nil => exact ⟨fun _ => rfl⟩
  | cons b l ih =>
    rw [List.mapM_cons]
    infer_instance

end Mirrors

namespace Spirv

abbrev Opcode.isName : Opcode → Bool
  | .name => true
  | _ => false

abbrev Instruction.isNoName (i : Instruction) : Bool := i.opcode != .name

open Instruction (isNoName)

/-- A module without its names. There are none among declarations and in functions. -/
abbrev Module.unnamed (m : Module) : Module :=
  { m with
    capabilities := m.capabilities.filter isNoName
    imports := m.imports.filter isNoName
    memoryModel := m.memoryModel.filter isNoName
    entryPoints := m.entryPoints.filter isNoName
    executionModes := m.executionModes.filter isNoName
    names := m.names.filter isNoName
    annotations := m.annotations.filter isNoName }

end Spirv

namespace Codegen

open Lir (Kind)
open Spirv

set_option synthInstance.maxSize 1000

abbrev Session.unnamed (s : Session) : Session :=
  { s with draft := s.draft.onModule Module.unnamed }

namespace Build

/-- A step that does the same with and without names. -/
abbrev Blind {α : Type} (x : Build α) : Prop := Mirrors Session.unnamed x x

instance : Blind fresh := ⟨fun _ => rfl⟩

theorem onDraft_blind {f : Draft → Except StructureFault Draft}
    (h : ∀ d, f (d.onModule Module.unnamed) = (f d).map (·.onModule Module.unnamed)) :
    Blind (onDraft f) := by
  refine ⟨fun s => ?_⟩
  rw [onDraft, get_bind, get_bind, h]
  cases f s.draft <;> rfl

variable (i : Instruction) (op : Opcode) (type : Id) (operands : List Operand) (k : Kind)
  (storage : StorageClass) (value : String)

instance : Blind (append i) := by
  refine onDraft_blind fun d => ?_
  rcases d with ⟨m, next, f, _ | b⟩ <;> rfl

instance [h : Same i.opcode.isName false] : Blind (place i) := by
  refine onDraft_blind fun d => ?_
  obtain ⟨op, type, result, operands⟩ := i
  have hname : op ≠ .name := by
    rintro rfl
    cases h.eq
  rcases d with ⟨m, next, _ | f, _ | b⟩ <;> cases op <;>
    first | rfl | simp [Draft.place, Draft.onModule, Except.map] at hname ⊢

instance : Blind (declareValue op type operands) := ⟨fun _ => rfl⟩

instance : Blind (declareType op operands) := by
  refine .modifyGet fun s => ?_
  have hsame : s.unnamed.draft.declared? op operands = s.draft.declared? op operands := rfl
  dsimp only [Draft.declareType]
  rw [hsame]
  cases s.draft.declared? op operands <;> rfl

instance (c : Capability) : Blind (require c) := .look inferInstance

instance : Blind header := by
  have : Blind (modify fun s => { s with
    draft := s.draft.onModule fun m => { m with version := ⟨1, 2⟩ } }) := ⟨fun _ => rfl⟩
  unfold header
  infer_instance

instance : Blind (declareScalar k) := by
  have (k : Kind) : Blind (checkPrecision k) := .look inferInstance
  unfold declareScalar
  split <;> infer_instance

instance : Blind (scalarType k) := .look fun _ => by split <;> infer_instance

instance : Blind (typeOf k) := by
  unfold typeOf
  split
  · exact .look fun _ => by split <;> infer_instance
  · infer_instance

instance : Blind (pointerToType type storage) := .look fun _ => by split <;> infer_instance

instance (params : List Id) : Blind (functionType type params) :=
  .look fun _ => by split <;> infer_instance

instance : Blind (scalarConstant value k) := .look fun _ => by split <;> infer_instance

instance : Blind (constant value k) := by
  unfold constant
  split
  · exact .look fun _ => by split <;> infer_instance
  · infer_instance

instance (length : UInt32) : Blind (arrayOf k length) :=
  .look fun _ => by split <;> infer_instance

instance (id : Option Id) (number : Nat) : Blind (emitMath type id number operands) := by
  have : Blind importedSet := .look fun _ => by split <;> infer_instance
  unfold emitMath
  cases id <;> infer_instance

instance : Blind declareBuiltins := by
  have (q : Lir.ThreadQuery) (pointer : Id) : Blind (declareBuiltin pointer q) := inferInstance
  unfold declareBuiltins
  simp only [Lir.ThreadQuery.all, List.foldlM_cons, List.foldlM_nil]
  infer_instance

end Build

/-! ## Names left out -/

abbrev Body.unnamed (b : Body) : Body := { b with session := b.session.unnamed }

abbrev Scope.unnamed (scope : Scope) : Scope :=
  { scope with settings := { scope.settings with debugNames := false } }

/-- Whatever holds a session mirrors the steps that the session does. -/
theorem within_mirrors {σ α : Type} {session : σ → Session} {put : σ → Session → σ} {f : σ → σ}
    {x y : Build α} [h : Mirrors Session.unnamed x y]
    (hsession : ∀ s, session (f s) = (session s).unnamed)
    (hput : ∀ s t, put (f s) t.unnamed = f (put s t)) :
    Mirrors f (x.within session put) (y.within session put) := by
  refine ⟨fun s => ?_⟩
  rw [Build.within, Build.within, hsession, h.run]
  cases x (session s) with
  | ok => exact congrArg _ (hput _ _)
  | error => exact congrArg _ (hput _ _)

/-- Without names, a name is nothing. -/
instance (id : Id) (text : String) : Mirrors Session.unnamed (Build.name id text) (pure ()) := by
  refine ⟨fun s => ?_⟩
  have hrun : Build.name id text s = .ok () { s with draft := s.draft.onModule fun m =>
      { m with names := m.names ++ [⟨.name, none, none, [.ref id, .text text]⟩] } } := rfl
  rw [hrun]
  simp [onState, Draft.onModule, pure, EStateM.pure]

end Codegen

end KernelForge
