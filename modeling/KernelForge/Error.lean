import KernelForge.Device.Program
import KernelForge.Lir.Function

/-!
# What can go wrong

Every failure outside the data formats is one of three classes: a kernel that may still run
elsewhere, an internal failure, or a capacity that has to be raised. An error is its cause; its
code, class and wording are functions of the cause.
-/

namespace KernelForge

open Lir
open Text (natText addressText)

inductive ErrorClass where
  /-- Worth trying on another device. -/
  | bailout
  /-- A missing case or a broken invariant. -/
  | internal
  /-- A configured capacity is reached. -/
  | exhausted
deriving DecidableEq, Repr, Inhabited

def ErrorClass.name : ErrorClass → String
  | .bailout => "Bailout"
  | .internal => "Internal"
  | .exhausted => "Exhausted"

/-- Kinds where they are not supported. -/
inductive KindFault where
  /-- A vector with a lane count no device declares. -/
  | vector (kind : Kind)
  | lanes (element : Element) (lanes : Nat)
  | lane (kind : Kind)
  | voidConstant
  | query (query : ThreadQuery) (kind : Kind)
  | notVector (kind : Kind)
deriving DecidableEq, Repr, Inhabited

/-- Addresses that cannot be formed. -/
inductive OriginFault where
  | index (var : ValueId) (kind : Kind)
  | base (var : ValueId) (kind : Kind)
  | undeclared (array : ArrayId)
  | region (array : ArrayId) (declared accessed : Region)
deriving DecidableEq, Repr, Inhabited

/-- Cases code generation does not have. -/
inductive Missing where
  | binaryOn (op : BinaryOp) (kind : Kind)
  | mixing (lhs rhs : Kind)
  | comparisonInto (kind : Kind)
  | producing (op : BinaryOp) (result operand : Kind)
  | unaryOn (op : UnaryOp) (kind : Kind)
  | conversion (source target : Kind)
  | bitcast (source target : Kind)
  | selectOn (op : BinaryOp)
  | integerTest (kind : Kind)
  | arity (op : Intrinsic) (count : Nat)
  | intrinsicOn (op : Intrinsic) (kind : Kind)
  | callKernel (callee : String)
  | callArity (callee : String) (got expects : Nat)
  | lateMerge (var : ValueId)
  | branchOn (kind : Kind)
  | switchOn (kind : Kind)
  | kernelValue (kernel : String)
  | dimension (query : ThreadQuery) (dimension : Nat)
  | lane (lane : Nat) (kind : Kind)
  | built (kind : Kind) (count : Nat)
  | noBlocks (function : String)
  | kernelReturn (kernel : String) (kind : Kind)
  | kernelParam (kind : Kind)
  | undeclaredQuery (query : ThreadQuery)
deriving DecidableEq, Repr, Inhabited

/-- Values used without a definition. -/
inductive UndefinedValue where
  | value (var : ValueId)
  | noKind (var : ValueId)
  | reachesMerge (var merge : ValueId)
  | neverDefined (var : ValueId)
deriving DecidableEq, Repr, Inhabited

/-- Merges that do not match the control flow. -/
inductive MergeFault where
  | notPredecessor (block merge : BlockId)
  | twice (block : BlockId)
  | count (incoming predecessors : Nat) (merge : BlockId)
deriving DecidableEq, Repr, Inhabited

/-- What an assembler is asked to do. -/
inductive Action where
  | header | declare | openFunction | finish | extended
deriving DecidableEq, Repr, Inhabited

/-- Stages of a module's assembly. -/
inductive Stage where
  | empty | headerEmitted | inFunction | inBlock | functionClosed | done
deriving DecidableEq, Repr, Inhabited

/-- How an installed kernel is asked for. -/
inductive KernelName where
  | key (key : String)
  | handle (handle : Nat)
deriving DecidableEq, Repr, Inhabited

inductive Error where
  | reservedName (name : String)
  | unsupportedPrecision (kind : Kind)
  | emptyBinary (key : String)
  | buildFailed (entry : String) (log : Device.BuildFault)
  | staging
  | unsupportedKind (fault : KindFault)
  | addressOrigin (fault : OriginFault)
  | unimplemented (missing : Missing)
  | invalidLiteral (value : String) (kind : Kind)
  | undefinedValue (value : UndefinedValue)
  | unknownFunction (name : String)
  | mergeCycle (merge : ValueId)
  | malformedMerge (merge : ValueId) (fault : MergeFault)
  | invalidState (action : Action) (stage : Stage)
  | builder (fault : Spirv.StructureFault)
  | undefinedEvent (index : Nat)
  | eventSlotsRetained (retained capacity : Nat)
  | unknownDevice (index : Nat)
  | unknownBuffer (address : Nat)
  | unknownKernel (name : KernelName)
  | execution (fault : Device.Fault)
  | eventWindowFull (capacity : Nat)
deriving Repr, Inhabited

/-! ## Wording -/

def KindFault.message : KindFault → String
  | .vector k => k.text
  | .lanes e n => s!"{e.kind.text}{n} vector"
  | .lane k => s!"{k.text} vector lane"
  | .voidConstant => "void constant"
  | .query q k => s!"{q.title} into {k.text}"
  | .notVector k => s!"{k.text} is not a vector"

def OriginFault.message : OriginFault → String
  | .index v k => s!"{v.text} used as an index ({k.text})"
  | .base v k => s!"{v.text} of kind {k.text} is not an address"
  | .undeclared a => s!"{a.text} was never declared"
  | .region a declared accessed => s!"{a.text} is {declared.text} but accessed as {accessed.text}"

def Missing.message : Missing → String
  | .binaryOn op k => s!"{op.title} on {k.text}"
  | .mixing a b => s!"mixing {a.text} and {b.text}"
  | .comparisonInto k => s!"comparison into {k.text}"
  | .producing op result operand => s!"{op.title} producing {result.text} from {operand.text}"
  | .unaryOn op k => s!"{op.title} on {k.text}"
  | .conversion a b => s!"conversion from {a.text} to {b.text}"
  | .bitcast a b => s!"bitcast from {a.text} to {b.text}"
  | .selectOn op => s!"select on {op.title}"
  | .integerTest k => s!"integer test on {k.text}"
  | .arity op n => s!"{op.title} with {n} arguments"
  | .intrinsicOn op k => s!"{op.title} on {k.text}"
  | .callKernel f => s!"direct call to kernel `{f}`"
  | .callArity f got expects => s!"call to `{f}` with {got} arguments, expected {expects}"
  | .lateMerge v => s!"merge for {v.text} after the head of its block"
  | .branchOn k => s!"branch on {k.text}"
  | .switchOn k => s!"switch on {k.text}"
  | .kernelValue f => s!"kernel `{f}` returning a value"
  | .dimension q n => s!"{q.title} dimension {n}"
  | .lane n k => s!"lane {n} of {k.text}"
  | .built k n => s!"{k.text} built from {n} elements"
  | .noBlocks f => s!"function `{f}` has no blocks"
  | .kernelReturn f k => s!"kernel `{f}` returning {k.text}"
  | .kernelParam k => s!"kernel parameter of kind {k.text}"
  | .undeclaredQuery q => s!"builtin {q.title} was not declared"

def UndefinedValue.message : UndefinedValue → String
  | .value v => v.text
  | .noKind v => s!"{v.text} has no declared kind"
  | .reachesMerge v m => s!"{v.text} reaches merge {m.text} before its definition"
  | .neverDefined v => s!"{v.text} is referenced by a merge but never defined"

def MergeFault.message : MergeFault → String
  | .notPredecessor b m => s!"{b.text} is not a predecessor of {m.text}"
  | .twice b => s!"{b.text} appears twice"
  | .count incoming predecessors m =>
    s!"{incoming} incoming values for {predecessors} predecessors of {m.text}"

def Action.text : Action → String
  | .header => "emit the module header"
  | .declare => "declare a function"
  | .openFunction => "open a function"
  | .finish => "finish the module"
  | .extended => "emit an extended instruction"

def Stage.text : Stage → String
  | .empty => "Empty"
  | .headerEmitted => "HeaderEmitted"
  | .inFunction => "InFunction"
  | .inBlock => "InBlock"
  | .functionClosed => "FunctionClosed"
  | .done => "Done"

def KernelName.text : KernelName → String
  | .key k => k
  | .handle n => s!"handle {n}"

namespace Error

def cls : Error → ErrorClass
  | .reservedName _ | .unsupportedPrecision _ | .emptyBinary _ | .buildFailed _ _ | .staging =>
    .bailout
  | .eventWindowFull _ => .exhausted
  | _ => .internal

def code : Error → String
  | .reservedName _ => "bailout::reserved_name"
  | .unsupportedPrecision _ => "bailout::unsupported_precision"
  | .emptyBinary _ => "bailout::empty_binary"
  | .buildFailed _ _ => "bailout::build_failed"
  | .staging => "bailout::staging"
  | .unsupportedKind _ => "internal::unsupported_kind"
  | .addressOrigin _ => "internal::address_origin"
  | .unimplemented _ => "internal::unimplemented"
  | .invalidLiteral _ _ => "internal::invalid_literal"
  | .undefinedValue _ => "internal::undefined_value"
  | .unknownFunction _ => "internal::unknown_function"
  | .mergeCycle _ => "internal::phi_cycle"
  | .malformedMerge _ _ => "internal::malformed_merge"
  | .invalidState _ _ => "internal::invalid_state"
  | .builder _ => "internal::builder"
  | .undefinedEvent _ => "internal::undefined_event"
  | .eventSlotsRetained _ _ => "internal::event_slots_retained"
  | .unknownDevice _ => "internal::unknown_device"
  | .unknownBuffer _ => "internal::unknown_buffer"
  | .unknownKernel _ => "internal::unknown_kernel"
  | .execution _ => "internal::execution"
  | .eventWindowFull _ => "exhausted::event_window"

def message : Error → String
  | .reservedName name => s!"function name `{name}` collides with a reserved target keyword"
  | .unsupportedPrecision k => s!"device does not support {k.text} precision"
  | .emptyBinary key => s!"refusing to install empty binary for `{key}`"
  | .buildFailed entry log => s!"device failed to build `{entry}`:\n{log.message}"
  | .staging => "could not stage binary at <path>"
  | .unsupportedKind f => s!"unsupported type: {f.message}"
  | .addressOrigin f => s!"address origin not supported: {f.message}"
  | .unimplemented m => s!"unimplemented: {m.message}"
  | .invalidLiteral value k => s!"invalid literal `{value}` for {k.text}"
  | .undefinedValue v => s!"undefined value {v.message}"
  | .unknownFunction name => s!"unknown function `{name}`"
  | .mergeCycle v => s!"merge for {v.text} only references itself"
  | .malformedMerge v f => s!"merge for {v.text} is malformed: {f.message}"
  | .invalidState action stage => s!"assembler cannot {action.text} in state {stage.text}"
  | .builder f => s!"SPIR-V builder error: {f.message}"
  | .undefinedEvent n => s!"undefined event index {n}"
  | .eventSlotsRetained retained capacity =>
    s!"event window is full (retained={retained}, capacity={capacity})"
  | .unknownDevice n => s!"unknown device index {n}"
  | .unknownBuffer address => s!"unknown device buffer at {addressText address}"
  | .unknownKernel name => s!"no installed kernel for `{name.text}`"
  | .execution f => s!"device execution fault: {f.message}"
  | .eventWindowFull capacity => s!"event window is full (capacity={capacity})"

end Error

end KernelForge
