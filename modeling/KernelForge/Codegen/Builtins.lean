import KernelForge.Codegen.Session

/-!
# Coordinates of a work-item

The variables through which the device provides the coordinates of a work-item: one read-only
vector of three 64-bit integers for each query.
-/

namespace KernelForge.Codegen

open Lir (ThreadQuery Kind)
open Spirv (Id BuiltIn Family StorageClass)

/-- The provided value of a query. -/
def builtInOf : ThreadQuery → BuiltIn
  | .globalId => BuiltIn.globalInvocationId
  | .globalSize => BuiltIn.globalSize
  | .localId => BuiltIn.localInvocationId
  | .groupId => BuiltIn.workgroupId
  | .workgroupSize => BuiltIn.workgroupSize

/-- Name under which the variable of a query is linked. -/
def linkName (q : ThreadQuery) : String := "__spirv_BuiltIn" ++ Family.builtIn.text (builtInOf q)

def coordinateKind : Kind := .vector .i64 3

abbrev Builtins := Table ThreadQuery Id

namespace Build

abbrev declareBuiltin (pointerType : Id) (q : ThreadQuery) : Build Id := do
  let id ← globalVariable pointerType StorageClass.input
  decorate id 11 [.enumerant .builtIn (builtInOf q)]
  decorate id 22 []
  decorate id 41 [.text (linkName q), .enumerant .linkageType 1]
  return id

/-- Declare the variables of all queries. -/
def declareBuiltins : Build Builtins := do
  let pointerType ← pointerTo coordinateKind StorageClass.input
  ThreadQuery.all.foldlM
    (fun table q => do return table.insert q (← declareBuiltin pointerType q)) ∅

end Build

end KernelForge.Codegen
