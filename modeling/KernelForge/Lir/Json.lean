import KernelForge.Json.Record
import KernelForge.Lir.Function

/-!
# The data format of modules

How every part of the intermediate representation is written and read (`Json.Coded`). Writing gives
every field, `null` for an absent one; reading also takes the shorter forms that
`KernelForge.Json.Record` describes, and falls back to nothing for the optional fields.
-/

namespace KernelForge.Lir

open Json (Coded write read? record? required? defaulted? tagged? bare? tag)

/-! ## Names and kinds -/

instance : Coded ValueId := .wrap ValueId.index ValueId.mk

instance : Coded BlockId := .wrap BlockId.index BlockId.mk

instance : Coded ArrayId := .wrap ArrayId.index ArrayId.mk

/-- Written name of a kind that is not a vector. -/
def Kind.name : Kind → String
  | .void => "void" | .bool => "bool" | .i8 => "i8" | .i16 => "i16" | .i32 => "i32"
  | .i64 => "i64" | .f16 => "f16" | .f32 => "f32" | .f64 => "f64" | .ptr => "ptr"
  | .vector _ _ => "vector"

instance : Coded Element := .named [.i8, .i16, .i32, .i64, .f16, .f32, .f64] fun e => e.kind.name

instance Kind.coded : Coded Kind where
  write
    | .vector e n => tag "vector" (.obj [("element", write e), ("lanes", write n)])
    | k => .str k.name
  read? j :=
    match tagged? j with
    | some ("vector", some content) => do
      let r ← record? ["element", "lanes"] content
      return .vector (← required? "element" r) (← required? "lanes" r)
    | _ => (bare? j).bind fun n =>
      [.void, .bool, .i8, .i16, .i32, .i64, .f16, .f32, .f64, .ptr].find? fun k => name k == n

instance : Coded Role := .named [.kernel, .device] fun
  | .kernel => "kernel"
  | .device => "device"

instance : Coded Region := .named [.perItem, .perGroup] Region.text

/-! ## Operands and addresses -/

instance Literal.coded : Coded Literal where
  write l := .obj [("value", write l.value), ("kind", write l.kind)]
  read? j := do
    let r ← record? ["value", "kind"] j
    return ⟨← required? "value" r, ← required? "kind" r⟩

instance Operand.coded : Coded Operand where
  write
    | .var v => tag "var" (write v)
    | .const l => tag "const" (write l)
  read? j :=
    match tagged? j with
    | some ("var", some content) => (read? content).map .var
    | some ("const", some content) => (read? content).map .const
    | _ => none

/-- Base and offset of an address. -/
def basedAddress? (make : ValueId → Option Operand → Address) (j : Json) : Option Address := do
  let r ← record? ["base", "offset"] j
  return make (← required? "base" r) (← defaulted? "offset" none r)

def indexedAddress? (region : Region) (j : Json) : Option Address := do
  let r ← record? ["array", "index"] j
  return .array region (← required? "array" r) (← required? "index" r)

instance Address.coded : Coded Address where
  write
    | .heap base offset => tag "heap" (.obj [("base", write base), ("offset", write offset)])
    | .generic base offset => tag "generic" (.obj [("base", write base), ("offset", write offset)])
    | .array region id index =>
      tag region.text (.obj [("array", write id), ("index", write index)])
  read? j :=
    match tagged? j with
    | some ("heap", some content) => basedAddress? .heap content
    | some ("generic", some content) => basedAddress? .generic content
    | some ("private", some content) => indexedAddress? .perItem content
    | some ("local", some content) => indexedAddress? .perGroup content
    | _ => none

/-! ## Operators -/

instance : Coded BinaryOp := .named BinaryOp.all BinaryOp.name

instance : Coded UnaryOp := .named [.neg, .not] fun
  | .neg => "neg"
  | .not => "not"

instance : Coded ConvertOp := .named [.signed, .unsigned, .bitcast] fun
  | .signed => "signed"
  | .unsigned => "unsigned"
  | .bitcast => "bitcast"

instance : Coded Intrinsic := .named Intrinsic.all Intrinsic.name

instance : Coded ThreadQuery := .named ThreadQuery.all ThreadQuery.name

instance : Coded Fence := .named [.workgroup, .heap] fun
  | .workgroup => "local"
  | .heap => "global"

/-! ## Operations -/

/-- Content of an operation by its tag. -/
def Op.ofTagged? (name : String) (content : Json) : Option Op :=
  match name with
  | "binary" => do
    let r ← record? ["dst", "op", "lhs", "rhs"] content
    return .binary (← required? "dst" r) (← required? "op" r) (← required? "lhs" r)
      (← required? "rhs" r)
  | "unary" => do
    let r ← record? ["dst", "op", "src"] content
    return .unary (← required? "dst" r) (← required? "op" r) (← required? "src" r)
  | "convert" => do
    let r ← record? ["dst", "op", "src"] content
    return .convert (← required? "dst" r) (← required? "op" r) (← required? "src" r)
  | "select" => do
    let r ← record? ["dst", "cmp", "lhs", "rhs", "on_true", "on_false"] content
    return .select (← required? "dst" r) (← required? "cmp" r) (← required? "lhs" r)
      (← required? "rhs" r) (← required? "on_true" r) (← required? "on_false" r)
  | "integer_test" => do
    let r ← record? ["dst", "lhs", "rhs"] content
    return .integerTest (← required? "dst" r) (← required? "lhs" r) (← required? "rhs" r)
  | "intrinsic" => do
    let r ← record? ["dst", "op", "args"] content
    return .intrinsic (← required? "dst" r) (← required? "op" r) (← required? "args" r)
  | "move" => do
    let r ← record? ["dst", "src"] content
    return .move (← required? "dst" r) (← required? "src" r)
  | "load" => do
    let r ← record? ["dst", "address"] content
    return .load (← required? "dst" r) (← required? "address" r)
  | "store" => do
    let r ← record? ["address", "value"] content
    return .store (← required? "address" r) (← required? "value" r)
  | "vector_build" => do
    let r ← record? ["dst", "elements"] content
    return .vectorBuild (← required? "dst" r) (← required? "elements" r)
  | "vector_extract" => do
    let r ← record? ["dst", "vector", "lane"] content
    return .vectorExtract (← required? "dst" r) (← required? "vector" r) (← required? "lane" r)
  | "vector_insert" => do
    let r ← record? ["dst", "vector", "lane", "value"] content
    return .vectorInsert (← required? "dst" r) (← required? "vector" r) (← required? "lane" r)
      (← required? "value" r)
  | "call" => do
    let r ← record? ["dst", "callee", "args"] content
    return .call (← defaulted? "dst" none r) (← required? "callee" r) (← required? "args" r)
  | "phi" => do
    let r ← record? ["dst", "incoming"] content
    return .phi (← required? "dst" r) (← required? "incoming" r)
  | "thread_id" => do
    let r ← record? ["dst", "query", "dimension"] content
    return .threadId (← required? "dst" r) (← required? "query" r) (← required? "dimension" r)
  | "barrier" => do
    let r ← record? ["fence"] content
    return .barrier (← required? "fence" r)
  | _ => none

instance Op.coded : Coded Op where
  write
    | .binary dst op lhs rhs =>
      tag "binary" (.obj [("dst", write dst), ("op", write op), ("lhs", write lhs),
        ("rhs", write rhs)])
    | .unary dst op src =>
      tag "unary" (.obj [("dst", write dst), ("op", write op), ("src", write src)])
    | .convert dst op src =>
      tag "convert" (.obj [("dst", write dst), ("op", write op), ("src", write src)])
    | .select dst cmp lhs rhs onTrue onFalse =>
      tag "select" (.obj [("dst", write dst), ("cmp", write cmp), ("lhs", write lhs),
        ("rhs", write rhs), ("on_true", write onTrue), ("on_false", write onFalse)])
    | .integerTest dst lhs rhs =>
      tag "integer_test" (.obj [("dst", write dst), ("lhs", write lhs), ("rhs", write rhs)])
    | .intrinsic dst op args =>
      tag "intrinsic" (.obj [("dst", write dst), ("op", write op), ("args", write args)])
    | .move dst src => tag "move" (.obj [("dst", write dst), ("src", write src)])
    | .load dst address => tag "load" (.obj [("dst", write dst), ("address", write address)])
    | .store address value =>
      tag "store" (.obj [("address", write address), ("value", write value)])
    | .vectorBuild dst elements =>
      tag "vector_build" (.obj [("dst", write dst), ("elements", write elements)])
    | .vectorExtract dst vector lane =>
      tag "vector_extract" (.obj [("dst", write dst), ("vector", write vector),
        ("lane", write lane)])
    | .vectorInsert dst vector lane value =>
      tag "vector_insert" (.obj [("dst", write dst), ("vector", write vector),
        ("lane", write lane), ("value", write value)])
    | .call dst callee args =>
      tag "call" (.obj [("dst", write dst), ("callee", write callee), ("args", write args)])
    | .phi dst incoming => tag "phi" (.obj [("dst", write dst), ("incoming", write incoming)])
    | .threadId dst query dimension =>
      tag "thread_id" (.obj [("dst", write dst), ("query", write query),
        ("dimension", write dimension)])
    | .barrier fence => tag "barrier" (.obj [("fence", write fence)])
  read? j :=
    match tagged? j with
    | some (name, some content) => ofTagged? name content
    | _ => none

/-! ## Blocks, functions, modules -/

instance LoopHint.coded : Coded LoopHint where
  write h := .obj [("merge", write h.merge), ("continue_target", write h.continueTarget),
    ("unroll", write h.unroll)]
  read? j := do
    let r ← record? ["merge", "continue_target", "unroll"] j
    return ⟨← required? "merge" r, ← required? "continue_target" r, ← defaulted? "unroll" false r⟩

instance Terminator.coded : Coded Terminator where
  write
    | .jump b => tag "jump" (write b)
    | .branch condition onTrue onFalse hint =>
      tag "branch" (.obj [("condition", write condition), ("on_true", write onTrue),
        ("on_false", write onFalse), ("loop_hint", write hint)])
    | .switch selector cases default =>
      tag "switch" (.obj [("selector", write selector), ("cases", write cases),
        ("default", write default)])
    | .ret value => tag "return" (write value)
    | .unreachable => .str "unreachable"
  read? j :=
    match tagged? j with
    | some ("jump", some content) => (read? content).map .jump
    | some ("branch", some content) => do
      let r ← record? ["condition", "on_true", "on_false", "loop_hint"] content
      return .branch (← required? "condition" r) (← required? "on_true" r)
        (← required? "on_false" r) (← defaulted? "loop_hint" none r)
    | some ("switch", some content) => do
      let r ← record? ["selector", "cases", "default"] content
      return .switch (← required? "selector" r) (← required? "cases" r) (← required? "default" r)
    | some ("return", some content) => (read? content).map .ret
    | _ => (bare? j).bind fun
      | "unreachable" => some .unreachable
      | _ => none

instance Block.coded : Coded Block where
  write b := .obj [("id", write b.id), ("ops", write b.ops), ("terminator", write b.terminator)]
  read? j := do
    let r ← record? ["id", "ops", "terminator"] j
    return ⟨← required? "id" r, ← required? "ops" r, ← required? "terminator" r⟩

instance Param.coded : Coded Param where
  write p := .obj [("var", write p.var), ("kind", write p.kind), ("name", write p.name)]
  read? j := do
    let r ← record? ["var", "kind", "name"] j
    return ⟨← required? "var" r, ← required? "kind" r, ← defaulted? "name" none r⟩

instance ValueDecl.coded : Coded ValueDecl where
  write d := .obj [("var", write d.var), ("kind", write d.kind)]
  read? j := do
    let r ← record? ["var", "kind"] j
    return ⟨← required? "var" r, ← required? "kind" r⟩

instance ArrayDecl.coded : Coded ArrayDecl where
  write d := .obj [("id", write d.id), ("region", write d.region), ("element", write d.element),
    ("length", write d.length)]
  read? j := do
    let r ← record? ["id", "region", "element", "length"] j
    return ⟨← required? "id" r, ← required? "region" r, ← required? "element" r,
      ← required? "length" r⟩

instance Function.coded : Coded Function where
  write f := .obj [("name", write f.name), ("kind", write f.role), ("params", write f.params),
    ("return_kind", write f.returnKind), ("variables", write f.locals), ("arrays", write f.arrays),
    ("blocks", write f.blocks)]
  read? j := do
    let r ← record? ["name", "kind", "params", "return_kind", "variables", "arrays", "blocks"] j
    return ⟨← required? "name" r, ← required? "kind" r, ← required? "params" r,
      ← required? "return_kind" r, ← defaulted? "variables" [] r, ← defaulted? "arrays" [] r,
      ← required? "blocks" r⟩

def Module.toJson (m : Module) : Json :=
  .obj [("name", write m.name), ("functions", write m.functions)]

def Module.ofJson? (j : Json) : Option Module := do
  let r ← record? ["name", "functions"] j
  return ⟨← required? "name" r, ← required? "functions" r⟩

end KernelForge.Lir
