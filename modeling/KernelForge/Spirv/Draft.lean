import KernelForge.Spirv.Module

/-!
# Modules being written

A draft is a module together with the function and the block that are still open and the next
unused id. An instruction has one place: its section, the open block, or the end of what is open.
Putting it where nothing is open for it is a structure fault.
-/

namespace KernelForge.Spirv

/-- Why an instruction has no place. -/
inductive StructureFault where
  | nestedFunction | unclosedFunction | mismatchedFunctionEnd | detachedFunctionParameter
  | detachedBlock | nestedBlock | unclosedBlock | mismatchedTerminator
  | detachedInstruction (opcode : Opcode)
deriving DecidableEq, Repr, Inhabited

namespace StructureFault

def name : StructureFault → String
  | .nestedFunction => "NestedFunction"
  | .unclosedFunction => "UnclosedFunction"
  | .mismatchedFunctionEnd => "MismatchedFunctionEnd"
  | .detachedFunctionParameter => "DetachedFunctionParameter"
  | .detachedBlock => "DetachedBlock"
  | .nestedBlock => "NestedBlock"
  | .unclosedBlock => "UnclosedBlock"
  | .mismatchedTerminator => "MismatchedTerminator"
  | .detachedInstruction _ => "DetachedInstruction"

/-- What a fault says to someone who writes a module. -/
def message : StructureFault → String
  | .nestedFunction => "found nested function"
  | .unclosedFunction => "found unclosed function"
  | .mismatchedFunctionEnd => "found mismatched OpFunctionEnd"
  | .detachedFunctionParameter => "found function OpFunctionParameter not inside function"
  | .detachedBlock => "found block not inside function"
  | .nestedBlock => "found nested block"
  | .unclosedBlock => "found block without terminator"
  | .mismatchedTerminator => "found mismatched terminator"
  | .detachedInstruction op => s!"found instruction `\"{op.mnemonic}\"` not inside block"

end StructureFault

/-- A module being written. -/
structure Draft where
  module : Module := {}
  /-- The next unused id. -/
  next : Id := 1
  /-- The open function, without its open block. -/
  function : Option Function := none
  block : Option Block := none
deriving DecidableEq, Repr, Inhabited

/-- Opcodes that end a block. -/
def Opcode.isTerminator : Opcode → Bool
  | .branch | .branchConditional | .switch | .kill | .returnVoid | .returnValue
      | .unreachable => true
  | _ => false

def Opcode.isDeclaration : Opcode → Bool
  | .typeVoid | .typeBool | .typeInt | .typeFloat | .typeVector | .typeArray | .typeStruct
  | .typePointer | .typeFunction | .constantTrue | .constantFalse | .constant
  | .constantComposite | .constantNull | .specConstant => true
  | _ => false

namespace Draft

def fresh (d : Draft) : Id × Draft := (d.next, { d with next := d.next + 1 })

def onModule (d : Draft) (f : Module → Module) : Draft := { d with module := f d.module }

/-- Put an instruction among the types, constants and module variables. -/
def declare (d : Draft) (i : Instruction) : Draft :=
  d.onModule fun m => { m with globals := m.globals ++ [i] }

/-- Put an instruction at the end of the open block. -/
def append (d : Draft) (i : Instruction) : Except StructureFault Draft :=
  match d.block with
  | none => .error (.detachedInstruction i.opcode)
  | some b => .ok { d with block := some { b with body := b.body ++ [i] } }

def openFunction (d : Draft) (i : Instruction) : Except StructureFault Draft :=
  match d.function with
  | some _ => .error .nestedFunction
  | none => .ok { d with function := some ⟨i, [], []⟩ }

def addParam (d : Draft) (i : Instruction) : Except StructureFault Draft :=
  match d.function with
  | none => .error .detachedFunctionParameter
  | some f => .ok { d with function := some { f with params := f.params ++ [i] } }

def openBlock (d : Draft) (i : Instruction) : Except StructureFault Draft :=
  match d.function, d.block with
  | none, _ => .error .detachedBlock
  | some _, some _ => .error .nestedBlock
  | some _, none => .ok { d with block := some ⟨i, []⟩ }

def terminate (d : Draft) (i : Instruction) : Except StructureFault Draft :=
  match d.function, d.block with
  | some f, some b =>
    .ok { d with
      function := some { f with blocks := f.blocks ++ [{ b with body := b.body ++ [i] }] }
      block := none }
  | _, _ => .error .mismatchedTerminator

def closeFunction (d : Draft) : Except StructureFault Draft :=
  match d.function, d.block with
  | none, _ => .error .mismatchedFunctionEnd
  | some _, some _ => .error .unclosedBlock
  | some f, none =>
    .ok { d.onModule (fun m => { m with functions := m.functions ++ [f] }) with function := none }

/-- Put an instruction where it belongs. -/
def place (d : Draft) (i : Instruction) : Except StructureFault Draft :=
  match i.opcode with
  | .capability => .ok (d.onModule fun m => { m with capabilities := m.capabilities ++ [i] })
  | .extInstImport => .ok (d.onModule fun m => { m with imports := m.imports ++ [i] })
  | .memoryModel => .ok (d.onModule fun m => { m with memoryModel := some i })
  | .entryPoint => .ok (d.onModule fun m => { m with entryPoints := m.entryPoints ++ [i] })
  | .executionMode => .ok (d.onModule fun m => { m with executionModes := m.executionModes ++ [i] })
  | .name => .ok (d.onModule fun m => { m with names := m.names ++ [i] })
  | .decorate => .ok (d.onModule fun m => { m with annotations := m.annotations ++ [i] })
  | .line => if d.block.isSome then d.append i else .ok (d.declare i)
  | .variableDecl | .undef => if d.function.isSome then d.append i else .ok (d.declare i)
  | .function => d.openFunction i
  | .functionEnd => d.closeFunction
  | .functionParameter => d.addParam i
  | .label => d.openBlock i
  | op =>
    if op.isDeclaration then .ok (d.declare i)
    else if op.isTerminator then d.terminate i
    else d.append i

/-- The result of the first declaration with an opcode and operands. -/
def declared? (d : Draft) (op : Opcode) (operands : List Operand) : Option Id :=
  (d.module.globals.find? fun i => i.opcode == op && i.operands == operands).bind Instruction.result

/-- The id of a type; a type is declared once. -/
def declareType (d : Draft) (op : Opcode) (operands : List Operand) : Id × Draft :=
  match d.declared? op operands with
  | some id => (id, d)
  | none => (d.next, { d.declare ⟨op, none, some d.next, operands⟩ with next := d.next + 1 })

/-- A new declaration of a constant or module variable. -/
def declareValue (d : Draft) (op : Opcode) (type : Id) (operands : List Operand) : Id × Draft :=
  (d.next, { d.declare ⟨op, some type, some d.next, operands⟩ with next := d.next + 1 })

/-- The module, whose bound is the next unused id. -/
def finish (d : Draft) : Module := { d.module with bound := d.next }

end Draft

end KernelForge.Spirv
