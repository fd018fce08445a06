import KernelForge.Codegen.Assembler

/-!
# Kernel arguments

Each argument of a kernel is one 64-bit slot of its parameter frame.
-/

namespace KernelForge.Host

/-- A kernel argument; numbers are given by their bits. -/
inductive Argument where
  /-- The address of a buffer. -/
  | buffer (address : Nat)
  | int (n : Int64)
  | f64 (bits : Nat)
  | f32 (bits : Nat)
  /-- A 16-bit number, given as a 32-bit one. -/
  | f16 (bits : Nat)
  | bool (b : Bool)
deriving DecidableEq, Repr, Inhabited

def Argument.slot : Argument → Nat
  | .buffer address => address
  | .int n => n.toUInt64.toNat
  | .f64 bits => bits
  | .f32 bits => bits
  | .f16 bits => Binary.convert .single .half bits
  | .bool b => if b then 1 else 0

/-- The bytes of a parameter frame: reserved slots of zeros, then the arguments. -/
def frameBytes (args : List Argument) : List UInt8 :=
  List.replicate (Codegen.reservedSlots * 8) 0 ++ args.flatMap fun a => Binary.bytesLE 8 a.slot

end KernelForge.Host
