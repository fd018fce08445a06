/-!
# What a device can compute with

The precisions beyond 32-bit floating point that a device may lack.
-/

namespace KernelForge

/-- Precisions of a device. -/
structure Target where
  fp64 : Bool := true
  fp16 : Bool := true
deriving DecidableEq, Repr, Inhabited

end KernelForge
