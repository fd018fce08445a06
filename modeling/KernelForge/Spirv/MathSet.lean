import KernelForge.Spirv.Enumerant

/-!
# The extended instruction set

Names of the instructions of the imported set `OpenCL.std`, and the ones with a role in code
generation and on the device.
-/

namespace KernelForge.Spirv

/-- Name under which the extended set is imported. -/
def mathSetName : String := "OpenCL.std"

/-- Instructions of the extended set: number and name. -/
def mathSet : List (Nat × String) :=
  numbered 0 ["acos", "acosh", "acospi", "asin", "asinh", "asinpi", "atan", "atan2", "atanh",
   "atanpi", "atan2pi", "cbrt", "ceil", "copysign", "cos", "cosh", "cospi", "erfc", "erf", "exp",
   "exp2", "exp10", "expm1", "fabs", "fdim", "floor", "fma", "fmax", "fmin", "fmod", "fract",
   "frexp", "hypot", "ilogb", "ldexp", "lgamma", "lgamma_r", "log", "log2", "log10", "log1p",
   "logb", "mad", "maxmag", "minmag", "modf", "nan", "nextafter", "pow", "pown", "powr",
   "remainder", "remquo", "rint", "rootn", "round", "rsqrt", "sin", "sincos", "sinh", "sinpi",
   "sqrt", "tan", "tanh", "tanpi", "tgamma", "trunc", "half_cos", "half_divide", "half_exp",
   "half_exp2", "half_exp10", "half_log", "half_log2", "half_log10", "half_powr", "half_recip",
   "half_rsqrt", "half_sin", "half_sqrt", "half_tan", "native_cos", "native_divide", "native_exp",
   "native_exp2", "native_exp10", "native_log", "native_log2", "native_log10", "native_powr",
   "native_recip", "native_rsqrt", "native_sin", "native_sqrt", "native_tan", "fclamp", "degrees",
   "fmax_common", "fmin_common", "mix", "radians", "step", "smoothstep", "sign", "cross",
   "distance", "length", "normalize", "fast_distance", "fast_length", "fast_normalize"] ++
  numbered 141 ["s_abs", "s_abs_diff", "s_add_sat", "u_add_sat", "s_hadd", "u_hadd", "s_rhadd",
   "u_rhadd", "s_clamp", "u_clamp", "clz", "ctz", "s_mad_hi", "u_mad_sat", "s_mad_sat", "s_max",
   "u_max", "s_min", "u_min", "s_mul_hi", "rotate", "s_sub_sat", "u_sub_sat", "u_upsample",
   "s_upsample", "popcount", "s_mad24", "u_mad24", "s_mul24", "u_mul24", "vloadn", "vstoren",
   "vload_half", "vload_halfn", "vstore_half", "vstore_half_r", "vstore_halfn", "vstore_halfn_r",
   "vloada_halfn", "vstorea_halfn", "vstorea_halfn_r", "shuffle", "shuffle2", "printf", "prefetch",
   "bitselect", "select"] ++ numbered 201 ["u_abs", "u_abs_diff", "u_mul_hi", "u_mad_hi"]

/-- Name of an instruction of the extended set. -/
def mathName? (n : Nat) : Option String :=
  (mathSet.find? fun m => m.1 == n).map Prod.snd

/-- The extended instructions the device carries out. -/
inductive MathOp where
  | sqrt | rsqrt | sin | cos | tan | exp | log | pow | floor | ceil | fma | fabs | fmin | fmax
  | sAbs | sMin | sMax | uMin | uMax | clz | popcount | vloadn | vstoren
deriving DecidableEq, Repr, Inhabited

namespace MathOp

/-- Every extended instruction the device carries out. -/
def all : List MathOp :=
  [.sqrt, .rsqrt, .sin, .cos, .tan, .exp, .log, .pow, .floor, .ceil, .fma, .fabs, .fmin, .fmax,
   .sAbs, .sMin, .sMax, .uMin, .uMax, .clz, .popcount, .vloadn, .vstoren]

/-- Number in the extended set. -/
def code : MathOp → Nat
  | .sqrt => 61 | .rsqrt => 56 | .sin => 57 | .cos => 14 | .tan => 62 | .exp => 19 | .log => 37
  | .pow => 48 | .floor => 25 | .ceil => 12 | .fma => 26 | .fabs => 23 | .fmin => 28 | .fmax => 27
  | .sAbs => 141 | .sMin => 158 | .sMax => 156 | .uMin => 159 | .uMax => 157 | .clz => 151
  | .popcount => 166 | .vloadn => 171 | .vstoren => 172

/-- Name in the extended set. -/
def name (op : MathOp) : String := (mathName? op.code).getD ""

/-- Extended instruction of a number. -/
def ofCode? (n : Nat) : Option MathOp := all.find? fun op => op.code == n

end MathOp

end KernelForge.Spirv
