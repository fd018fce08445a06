import KernelForge.Binary.Decimal
import KernelForge.Error
import KernelForge.Text.Blank

/-!
# Texts of literals

Literals are kept as text until code is generated for them. Blanks around a literal do not count.
An integer is a sign, then decimal digits or `0x` and hexadecimal digits, cut to the width of its
kind. A number may end in one `f`.
-/

namespace KernelForge.Codegen

open Lir (Kind)

def parseBool (value : String) : Except Error Bool :=
  let text := Text.trim value
  if text = "true" ∨ text = "1" then .ok true
  else if text = "false" ∨ text = "0" then .ok false
  else .error (.invalidLiteral text .bool)

/-- The sign and the rest of an integer. -/
def splitSign : List Char → Bool × List Char
  | '-' :: cs => (true, cs)
  | cs => (false, cs)

/-- An unsigned 64-bit integer, decimal or hexadecimal. -/
def magnitude? : List Char → Option Nat
  | '0' :: 'x' :: cs | '0' :: 'X' :: cs => Text.natBelow? 16 (Nat.pow 2 64) cs
  | cs => Text.natBelow? 10 (Nat.pow 2 64) cs

/-- An integer cut to the width of its kind. -/
def parseInt (value : String) (kind : Kind) : Except Error Nat :=
  let text := Text.trimChars value.toList
  let (negative, digits) := splitSign text
  match magnitude? digits with
  | none => .error (.invalidLiteral (String.ofList text) kind)
  | some n => .ok (Binary.mask (Binary.word64 (if negative then -n else n)) kind.bits)

/-- A text without one `f` at its end. -/
def dropSuffix (cs : List Char) : List Char :=
  match cs.reverse with
  | 'f' :: rest | 'F' :: rest => rest.reverse
  | _ => cs

/-- The bits of a number as a double. -/
def parseFloat (value : String) (kind : Kind) : Except Error Nat :=
  let text := Text.trimChars value.toList
  match Binary.Format.double.read? (String.ofList (dropSuffix text)) with
  | some bits => .ok bits
  | none => .error (.invalidLiteral (String.ofList text) kind)

end KernelForge.Codegen
