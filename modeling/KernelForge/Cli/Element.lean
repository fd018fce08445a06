import KernelForge.Host.Argument

/-!
# Kernel arguments as text

An argument is a mark, a colon and a value. Buffers are written as the type of their elements and
the elements, and are printed the same way.
-/

namespace KernelForge.Cli

open Host (Argument)

/-- Types of a buffer's elements. -/
inductive Element where
  | i32 | i64 | f32 | f64
deriving DecidableEq, Repr, Inhabited

namespace Element

def ofName? : String → Option Element
  | "i32" => some .i32
  | "i64" => some .i64
  | "f32" => some .f32
  | "f64" => some .f64
  | _ => none

/-- Name in messages. -/
def title : Element → String
  | .i32 => "I32"
  | .i64 => "I64"
  | .f32 => "F32"
  | .f64 => "F64"

def size : Element → Nat
  | .i32 | .f32 => 4
  | .i64 | .f64 => 8

def bits? (e : Element) (text : String) : Option Nat :=
  match e with
  | .i32 => (Text.intOfBits? 32 text.toList).map Binary.word64
  | .i64 => (Text.intOfBits? 64 text.toList).map Binary.word64
  | .f32 => Binary.Format.single.read? text
  | .f64 => Binary.Format.double.read? text

def encode? (e : Element) (text : String) : Option (List UInt8) :=
  (e.bits? text).map (Binary.bytesLE e.size)

def textOf (e : Element) (bits : Nat) : String :=
  match e with
  | .i32 => Text.intText (Binary.signExtend bits 32)
  | .i64 => Text.intText (Binary.signExtend bits 64)
  | .f32 => Binary.Format.single.plainText bits
  | .f64 => Binary.Format.double.plainText bits

/-- Elements of a size, in order; what is left over is dropped. -/
def cut (size : Nat) : Nat → List UInt8 → List Nat
  | 0, _ => []
  | count + 1, bytes => Binary.natLE (bytes.take size) :: cut size count (bytes.drop size)

/-- The texts of a buffer's elements. -/
def format (e : Element) (bytes : List UInt8) : List String :=
  (cut e.size (bytes.length / e.size) bytes).map e.textOf

end Element

inductive Written where
  | value (a : Argument)
  | buffer (element : Element) (bytes : List UInt8)
  | zeros (element : Element) (count : Nat)
deriving Repr, Inhabited

/-- Why a text is no argument. -/
inductive ArgumentFault where
  | noMark (text : String)
  | invalid (text : String)
  | unknownElement (name : String)
  | notElement (text : String) (element : Element)
deriving DecidableEq, Repr, Inhabited

def ArgumentFault.message : ArgumentFault → String
  | .noMark text => s!"argument `{text}` has no type prefix"
  | .invalid text => s!"invalid argument `{text}`"
  | .unknownElement name => s!"unknown buffer element type `{name}`"
  | .notElement text e => s!"`{text}` is not a valid {e.title}"

/-- The text before the first colon and the text after it. -/
def splitColon? (cs : List Char) : Option (List Char × List Char) :=
  match cs.dropWhile (· != ':') with
  | _ :: rest => some (cs.takeWhile (· != ':'), rest)
  | [] => none

/-- The parts of a text between commas. -/
def splitCommas : List Char → List (List Char)
  | [] => [[]]
  | c :: rest =>
    if c = ',' then [] :: splitCommas rest
    else
      match splitCommas rest with
      | part :: parts => (c :: part) :: parts
      | [] => [[c]]

/-- The texts of a buffer's elements; blanks around them and empty ones do not count. -/
def elementTexts (cs : List Char) : List String :=
  ((splitCommas cs).map fun part => String.ofList (Text.trimChars part)).filter (· != "")

def bufferBytes (e : Element) : List String → Except ArgumentFault (List UInt8)
  | [] => .ok []
  | text :: rest =>
    match e.encode? text with
    | none => .error (.notElement text e)
    | some bytes => (bufferBytes e rest).map (bytes ++ ·)

/-- The value of a mark and a text. -/
def scalar? (mark : String) (cs : List Char) : Option Argument :=
  match mark with
  | "i" => (Text.intOfBits? 64 cs).map fun n => .int (Int64.ofInt n)
  | "f" => (Binary.Format.single.read? (String.ofList cs)).map .f32
  | "d" => (Binary.Format.double.read? (String.ofList cs)).map .f64
  | "b" =>
    match String.ofList cs with
    | "true" => some (.bool true)
    | "false" => some (.bool false)
    | _ => none
  | _ => none

def parseArgument (text : String) : Except ArgumentFault Written := do
  match splitColon? text.toList with
  | none => throw (.noMark text)
  | some (mark, rest) =>
    let mark := String.ofList mark
    if mark = "buf" ∨ mark = "zeros" then
      match splitColon? rest with
      | none => throw (.invalid text)
      | some (name, values) =>
        match Element.ofName? (String.ofList name) with
        | none => throw (.unknownElement (String.ofList name))
        | some e =>
          if mark = "buf" then return .buffer e (← bufferBytes e (elementTexts values))
          else
            match Text.natBelow? 10 (Nat.pow 2 64) values with
            | some count => return .zeros e count
            | none => throw (.invalid text)
    else
      match scalar? mark rest with
      | some a => return .value a
      | none => throw (.invalid text)

end KernelForge.Cli
