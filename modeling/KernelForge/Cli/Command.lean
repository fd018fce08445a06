import KernelForge.Cli.Directory
import KernelForge.Cli.Element
import KernelForge.Cli.Options
import KernelForge.Host.Context
import KernelForge.Json.Parser
import KernelForge.Lir.Json
import KernelForge.Settings.File

/-!
# Commands

What each command reads, prints and writes. A command that fails keeps what it has printed and
written.
-/

namespace KernelForge.Cli

open Host (Control Context Argument Buffer)
open Text (natText)

structure Surroundings where
  read : String → Except ReadFault (List UInt8)
  canWrite : String → Bool
  /-- Whether the staging directory can be used; the default one has no path. -/
  canStage : Option String → Bool
  env : String → Option String
  /-- Readings of the host's clock. -/
  clock : List Nat := []

/-- What a command leaves behind. -/
structure Record where
  /-- Lines printed, last first. -/
  printed : List String := []
  written : List (String × List UInt8) := []
  context : Context := {}
deriving Inhabited

/-- Commands; they fail with a message. -/
abbrev Shell := ReaderT Surroundings (EStateM String Record)

namespace Shell

def print (line : String) : Shell Unit := modify fun r => { r with printed := line :: r.printed }

def orFail {α ε : Type} (message : ε → String) : Except ε α → Shell α
  | .ok a => return a
  | .error e => throw (message e)

/-- Run an action on the device. -/
def control {α : Type} (action : Control α) : Shell α := do
  let r ← get
  match action r.context with
  | .ok a context =>
    set { r with context }
    return a
  | .error e context =>
    set { r with context }
    throw e.message

def readText (path : String) : Shell (Except ReadFault String) := do
  match (← read).read path with
  | .error fault => return .error fault
  | .ok bytes =>
    match String.fromUTF8? (ByteArray.mk bytes.toArray) with
    | some text => return .ok text
    | none => return .error .notText

/-- The settings of a file and the environment. -/
def settings (config : Option String) : Shell Settings := do
  let env := (← read).env
  match config with
  | none => return Settings.override {} env
  | some path =>
    let text ← orFail (fun f => "failed to read " ++ path ++ ": " ++ ReadFault.message f)
      (← readText path)
    match Settings.parse? text with
    | some s => return s.override env
    | none => throw "invalid configuration"

def loadModule (path : String) : Shell Lir.Module := do
  let text ← orFail (fun _ => "failed to read " ++ path) (← readText path)
  match (Json.parse? text).bind Lir.Module.ofJson? with
  | some m => return m
  | none => throw (path ++ " is not a LIR module")

/-! ## Assembling -/

/-- The last name of a path, before and after its extension. -/
def splitExtension (name : List Char) : List Char × List Char :=
  let after := name.reverse.takeWhile (· != '.')
  let before := (name.reverse.drop (after.length + 1)).reverse
  if after.length = name.length ∨ before.isEmpty ∨ name = ['.', '.'] then (name, [])
  else (before, after.reverse)

/-- A path with another extension; a path without a last name stays as it is. -/
def withExtension (path extension : String) : String :=
  let cs := path.toList
  let name := (cs.reverse.takeWhile (· != '/')).reverse
  let front := cs.take (cs.length - name.length)
  if name.isEmpty ∨ name = ['.'] ∨ name = ['.', '.'] then path
  else String.ofList (front ++ (splitExtension name).1) ++ "." ++ extension

/-- Assemble a module into a file. -/
def assemble (s : Settings) (input : String) (output : Option String)
    (spill disassemble noFp64 noFp16 : Bool) : Shell Unit := do
  let m ← loadModule input
  let codegen := { s.codegen with optimizeLoadStore := s.codegen.optimizeLoadStore && !spill }
  let binary ← orFail Error.message (Codegen.assemble m ⟨!noFp64, !noFp16⟩ codegen)
  let path := output.getD (withExtension input "spv")
  if !(← read).canWrite path then throw ("failed to write " ++ path)
  modify fun r => { r with written := r.written ++ [(path, binary.bytes)] }
  print ("Assembled " ++ input ++ " (" ++ natText binary.words.length ++ " words, entry points: "
    ++ ", ".intercalate binary.entryPoints ++ ") -> " ++ path)
  if disassemble then print (← orFail Error.message (Codegen.listing binary.words))

/-- Print the listing of a binary. -/
def disasm (input : String) : Shell Unit := do
  let bytes ← orFail (fun _ => "failed to read " ++ input) ((← read).read input)
  let words ← orFail Error.message (Codegen.wordsOf bytes)
  print (← orFail Error.message (Codegen.listing words))

/-! ## Running -/

/-- The plan that a command uses, on device 0 and thread 0. -/
def plan : Nat := 0

/-- Allocate a buffer for an argument and fill it. -/
def place (e : Element) (size : Nat) (bytes : Unit → List UInt8) :
    Shell (Argument × Option (Element × Buffer)) := do
  let b ← control (Control.upload plan 0 0 size bytes)
  return (.buffer b.address, some (e, b))

/-- Make an argument ready: its value, and its buffer if it is one. -/
def prepare (text : String) : Shell (Argument × Option (Element × Buffer)) := do
  match ← orFail ArgumentFault.message (parseArgument text) with
  | .value a => return (a, none)
  | .buffer e bytes => place e bytes.length fun _ => bytes
  | .zeros e count =>
    let size ← orFail Device.Fault.message (Device.wordOr .product (count * e.size))
    place e size fun _ => List.replicate size 0

def printBuffer (position : Nat) (e : Element) (b : Buffer) : Shell Unit := do
  let bytes ← control (Control.read plan 0 b 0 b.size)
  print ("  arg " ++ natText position ++ ": [" ++ ", ".intercalate (e.format bytes) ++ "]")

def run (s : Settings) (input kernel : String) (global perGroup : Nat) (args : List String) :
    Shell Unit := do
  let m ← loadModule input
  let around ← read
  let device := { Device.Simulator.new {} with readings := around.clock }
  modify fun r =>
    { r with context :=
        { settings := s.runtime, stagingOpen := around.canStage s.runtime.stagingDir
          devices := #[device] } }
  let info ← control (Control.deviceInfo 0)
  let binary ← orFail Error.message (Codegen.assemble m info.target s.codegen)
  if kernel ∉ binary.entryPoints then
    throw ("`" ++ kernel ++ "` is not a kernel of " ++ m.name ++ " (kernels: "
      ++ ", ".intercalate binary.entryPoints ++ ")")
  let _ ← control (Control.installModule plan 0 m.name binary)
  let ready ← args.mapM prepare
  let range := Device.Range.line global perGroup
  let event ← control
    (Control.launch plan 0 0 (Host.cacheKey m.name kernel) range (ready.map Prod.fst))
  control (Control.wait plan 0 0 [event])
  let timers ← control (Control.timers plan 0 event)
  let total ← orFail Device.Fault.message range.total
  print ("Ran " ++ kernel ++ " over " ++ natText total ++ " work-items ("
    ++ natText (timers.elapsed?.getD 0) ++ " ns)")
  ready.zipIdx.forM fun
    | ((_, some (e, b)), position) => printBuffer position e b
    | _ => return ()
  control (Control.reset plan)

/-! ## The program -/

def version : String := "0.4.0"

/-- Describe the program and its devices. -/
def info : Shell Unit := do
  print "Kiln SPIR-V assembler and device runtime"
  print ("Version: " ++ version)
  print ""
  print "Devices:"
  print ("  0: " ++ ({} : Device.Info).text)

def perform (config : Option String) (c : Command) : Shell Unit := do
  let s ← settings config
  match c with
  | .assemble input output spill disassemble noFp64 noFp16 =>
    assemble s input output spill disassemble noFp64 noFp16
  | .disasm input => disasm input
  | .run input kernel global perGroup args => run s input kernel global perGroup args
  | .info => info

end Shell

/-- How the program ends. -/
inductive Status where
  | ok
  | failed (message : String)
  | usage
deriving DecidableEq, Repr, Inhabited

/-- What the program leaves behind. -/
structure Outcome where
  status : Status
  output : String := ""
  written : List (String × List UInt8) := []
  /-- The staging directory, if it is not the default one. -/
  stagingDir : Option String := none
  /-- Files of the staging directory, without the time in front of their names. -/
  staged : List (String × List UInt8) := []
deriving Inhabited

/-- What a command leaves behind, when the program ends in a way. -/
def Record.outcome (r : Record) (status : Status) : Outcome where
  status := status
  output := String.join (r.printed.reverse.map (· ++ "\n"))
  written := r.written
  stagingDir := r.context.settings.stagingDir
  staged := r.context.staged

/-- How to call the program. -/
def usageText : String :=
  "SPIR-V kernel assembler and device runtime\n\nUsage: kiln [OPTIONS] <COMMAND>\n"

/-- What the program does with its arguments. -/
def execute (around : Surroundings) (args : List String) : Outcome :=
  match parse args with
  | .usage => { status := .usage }
  | .version => { status := .ok, output := "kiln " ++ Shell.version ++ "\n" }
  | .help => { status := .ok, output := usageText }
  | .command config _ c =>
    match Shell.perform config c around {} with
    | .ok () r => r.outcome .ok
    | .error message r => r.outcome (.failed message)

end KernelForge.Cli
