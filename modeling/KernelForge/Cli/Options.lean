import KernelForge.Text.Numeral

/-!
# The command line

Options stand before or after plain arguments, short ones may be bundled, and a value follows its
option or is attached to it. After `--` every argument is plain. Options of the top level come
before the command, and `config` and `verbose` also after it.
-/

namespace KernelForge.Cli

inductive Key where
  | verbose | config | help | version
  | output | spill | disassemble | noFp64 | noFp16
  | kernel | global | perGroup | arg
deriving DecidableEq, Repr, Inhabited

namespace Key

/-- Name after two dashes. -/
def long : Key → String
  | .verbose => "verbose"
  | .config => "config"
  | .help => "help"
  | .version => "version"
  | .output => "output"
  | .spill => "spill"
  | .disassemble => "disassemble"
  | .noFp64 => "no-fp64"
  | .noFp16 => "no-fp16"
  | .kernel => "kernel"
  | .global => "global"
  | .perGroup => "local"
  | .arg => "arg"

/-- Letter after one dash. -/
def short? : Key → Option Char
  | .verbose => some 'v'
  | .config => some 'c'
  | .help => some 'h'
  | .version => some 'V'
  | .output => some 'o'
  | .kernel => some 'k'
  | .global => some 'g'
  | .perGroup => some 'l'
  | .arg => some 'a'
  | _ => none

/-- Whether a value belongs to the option. -/
def takesValue : Key → Bool
  | .config | .output | .kernel | .global | .perGroup | .arg => true
  | _ => false

/-- Whether the value is a path, which may not be empty. -/
def isPath : Key → Bool
  | .config | .output => true
  | _ => false

def isNumber : Key → Bool
  | .global | .perGroup => true
  | _ => false

/-- Whether the option may be given more than once. -/
def isRepeatable : Key → Bool
  | .arg => true
  | _ => false

end Key

/-! ## Arguments one by one -/

inductive Given where
  | option (key : Key) (value : String)
  | plain (text : String)
deriving DecidableEq, Repr, Inhabited

/-- How a list of arguments ends. -/
inductive Ending where
  /-- All arguments are taken. -/
  | done
  /-- An argument that nothing expects. -/
  | wrong
  | version
  | help
  /-- The first plain argument, with what follows it. -/
  | command (name : String) (rest : List String)
deriving DecidableEq, Repr, Inhabited

/-- Whether an argument can be the value of the option before it. -/
def canFollow (text : String) : Bool := !text.startsWith "-" || text == "-"

/-- Arguments in front of what is read next. -/
def prepend (gs : List Given) (r : List Given × Ending) : List Given × Ending := (gs ++ r.1, r.2)

/-- How a bundle of short options ends. -/
inductive Bundle where
  | complete
  /-- The value is the next argument. -/
  | needs (key : Key)
  | ended (e : Ending)

/-- The value attached to a short option. -/
def attached : List Char → String
  | '=' :: rest => String.ofList rest
  | cs => String.ofList cs

/-- Short options in one argument. -/
def bundle (keys : List Key) : List Char → List Given × Bundle
  | [] => ([], .complete)
  | c :: rest =>
    match keys.find? fun k => k.short? == some c with
    | none => ([], .ended .wrong)
    | some .version => ([], .ended .version)
    | some .help => ([], .ended .help)
    | some k =>
      if k.takesValue then
        if rest.isEmpty then ([], .needs k) else ([.option k (attached rest)], .complete)
      else
        let (gs, b) := bundle keys rest
        (.option k "" :: gs, b)

/-- A long option, after its dashes: its key and the value attached to it. -/
def longOption (keys : List Key) (cs : List Char) : Option (Key × Option String) := do
  let name := String.ofList (cs.takeWhile (· != '='))
  let k ← keys.find? fun k => k.long == name
  match cs.dropWhile (· != '=') with
  | [] => return (k, none)
  | _ :: value => return (k, some (String.ofList value))

/-- The arguments, options being those of `keys`; at the top the first plain argument
ends the list. -/
def scan (keys : List Key) (top : Bool) : List String → List Given × Ending
  | [] => ([], .done)
  | text :: rest =>
    match text.toList with
    | ['-', '-'] => if top && !rest.isEmpty then ([], .wrong) else (rest.map .plain, .done)
    | '-' :: '-' :: cs =>
      match longOption keys cs with
      | none => ([], .wrong)
      | some (.version, none) => ([], .version)
      | some (.help, none) => ([], .help)
      | some (k, value) =>
        if k.takesValue then
          match value, rest with
          | some v, rest => prepend [.option k v] (scan keys top rest)
          | none, v :: rest =>
            if canFollow v then prepend [.option k v] (scan keys top rest) else ([], .wrong)
          | none, [] => ([], .wrong)
        else if value.isNone then prepend [.option k ""] (scan keys top rest)
        else ([], .wrong)
    | '-' :: c :: cs =>
      match bundle keys (c :: cs) with
      | (gs, .complete) => prepend gs (scan keys top rest)
      | (gs, .ended e) => (gs, e)
      | (gs, .needs k) =>
        match rest with
        | v :: rest =>
          if canFollow v then prepend (gs ++ [.option k v]) (scan keys top rest) else (gs, .wrong)
        | [] => (gs, .wrong)
    | _ => if top then ([], .command text rest) else prepend [.plain text] (scan keys top rest)

/-! ## What the arguments ask for -/

def number? (text : String) : Option Nat := do
  let n ← Text.intOfBits? 64 text.toList
  if 0 ≤ n ∧ n < Nat.pow 2 32 then return n.toNat else none

def valuesOf (k : Key) (gs : List Given) : List String :=
  gs.filterMap fun
    | .option k' v => if k' = k then some v else none
    | .plain _ => none

def valueOf? (k : Key) (gs : List Given) : Option String := (valuesOf k gs).head?

def has (k : Key) (gs : List Given) : Bool := !(valuesOf k gs).isEmpty

def plainOnes (gs : List Given) : List String :=
  gs.filterMap fun
    | .plain t => some t
    | .option _ _ => none

/-- Whether the values of an option are acceptable. -/
def acceptable (gs : List Given) (k : Key) : Bool :=
  let vs := valuesOf k gs
  (k.isRepeatable || vs.length ≤ 1) && (!k.isPath || vs.all (· != ""))
    && (!k.isNumber || vs.all fun v => (number? v).isSome)

/-- What the program is asked to do. -/
inductive Command where
  | assemble (input : String) (output : Option String)
      (spill disassemble noFp64 noFp16 : Bool)
  | disasm (input : String)
  | run (input kernel : String) (global perGroup : Nat) (args : List String)
  | info
deriving DecidableEq, Repr, Inhabited

/-- A command line. -/
inductive Request where
  | command (config : Option String) (verbose : Bool) (c : Command)
  | version
  | help
  | usage
deriving DecidableEq, Repr, Inhabited

/-- Files a command line reads. -/
def Request.reads : Request → List String
  | .command config _ c =>
    config.toList ++ match c with
      | .assemble input _ _ _ _ _ => [input]
      | .disasm input => [input]
      | .run input _ _ _ _ => [input]
      | .info => []
  | _ => []

/-- Options before the command. -/
def topKeys : List Key := [.verbose, .config, .help, .version]

/-- Options after any command. -/
def commonKeys : List Key := [.verbose, .config, .help]

def keysOf : String → Option (List Key)
  | "assemble" => some [.output, .spill, .disassemble, .noFp64, .noFp16]
  | "disasm" => some []
  | "run" => some [.kernel, .global, .perGroup, .arg]
  | "info" => some []
  | _ => none

def commandOf? (name : String) (gs : List Given) : Option Command :=
  match name, plainOnes gs with
  | "assemble", [input] =>
    some (.assemble input (valueOf? .output gs) (has .spill gs) (has .disassemble gs)
      (has .noFp64 gs) (has .noFp16 gs))
  | "disasm", [input] => some (.disasm input)
  | "run", [input] => do
    let kernel ← valueOf? .kernel gs
    let global ← number? ((valueOf? .global gs).getD "1")
    let perGroup ← number? ((valueOf? .perGroup gs).getD "1")
    return .run input kernel global perGroup (valuesOf .arg gs)
  | "info", [] => some .info
  | _, _ => none

/-- The request of a command's arguments, `above` being those before the command. -/
def requestOf (above : List Given) (name : String) (rest : List String) : Request :=
  match keysOf name with
  | none => if name = "help" then .help else .usage
  | some own =>
    let keys := own ++ commonKeys
    let (gs, ending) := scan keys false rest
    if keys.all (acceptable gs) && (plainOnes gs).all (· != "") then
      match ending with
      | .help => .help
      | .done =>
        match commandOf? name gs with
        | some c =>
          .command ((valueOf? .config gs).or (valueOf? .config above))
            (has .verbose gs || has .verbose above) c
        | none => .usage
      | _ => .usage
    else .usage

/-- What a command line asks for. -/
def parse (args : List String) : Request :=
  let (above, ending) := scan topKeys true args
  if topKeys.all (acceptable above) then
    match ending with
    | .version => .version
    | .help => .help
    | .command name rest => requestOf above name rest
    | _ => .usage
  else .usage

end KernelForge.Cli
