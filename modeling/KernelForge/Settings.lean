import KernelForge.Text.Blank
import KernelForge.Text.Numeral

/-!
# Settings

Switches of code generation and of the runtime, their defaults, and the environment variables that
override them.
-/

namespace KernelForge

/-- Switches of code generation. -/
structure CodegenSettings where
  /-- Keep values in registers; otherwise every value lives in a slot of its function. -/
  optimizeLoadStore : Bool := true
  /-- Lead all returns of a void function through one block. -/
  returnLabel : Bool := false
  /-- Name functions, parameters, slots and labels. -/
  debugNames : Bool := true
deriving DecidableEq, Repr, Inhabited

structure RuntimeSettings where
  /-- Event slots of each plan and device. -/
  eventWindow : Nat := 1024
  /-- Start over at the end of the event window. -/
  circularEvents : Bool := true
  /-- Write each binary to the staging directory before it is installed. -/
  stageToDisk : Bool := false
  /-- The staging directory, if it is not the default one. -/
  stagingDir : Option String := none
deriving DecidableEq, Repr, Inhabited

structure Settings where
  codegen : CodegenSettings := {}
  runtime : RuntimeSettings := {}
deriving DecidableEq, Repr, Inhabited

namespace Settings

/-- The truth value of a switch in the environment; blanks around it and its case do not count. -/
def flag? (text : String) : Option Bool :=
  let word := String.ofList ((Text.trimChars text.toList).map Char.toLower)
  if word ∈ ["1", "true", "yes", "on"] then some true
  else if word ∈ ["0", "false", "no", "off"] then some false
  else none

/-- Environment variables that matter. -/
def overrides : List String :=
  ["KILN_OPTIMIZE_LOAD_STORE", "KILN_RETURN_LABEL", "KILN_DEBUG_NAMES", "KILN_EVENT_WINDOW",
    "KILN_CIRCULAR_EVENTS", "KILN_STAGE_TO_DISK", "KILN_STAGING_DIR"]

/-- Settings with the environment's values; a value that cannot be read is ignored. -/
def override (s : Settings) (lookup : String → Option String) : Settings :=
  let flag (name : String) (fallback : Bool) := ((lookup name).bind flag?).getD fallback
  { codegen :=
      { optimizeLoadStore := flag "KILN_OPTIMIZE_LOAD_STORE" s.codegen.optimizeLoadStore
        returnLabel := flag "KILN_RETURN_LABEL" s.codegen.returnLabel
        debugNames := flag "KILN_DEBUG_NAMES" s.codegen.debugNames }
    runtime :=
      { eventWindow :=
          ((lookup "KILN_EVENT_WINDOW").bind fun v =>
            Text.natBelow? 10 (Nat.pow 2 64) v.toList).getD
            s.runtime.eventWindow
        circularEvents := flag "KILN_CIRCULAR_EVENTS" s.runtime.circularEvents
        stageToDisk := flag "KILN_STAGE_TO_DISK" s.runtime.stageToDisk
        stagingDir := (lookup "KILN_STAGING_DIR").or s.runtime.stagingDir } }

end Settings

end KernelForge
