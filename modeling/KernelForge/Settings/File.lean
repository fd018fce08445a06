import KernelForge.Settings
import KernelForge.Toml.Parser

/-!
# Settings from a file

A settings file is a TOML document with the tables `codegen` and `runtime`. Everything may be left
out, and what is not known is ignored.
-/

namespace KernelForge.Settings

open Toml (Value)
open Toml.Value (bool? defaulted?)

def codegen? (v : Value) : Option CodegenSettings := do
  let d : CodegenSettings := {}
  let fields ← v.record? ["optimize_load_store", "return_label", "debug_names"]
  return {
    optimizeLoadStore :=
      ← defaulted? "optimize_load_store" d.optimizeLoadStore bool? fields
    returnLabel := ← defaulted? "return_label" d.returnLabel bool? fields
    debugNames := ← defaulted? "debug_names" d.debugNames bool? fields }

def runtime? (v : Value) : Option RuntimeSettings := do
  let d : RuntimeSettings := {}
  let fields ← v.record? ["event_window", "circular_events", "stage_to_disk", "staging_dir"]
  return {
    eventWindow := ← defaulted? "event_window" d.eventWindow Value.nat? fields
    circularEvents := ← defaulted? "circular_events" d.circularEvents bool? fields
    stageToDisk := ← defaulted? "stage_to_disk" d.stageToDisk bool? fields
    stagingDir := ← defaulted? "staging_dir" none (fun v => v.text?.map some) fields }

/-- The settings of a file's text. -/
def parse? (text : String) : Option Settings := do
  let v ← Toml.parse? text
  let fields ← v.record? ["codegen", "runtime"]
  return {
    codegen := ← defaulted? "codegen" {} codegen? fields
    runtime := ← defaulted? "runtime" {} runtime? fields }

end KernelForge.Settings
