import KernelForge.Cli.Command

/-!
# The program

Reads the files and the environment that the command line needs, and prints and writes what comes
of it.
-/

namespace KernelForge.Terminal

open Cli

def readFile (path : String) : IO (String × Except ReadFault (List UInt8)) := do
  try
    return (path, .ok (← IO.FS.readBinFile path).data.toList)
  catch _ =>
    return (path, .error .missing)

def surroundings (args : List String) : IO Surroundings := do
  let files ← (parse args).reads.mapM readFile
  let env ← Settings.overrides.mapM fun name => return (name, ← IO.getEnv name)
  let clock ← (List.range 16).mapM fun _ => IO.monoNanosNow
  return {
    read := fun path => (files.lookup path).getD (.error .missing)
    canWrite := fun _ => true
    canStage := fun _ => true
    env := fun name => (env.lookup name).join
    clock := clock }

/-- Write files; whether all could be written. -/
def writeFiles (files : List (String × List UInt8)) : IO Bool := do
  try
    files.forM fun (path, bytes) => IO.FS.writeBinFile path (ByteArray.mk bytes.toArray)
    return true
  catch _ => return false

/-- Write the staged files; whether all could be written. -/
def stageFiles (o : Outcome) : IO Bool := do
  if o.staged.isEmpty then return true
  try
    let temporary := (← IO.getEnv "TMPDIR").getD "/tmp"
    let dir := o.stagingDir.getD (temporary ++ "/kiln-spirv")
    IO.FS.createDirAll dir
    let time ← IO.monoNanosNow
    writeFiles (o.staged.map fun (name, bytes) =>
      (dir ++ "/" ++ Text.natText time ++ "-" ++ name, bytes))
  catch _ => return false

/-- Print what came of the program. -/
def report (o : Outcome) : IO UInt32 := do
  IO.print o.output
  match o.status with
  | .ok => return 0
  | .failed message =>
    IO.eprintln ("Error:   × " ++ message)
    return 1
  | .usage =>
    IO.eprint usageText
    return 2

end KernelForge.Terminal

open KernelForge KernelForge.Cli KernelForge.Terminal

def main (args : List String) : IO UInt32 := do
  let around ← surroundings args
  let o := execute around args
  if !(← stageFiles o) then report (execute { around with canStage := fun _ => false } args)
  else if !(← writeFiles o.written) then
    report (execute { around with canWrite := fun _ => false } args)
  else report o
