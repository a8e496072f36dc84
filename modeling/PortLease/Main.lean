import PortLease.CommandLine.Run

/-!
The program on a real system. It reads files and one environment variable and starts no other program,
so the tool for the port table counts as not installed; a port that is held stays so until the input
ends.
-/

namespace PortLease.CommandLine

def readFile (path : String) : IO FileBytes := do
  try
    let bytes ← IO.FS.readBinFile path
    return .ok bytes.toList
  catch
    | .noFileOrDirectory .. => return .missing
    | e => return .error (toString e)

def logText (level : Level) (log : List LogRecord) : String :=
  String.join ((log.filter fun r => r.level.rank ≤ level.rank).map fun r =>
    let fields := r.fields.map fun (name, value) => s!" {name}={value}"
    s!"{r.level.name} {r.message}" ++ String.join fields ++ "\n")

def Request.settingsFile? : Request → Option String
  | .run i => i.settingsFile
  | _ => none

def Request.logLevel : Request → Level
  | .run i => if i.verbose then .debug else .warn
  | _ => .warn

def Request.holds : Request → Bool
  | .run ⟨_, _, .reserve _ hold⟩ => hold
  | _ => false

def readEnvironment (request : Request) : IO Surroundings := do
  let file ← match request.settingsFile? with
    | some path => readFile path
    | none => pure .missing
  let override ← IO.getEnv Settings.environmentVariable
  let systemRange ← readFile Ephemeral.procPath
  let colored := (← IO.getEnv "CLICOLOR_FORCE").isSome && (← IO.getEnv "NO_COLOR").isNone
  let seed ← IO.rand 0 64511
  return {
    files := fun _ => file
    override := override.map fun text => text.toUTF8.toList
    systemRange, colored
    installed := []
    scanStart := fun n => Fin.ofNat 65536 (1024 + (seed + n * 40503) % 64512) }

partial def waitForEnd (input : IO.FS.Stream) : IO Unit := do
  if (← input.getLine).isEmpty then return
  waitForEnd input

end PortLease.CommandLine

open PortLease.CommandLine in
def main (args : List String) : IO UInt32 := do
  let request := Request.ofArguments args
  let outcome := request.outcome (← readEnvironment request)
  (← IO.getStderr).putStr (logText request.logLevel outcome.log)
  (← IO.getStdout).putStr outcome.stdout
  (← IO.getStdout).flush
  (← IO.getStderr).putStr outcome.stderr
  if outcome.exitCode = 0 && request.holds then
    waitForEnd (← IO.getStdin)
  return UInt32.ofNat outcome.exitCode
