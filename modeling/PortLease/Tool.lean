import PortLease.Error
import PortLease.Text.Blank
import PortLease.Text.Line
import PortLease.Text.Utf8

namespace PortLease

inductive ExitStatus where
  | exited (code : Nat)
  | signalled
  deriving DecidableEq, Repr

structure ToolReply where
  status : ExitStatus
  stdout : List UInt8
  stderr : List UInt8
  deriving DecidableEq, Repr

inductive LaunchFault where
  | notFound
  | denied
  | nulByte
  | failed (detail : String)
  deriving DecidableEq, Repr

abbrev Host := String → List String → Except LaunchFault ToolReply

structure ToolOutput where
  exitCode : Option Nat
  stdout : List (List Char)
  stderr : List (List Char)
  deriving DecidableEq, Repr

def LaunchFault.toError (program : String) : LaunchFault → PortError
  | .notFound => .toolNotFound s!"{program} is not on the search path"
  | .denied => .io "Permission denied (os error 13)"
  | .nulByte => .io "nul byte found in provided data"
  | .failed detail => .io detail

namespace ToolOutput

def succeeded (o : ToolOutput) : Bool := o.exitCode == some 0

def lines (o : ToolOutput) : List (List Char) := o.stdout ++ o.stderr

def splitLines (bytes : List UInt8) : List (List Char) :=
  (Text.lines (Text.Utf8.decodeLossy bytes)).map (Text.dropEndWhile (· == '\r'))

def ofReply (r : ToolReply) : ToolOutput where
  exitCode := match r.status with
    | .exited code => some code
    | .signalled => none
  stdout := splitLines r.stdout
  stderr := splitLines r.stderr

end ToolOutput

def Host.run (host : Host) (program : String) (args : List String) : Except PortError ToolOutput :=
  match host program args with
  | .ok reply => .ok (.ofReply reply)
  | .error fault => .error (fault.toError program)

inductive Installed where
  | tool (reply : ToolReply)
  | notExecutable
  deriving DecidableEq, Repr

def namesDirectory (program : String) : Bool :=
  program != "" && (program.splitOn "/").all fun step => step == "" || step == "." || step == ".."

def Host.ofInstalled (installed : List (String × Installed)) : Host := fun program args =>
  if (program :: args).any (·.contains '\x00') then .error .nulByte
  else if namesDirectory program then .error .denied
  else
    match installed.lookup program with
    | some (.tool reply) => .ok reply
    | some .notExecutable => .error .denied
    | none => .error .notFound

end PortLease
