import PortLease.Socket
import PortLease.Text.Numeral
import PortLease.Text.Quoted

/-!
Sockets from field lines. The first character of a line says what the rest of it is: `p` a process,
`c` its command, `f` one of its open files, and for that file `P` the protocol, `n` the endpoints and
`T` a piece of TCP information. A file is complete when the next one or the next process begins, or
at the end. One bad line spoils the whole listing.
-/

namespace PortLease.FieldLines

structure Process where
  pid : Nat
  command : Option String := none
  deriving DecidableEq, Repr

structure OpenFile where
  protocol : Option String := none
  name : Option (List Char) := none
  state : Option ConnectionState := none
  deriving DecidableEq, Repr

inductive Stage where
  | start
  | inProcess (process : Process)
  | inFile (process : Process) (file : OpenFile)
  deriving DecidableEq, Repr

inductive Fault where
  | pidNotANumber
  | commandOutsideProcess
  | fileBeforeProcess
  | fieldOutsideFile
  | unexpectedMarker
  | unnamedFile
  | noPort (endpoint : List Char)
  | badPort (endpoint : List Char)
  deriving DecidableEq, Repr

inductive Malformed where
  | atLine (number : Nat) (fault : Fault) (line : List Char)
  | atEnd (fault : Fault)
  deriving DecidableEq, Repr

def Fault.text : Fault → String
  | .pidNotANumber => "process id is not a number"
  | .commandOutsideProcess => "command outside of a process set"
  | .fileBeforeProcess => "file set before any process set"
  | .fieldOutsideFile => "file field outside of a file set"
  | .unexpectedMarker => "unexpected field marker"
  | .unnamedFile => "file set without a name field"
  | .noPort endpoint => s!"endpoint without a port: {String.ofList endpoint}"
  | .badPort endpoint => s!"invalid port in endpoint: {String.ofList endpoint}"

def Malformed.text : Malformed → String
  | .atLine number fault line =>
    s!"line {number}: {fault.text} ({String.ofList (Text.quoted line)})"
  | .atEnd fault => fault.text

def splitArrow : List Char → List Char × Option (List Char)
  | [] => ([], none)
  | '-' :: '>' :: rest => ([], some rest)
  | c :: rest => let (before, after) := splitArrow rest; (c :: before, after)

def splitLastColon : List Char → Option (List Char × List Char)
  | [] => none
  | c :: rest =>
    match splitLastColon rest with
    | some (before, after) => some (c :: before, after)
    | none => if c = ':' then some ([], rest) else none

def OpenFile.complete (process : Process) (file : OpenFile) : Except Fault (Option Socket) :=
  match file.name with
  | none => .error .unnamedFile
  | some name =>
    let (endpoint, remote) := splitArrow name
    match splitLastColon endpoint with
    | none => .error (.noPort endpoint)
    | some (address, port) =>
      if port = ['*'] then .ok none
      else
        match (Text.natBelow? Port.count port).bind Port.ofNat? with
        | none => .error (.badPort endpoint)
        | some localPort => .ok (some {
            pid := process.pid
            command := process.command
            protocol := file.protocol.getD "TCP"
            localAddress := String.ofList address
            localPort
            remote := remote.map String.ofList
            state := file.state })

def Stage.close : Stage → Except Fault (Option Socket)
  | .inFile process file => file.complete process
  | _ => .ok none

def readProcess (value : List Char) : Except Fault Stage :=
  match Text.natBelow? UInt32.size value with
  | some pid => .ok (.inProcess { pid })
  | none => .error .pidNotANumber

def stateOf? : List Char → Option ConnectionState
  | 'S' :: 'T' :: '=' :: name => some (.ofChars name)
  | _ => none

def Stage.step (stage : Stage) (line : List Char) : Except Fault (Option Socket × Stage) :=
  match line with
  | 'p' :: value => do
    let socket ← stage.close
    let next ← readProcess value
    return (socket, next)
  | 'c' :: value =>
    match stage with
    | .inProcess process =>
      .ok (none, .inProcess { process with command := some (String.ofList value) })
    | _ => .error .commandOutsideProcess
  | 'f' :: _ =>
    match stage with
    | .start => .error .fileBeforeProcess
    | .inProcess process => .ok (none, .inFile process {})
    | .inFile process file => (file.complete process).map fun socket => (socket, .inFile process {})
  | marker :: value =>
    if marker = 'P' ∨ marker = 'n' ∨ marker = 'T' then
      match stage with
      | .inFile process file =>
        let file' :=
          if marker = 'P' then { file with protocol := some (String.ofList value) }
          else if marker = 'n' then { file with name := some value }
          else { file with state := (stateOf? value).or file.state }
        .ok (none, .inFile process file')
      | _ => .error .fieldOutsideFile
    else .error .unexpectedMarker
  | [] => .ok (none, stage)

def readFrom (number : Nat) (stage : Stage) : List (List Char) → Except Malformed (List Socket)
  | [] => (stage.close.mapError .atEnd).map Option.toList
  | raw :: lines =>
    let line := Text.trimEnd raw
    match stage.step line with
    | .error fault => .error (.atLine number fault line)
    | .ok (socket, next) => (readFrom (number + 1) next lines).map (socket.toList ++ ·)

def read (lines : List (List Char)) : Except Malformed (List Socket) :=
  readFrom 1 .start lines

end PortLease.FieldLines
