import PortLease.Log
import PortLease.Socket.FieldLines
import PortLease.Tool

namespace PortLease

structure TableAnswer where
  sockets : Except PortError (List Socket)
  log : List LogRecord := []

structure PortTable where
  query : Option Port → TableAnswer
  conclusive : Bool := true

namespace PortTable

def none : PortTable where
  query _ := { sockets := .ok [] }
  conclusive := false

def selector : Option Port → String
  | .none => "-iTCP"
  | some port => s!"-iTCP:{port.val}"

def arguments (port : Option Port) : List String :=
  ["-n", "-P", "-w", selector port, "-F", "pcfPnT", "-Ts"]

def isBlankLine (line : List Char) : Bool := line.all Text.isBlank

def foundNothing (output : ToolOutput) : Bool :=
  output.exitCode == some 1 && output.lines.all isBlankLine

def exitText (program selector : String) (output : ToolOutput) : String :=
  let code := match output.exitCode with
    | some code => toString code
    | .none => "signal"
  let complaint := String.intercalate " | " (output.stderr.map String.ofList)
  s!"{program} {selector} exited with {code}: {complaint}"

def ofOutput (program selector : String) (output : ToolOutput) : TableAnswer :=
  if output.succeeded then
    match FieldLines.read output.stdout with
    | .error malformed => { sockets := .error (.malformedOutput malformed.text) }
    | .ok sockets =>
      { sockets := .ok sockets, log := [.tableQueried selector sockets.length] }
  else if foundNothing output then { sockets := .ok [] }
  else { sockets := .error (.toolFailed (exitText program selector output)) }

/-- The tool lists a socket by either endpoint; only its local port counts. -/
def onPort : Option Port → List Socket → List Socket
  | .none, sockets => sockets
  | some port, sockets => sockets.filter (·.localPort == port)

def ofTool (host : Host) (program : String) : PortTable where
  query port :=
    match host.run program (arguments port) with
    | .error error => { sockets := .error error }
    | .ok output =>
      let answer := ofOutput program (selector port) output
      { answer with sockets := answer.sockets.map (onPort port) }

end PortTable

end PortLease
