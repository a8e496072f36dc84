import PortLease.Settings
import PortLease.Socket
import PortLease.Yaml.Writer

namespace PortLease

def Socket.outline (s : Socket) : List (String × Yaml.Outline) := [
  ("pid", .nat s.pid),
  ("command", .optional text s.command),
  ("protocol", text s.protocol),
  ("localAddress", text s.localAddress),
  ("localPort", .nat s.localPort.val),
  ("remote", .optional text s.remote),
  ("state", .optional text s.stateText)]
where
  text (s : String) : Yaml.Outline := .text s.toList

namespace CommandLine

inductive Color where
  | red
  | green
  | yellow
  deriving DecidableEq, Repr

def Color.code : Color → String
  | .red => "31"
  | .green => "32"
  | .yellow => "33"

def paint (colored : Bool) (color : Color) (text : String) : String :=
  if colored then "\x1b[" ++ color.code ++ "m" ++ text ++ "\x1b[0m" else text

def rangeReport (colored : Bool) (policy : Policy) : String :=
  let r := policy.excluded
  let check := if policy.checkRelease then paint colored .green "enabled"
    else paint colored .yellow "disabled"
  s!"Ephemeral range:  {r.text} ({r.size} ports)\n" ++
    s!"Reservable ports: {policy.capacity}\n" ++
    s!"Release check:    {check}\n"

def checkReport (colored : Bool) (number : Int) (leasable : Bool) : String :=
  if leasable then paint colored .green "✓" ++ s!" Port {number} is reservable\n"
  else paint colored .red "✗" ++ s!" Port {number} is not reservable\n"

def padTo (width : Nat) (text : String) : String :=
  text ++ String.ofList (List.replicate (width - text.length) ' ')

def tableRow (pid command protocol address port state : String) : String :=
  String.intercalate " " [padTo 8 pid, padTo 16 command, padTo 6 protocol, padTo 24 address,
    padTo 8 port, padTo 12 state] ++ "\n"

def socketRow (colored : Bool) (s : Socket) : String :=
  let state := s.stateText.getD "-"
  tableRow (toString s.pid) (s.command.getD "-") s.protocol s.localAddress
    (toString s.localPort.val) (if s.isListening then paint colored .green state else state)

def socketTable (colored : Bool) (sockets : List Socket) : String :=
  if sockets.isEmpty then "No busy ports found.\n"
  else
    "\n" ++ tableRow "PID" "COMMAND" "PROTO" "LOCAL" "PORT" "STATE" ++
      String.ofList (List.replicate 80 '-') ++ "\n" ++
      String.join (sockets.map (socketRow colored))

inductive Format where
  | table
  | json
  | yaml
  deriving DecidableEq, Repr

def Format.ofName? : String → Option Format
  | "table" => some .table
  | "json" => some .json
  | "yaml" => some .yaml
  | _ => none

def socketReport (colored : Bool) (sockets : List Socket) : Format → String
  | .table => socketTable colored sockets
  | .json => (Json.array (sockets.map Socket.toJson)).prettyText ++ "\n"
  | .yaml => String.ofList (Yaml.Outline.listText (sockets.map Socket.outline)) ++ "\n"

def causeText (first later : String) (cause : String) : String :=
  first ++ String.intercalate ("\n" ++ later) (cause.splitOn "\n")

def causesText : List String → String
  | [] => ""
  | [cause] => "\n\nCaused by:\n" ++ causeText "    " "    " cause
  | causes =>
    "\n\nCaused by:" ++ String.join (causes.zipIdx.map fun (cause, n) =>
      "\n" ++ causeText (s!"    {n}: ") "       " cause)

def failureReport (message : String) (causes : List String) : String :=
  "Error: " ++ message ++ causesText causes ++ "\n"

end CommandLine

end PortLease
