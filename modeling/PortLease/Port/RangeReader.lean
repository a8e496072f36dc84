import PortLease.Json.Reader
import PortLease.Port.Range
import PortLease.Yaml.Decode

namespace PortLease.PortRange

def portOfJson? : Json → Option Port
  | .number lexeme => (Text.digits? lexeme).bind Port.ofNat?
  | _ => none

structure Ends where
  start : Option Port := none
  stop : Option Port := none
  deriving DecidableEq, Repr

def Ends.range? (ends : Ends) : Option PortRange := do
  let start ← ends.start
  let stop ← ends.stop
  return ⟨start, stop⟩

def Ends.add? (ends : Ends) (name : List Char) (value : Option Port) : Option Ends :=
  if name = "start".toList then
    match ends.start, value with
    | none, some p => some { ends with start := some p }
    | _, _ => none
  else if name = "end".toList then
    match ends.stop, value with
    | none, some p => some { ends with stop := some p }
    | _, _ => none
  else some ends

def ofJson? : Json → Option PortRange
  | .object members =>
    (members.foldlM (fun ends (name, v) => Ends.add? ends name (portOfJson? v)) {}).bind
      Ends.range?
  | .array [a, b] => Ends.range? ⟨portOfJson? a, portOfJson? b⟩
  | _ => none

def ofJsonText? (text : List Char) : Option PortRange := (Json.read? text).bind ofJson?

def port (d : Yaml.Document) (node : Yaml.Node) : Yaml.Decoding Port := do
  StateT.lift (Port.ofNat? (← d.natBelow Port.count node))

def addNode (d : Yaml.Document) (ends : Ends) (member : Yaml.Node × Yaml.Node) :
    Yaml.Decoding Ends := do
  let name ← d.text member.1
  if name = "start".toList ∨ name = "end".toList then
    let p ← port d member.2
    StateT.lift (ends.add? name (some p))
  else return ends

def ofNode (d : Yaml.Document) (node : Yaml.Node) : Yaml.Decoding PortRange := do
  let ends ← (← d.members node).foldlM (addNode d) {}
  StateT.lift ends.range?

def ofYamlText? (text : List Char) : Option PortRange := Yaml.decode? Yaml.Node.ofText? ofNode text

end PortLease.PortRange
