import PortLease.FileBytes
import PortLease.Port.RangeReader
import PortLease.Settings
import PortLease.Yaml.Value

namespace PortLease.Settings

def flagOf : Yaml.Value → Bool
  | .bool b => b
  | .text cs => readFlag cs
  | .int n => n == 1
  | _ => false

def nestingLimit : Nat := 127

structure Written where
  disableReleaseCheck : Option Bool := none
  probeBind : Option Bool := none
  ephemeralRange : Option (Option PortRange) := none
  lsofPath : Option (Option String) := none
  deriving DecidableEq, Repr

def Written.settings (w : Written) : Settings where
  disableReleaseCheck := w.disableReleaseCheck.getD false
  probeBind := w.probeBind.getD true
  ephemeralRange := w.ephemeralRange.getD none
  lsofPath := w.lsofPath.getD none

def once {α : Type} (known : Option α) (read : Yaml.Decoding α) : Yaml.Decoding (Option α) := do
  if known.isSome then failure
  return some (← read)

def addMember (d : Yaml.Document) (w : Written) (member : Yaml.Node × Yaml.Node) :
    Yaml.Decoding Written := do
  let (key, value) := member
  match String.ofList (← d.text key) with
  | "disableReleaseCheck" =>
    let flag ← once w.disableReleaseCheck (flagOf <$> Yaml.Value.ofNode d nestingLimit value)
    return { w with disableReleaseCheck := flag }
  | "probeBind" => return { w with probeBind := ← once w.probeBind (d.bool value) }
  | "ephemeralRange" =>
    let range ← once w.ephemeralRange (d.optional (PortRange.ofNode d) value)
    return { w with ephemeralRange := range }
  | "lsofPath" =>
    let path ← once w.lsofPath (d.optional (fun node => String.ofList <$> d.text node) value)
    return { w with lsofPath := path }
  | _ => return w

def ofNode (d : Yaml.Document) (node : Yaml.Node) : Yaml.Decoding Settings := do
  let written ← (← d.members node).foldlM (addMember d) {}
  return written.settings

def ofYaml (text : List Char) : Except PortError Settings :=
  if (Text.trim text).isEmpty then .ok {}
  else
    match Yaml.decode? Yaml.Node.ofText? ofNode text with
    | some s => .ok s
    | none => .error .yaml

def load (file : FileBytes) (value : Variable) : Except PortError Settings :=
  match file.text with
  | .error why => .error (.io why)
  | .ok text => (ofYaml text).map (·.withEnvironment value)

end PortLease.Settings
