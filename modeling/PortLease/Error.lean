import PortLease.Port.Range

namespace PortLease

inductive PortError where
  | invalidPort (detail : String)
  | invalidCount (detail : String)
  | portsExhausted (detail : String)
  | toolNotFound (detail : String)
  | toolFailed (detail : String)
  | malformedOutput (detail : String)
  | hooksFailed (port : Port) (failures : List String)
  | io (detail : String)
  | yaml
  | json
  deriving DecidableEq, Repr

namespace PortError

def message : PortError → String
  | .invalidPort d => s!"Invalid port: {d}"
  | .invalidCount d => s!"Invalid port count: {d}"
  | .portsExhausted d => s!"Ports exhausted: {d}"
  | .toolNotFound d => s!"Tool not found: {d}"
  | .toolFailed d => s!"Tool failed: {d}"
  | .malformedOutput d => s!"Malformed tool output: {d}"
  | .hooksFailed p fs =>
    s!"{fs.length} on-close callback(s) failed for port {p.val}: " ++ String.intercalate "; " fs
  | .io d => s!"IO error: {d}"
  | .yaml => "YAML error"
  | .json => "JSON error"

def causes : PortError → List String
  | .io d => [d]
  | _ => []

def chainText (e : PortError) : String :=
  String.intercalate ": " (e.message :: e.causes)

def isInvalidArgument : PortError → Bool
  | .invalidPort _ | .invalidCount _ => true
  | _ => false

def isInconclusive : PortError → Bool
  | .toolNotFound _ | .toolFailed _ | .malformedOutput _ | .io _ => true
  | _ => false

end PortError

end PortLease
