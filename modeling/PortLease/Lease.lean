import PortLease.Port

namespace PortLease

abbrev LeaseId := Nat

inductive LeaseState where
  | held
  | closed
  | reclaimed
  deriving DecidableEq, Repr

/-- A lease with the hooks to run when its port is released, newest first. -/
structure Lease (η : Type) where
  port : Port
  state : LeaseState := .held
  hooks : List η := []
  holders : Nat := 1

def LeaseState.text : LeaseState → String
  | .held => "open"
  | .closed => "closed"
  | .reclaimed => "reclaimed"

def LeaseState.debugText : LeaseState → String
  | .held => "Open"
  | .closed => "Closed"
  | .reclaimed => "Reclaimed"

namespace Lease

variable {η : Type}

def isHeld (l : Lease η) : Bool := l.state == .held

def text (l : Lease η) : String := toString l.port.val

def debugText (id : LeaseId) (l : Lease η) : String :=
  s!"PortRef \x7b port: {l.port.val}, id: {id}, state: {l.state.debugText} \x7d"

end Lease

end PortLease
