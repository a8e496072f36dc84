import PortLease.Error

namespace PortLease

structure Policy where
  excluded : PortRange
  probeBind : Bool := true
  checkRelease : Bool := true
  deriving DecidableEq, Repr

inductive Refusal where
  | outside (number : Int)
  | system (port : Port)
  | excluded (port : Port) (range : PortRange)
  deriving DecidableEq, Repr

def Refusal.text : Refusal → String
  | .outside n => s!"port {n} is outside 1-65535"
  | .system p => s!"port {p.val} is a system port (below {Port.lowest.val})"
  | .excluded p r => s!"port {p.val} is inside the ephemeral range {r.text}"

def Refusal.toError (r : Refusal) : PortError := .invalidPort r.text

namespace Policy

def check (policy : Policy) (number : Int) : Except Refusal Port :=
  if number < 1 then .error (.outside number)
  else
    match Port.ofInt? number with
    | none => .error (.outside number)
    | some port =>
      if port < Port.lowest then .error (.system port)
      else if policy.excluded.contains port then .error (.excluded port policy.excluded)
      else .ok port

def isLeasable (policy : Policy) (number : Int) : Bool :=
  match policy.check number with
  | .ok _ => true
  | .error _ => false

def isCandidate (policy : Policy) (port : Port) : Bool :=
  Port.lowest ≤ port && !policy.excluded.contains port

def capacity (policy : Policy) : Nat :=
  PortRange.userSpace.size - (policy.excluded.meet .userSpace).size

end Policy

end PortLease
