import PortLease.Error

namespace PortLease.Script

abbrev Slot := String

/-- How a hook fails: with a reason and the reasons behind it, with an error, or by a panic, whose
message may not be text. -/
inductive Failure where
  | reasons (chain : List String)
  | error (e : PortError)
  | panic (message : Option String)
  deriving DecidableEq, Repr

def Failure.text : Failure → String
  | .reasons chain => String.intercalate ": " chain
  | .error e => e.chainText
  | .panic message => "panicked: " ++ message.getD "non-string panic payload"

inductive Action where
  | reserve (number : Int) (slot : Option Slot)
  | reserveAny (slot : Option Slot)
  /-- Reserve many ports; the leases, by ascending port, go to the slot's name with 0, 1, … behind
  it. -/
  | reserveMany (count : Int) (slot : Option Slot)
  | find (number : Int) (slot : Option Slot)
  | clone (slot into : Slot)
  | keep (slot : Slot)
  | drop (slot : Slot)
  | close (slot : Slot) (verify : Bool)
  | closeCurrent (verify : Bool)
  | onClose (slot : Slot) (name : String) (body : List Action)
  | fail (failure : Failure)
  deriving Inhabited

structure Hook where
  number : Nat
  name : String
  body : List Action

end PortLease.Script
