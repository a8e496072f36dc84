namespace PortLease.Text

def isDigit (c : Char) : Bool := '0' ≤ c && c ≤ '9'

def digitValue (c : Char) : Nat := c.toNat - '0'.toNat

def digitsValue (cs : List Char) : Nat :=
  cs.foldl (fun n c => 10 * n + digitValue c) 0

def digits? (cs : List Char) : Option Nat :=
  if cs.isEmpty then none
  else if cs.all isDigit then some (digitsValue cs) else none

def natBelow? (bound : Nat) (cs : List Char) : Option Nat :=
  let unsigned := match cs with
    | '+' :: rest => rest
    | _ => cs
  (digits? unsigned).filter (· < bound)

def intWithin? (bound : Nat) : List Char → Option Int
  | '-' :: rest => ((digits? rest).filter (· ≤ bound)).map fun n => -(n : Int)
  | cs => (natBelow? bound cs).map Int.ofNat

end PortLease.Text
