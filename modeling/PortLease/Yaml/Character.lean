namespace PortLease.Yaml

def isAllowed (c : Char) : Bool :=
  c = '\t' || c = '\n' || c = '\r' || (' ' ≤ c && c ≤ '~') || c = '\x85' ||
    ('\xA0' ≤ c && c ≤ '\uFFFD') || 0x10000 ≤ c.toNat

def unifyBreaks : List Char → List Char
  | [] => []
  | '\r' :: '\n' :: cs => '\n' :: unifyBreaks cs
  | c :: cs => (if c = '\r' ∨ c = '\x85' then '\n' else c) :: unifyBreaks cs

def readable? (cs : List Char) : Option (List Char) :=
  if cs.all isAllowed then some (unifyBreaks cs) else none

def isBreak (c : Char) : Bool := c = '\n' || c = '\u2028' || c = '\u2029'

def isBlank (c : Char) : Bool := c = ' ' || c = '\t'

def isSpacing (c : Char) : Bool := isBlank c || isBreak c

def endsWord : List Char → Bool
  | [] => true
  | c :: _ => isSpacing c

def isWordChar (c : Char) : Bool := c.isAlphanum || c = '_' || c = '-'

def hexValue? (c : Char) : Option Nat :=
  if '0' ≤ c && c ≤ '9' then some (c.toNat - '0'.toNat)
  else if 'a' ≤ c && c ≤ 'f' then some (c.toNat - 'a'.toNat + 10)
  else if 'A' ≤ c && c ≤ 'F' then some (c.toNat - 'A'.toNat + 10)
  else none

end PortLease.Yaml
