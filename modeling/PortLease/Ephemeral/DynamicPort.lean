import PortLease.Ephemeral
import PortLease.Text.Blank
import PortLease.Text.DecimalDigit

/-!
The ephemeral range as `netsh int ipv4 show dynamicport tcp` prints it: a labelled line with the first
port and one with the number of ports. A label is found in any case, at the beginning of a line after
white space; white space may also stand around the colon and may run over line ends.
-/

namespace PortLease.Ephemeral.DynamicPort

/-- The same letter in lower case, the long s among the forms of s. -/
def foldCase (c : Char) : Char := if c = 'ſ' then 's' else c.toLower

def afterLabel : List Char → List Char → Option (List Char)
  | [], cs => some cs
  | _ :: _, [] => none
  | l :: label, c :: cs => if foldCase c = l then afterLabel label cs else none

def numberHere? (label cs : List Char) : Option (List Char) :=
  match afterLabel label (Text.trimStart cs) with
  | none => none
  | some rest =>
    match Text.trimStart rest with
    | ':' :: rest' =>
      let number := (Text.trimStart rest').takeWhile Text.isDecimalDigit
      if number.isEmpty then none else some number
    | _ => none

def numberAfter? (label : List Char) (lineBegins : Bool) : List Char → Option (List Char)
  | [] => none
  | c :: cs =>
    match if lineBegins then numberHere? label (c :: cs) else none with
    | some number => some number
    | none => numberAfter? label (c = '\n') cs

abbrev Search := (label text : List Char) → Option (List Char)

def search : Search := fun label text => numberAfter? label true text

def number? (search : Search) (label : String) (text : List Char) : Option Nat :=
  (search label.toList text).bind (Text.natBelow? UInt32.size)

def span? (start size : Nat) : Option PortRange :=
  if size = 0 then none
  else do
    let first ← Port.ofNat? start
    let last ← Port.ofNat? (start + (size - 1))
    return ⟨first, last⟩

def range? (search : Search) (text : List Char) : Option PortRange := do
  let start ← number? search "start port" text
  let size ← number? search "number of ports" text
  span? start size

def ofText? (text : List Char) : Option PortRange := range? search text

end PortLease.Ephemeral.DynamicPort
