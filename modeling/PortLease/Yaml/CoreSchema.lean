import PortLease.Decimal.Nearest
import PortLease.Text.Numeral
import PortLease.Yaml.Character

namespace PortLease.Yaml.CoreSchema

def isNull (cs : List Char) : Bool :=
  ["null", "Null", "NULL", "~"].contains (String.ofList cs)

def bool? (cs : List Char) : Option Bool :=
  if ["true", "True", "TRUE"].contains (String.ofList cs) then some true
  else if ["false", "False", "FALSE"].contains (String.ofList cs) then some false
  else none

def digitsIn? (radix : Nat) (cs : List Char) : Option Nat :=
  if cs.isEmpty then none
  else cs.foldlM (fun n c => (hexValue? c).bind fun d => if d < radix then some (n * radix + d) else none) 0

def dropPlus : List Char → List Char
  | '+' :: cs => cs
  | cs => cs

def dropMinus? : List Char → Option (List Char)
  | '-' :: cs => some cs
  | _ => none

def hasLeadingZero (cs : List Char) : Bool :=
  match (dropMinus? cs).getD (dropPlus cs) with
  | '0' :: c :: cs => (c :: cs).all Text.isDigit
  | _ => false

def magnitude? : List Char → Option Nat
  | '0' :: 'x' :: cs => digitsIn? 16 cs
  | '0' :: 'o' :: cs => digitsIn? 8 cs
  | '0' :: 'b' :: cs => digitsIn? 2 cs
  | cs => if hasLeadingZero cs then none else Text.digits? cs

def nat? (cs : List Char) : Option Nat := magnitude? (dropPlus cs)

def int? (cs : List Char) : Option Int :=
  match dropMinus? cs with
  | some cs => (magnitude? cs).map fun n => -(n : Int)
  | none => (nat? cs).map Int.ofNat

inductive Real where
  | finite (negative : Bool) (value : Decimal.Binary)
  | infinite (negative : Bool)
  | notANumber
  deriving DecidableEq, Repr

def Real.normal : Real → Real
  | .finite negative value => .finite (negative && value.mantissa ≠ 0) value
  | r => r

def infinityWords : List String := [".inf", ".Inf", ".INF"]

def splitFraction (cs : List Char) : List Char × List Char × List Char :=
  let whole := cs.takeWhile Text.isDigit
  match cs.dropWhile Text.isDigit with
  | '.' :: rest => (whole, rest.takeWhile Text.isDigit, rest.dropWhile Text.isDigit)
  | rest => (whole, [], rest)

def exponent? : List Char → Option Int
  | [] => some 0
  | e :: cs =>
    if e = 'e' ∨ e = 'E' then
      match dropMinus? cs with
      | some cs => (Text.digits? cs).map fun n => -(n : Int)
      | none => (Text.digits? (dropPlus cs)).map Int.ofNat
    else none

def decimal? (cs : List Char) : Option Decimal.Binary :=
  let (whole, fraction, rest) := splitFraction cs
  if whole.isEmpty && fraction.isEmpty then none
  else
    (exponent? rest).bind fun e =>
      Decimal.nearest? (Text.digitsValue (whole ++ fraction)) (e - fraction.length)

def real? (cs : List Char) : Option Real :=
  if infinityWords.contains (String.ofList (dropPlus cs)) then some (.infinite false)
  else if [".nan", ".NaN", ".NAN"].contains (String.ofList cs) then some .notANumber
  else
    match dropMinus? cs with
    | some cs =>
      if infinityWords.contains (String.ofList cs) then some (.infinite true)
      else (decimal? cs).map (.finite true)
    | none => (decimal? (dropPlus cs)).map (.finite false)

inductive Atom where
  | null
  | bool (b : Bool)
  | int (n : Int)
  /-- A whole number of more than 64 and at most 128 bits, which no value can hold. -/
  | wide
  | real (r : Real)
  | text
  deriving DecidableEq, Repr

def whole? (cs : List Char) : Option Atom :=
  (int? cs).bind fun n =>
    if -Nat.pow 2 63 ≤ n ∧ n < Nat.pow 2 64 then some (.int n)
    else if -Nat.pow 2 127 ≤ n ∧ n < Nat.pow 2 128 then some .wide
    else none

def atom (cs : List Char) : Atom :=
  if cs.isEmpty || isNull cs then .null
  else
    match bool? cs with
    | some b => .bool b
    | none =>
      match whole? cs with
      | some n => n
      | none =>
        if hasLeadingZero cs then .text
        else
          match real? cs with
          | some r => .real r.normal
          | none => .text

end PortLease.Yaml.CoreSchema
