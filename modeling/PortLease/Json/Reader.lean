import PortLease.Json
import PortLease.Text.Numeral

/-!
Reading JSON. A lone surrogate in the name of a member is refused; in a value it stands for U+FFFD.
-/

namespace PortLease.Json

open Text (isDigit)

def isSpace (c : Char) : Bool := c = ' ' || c = '\n' || c = '\t' || c = '\r'

def skip (cs : List Char) : List Char := cs.dropWhile isSpace

def hexValue? (c : Char) : Option Nat :=
  if isDigit c then some (c.toNat - '0'.toNat)
  else if 'a' ≤ c && c ≤ 'f' then some (c.toNat - 'a'.toNat + 10)
  else if 'A' ≤ c && c ≤ 'F' then some (c.toNat - 'A'.toNat + 10)
  else none

def unit? (a b c d : Char) : Option Nat := do
  let a ← hexValue? a
  let b ← hexValue? b
  let c ← hexValue? c
  let d ← hexValue? d
  return ((a * 16 + b) * 16 + c) * 16 + d

def isHighSurrogate (u : Nat) : Bool := 0xD800 ≤ u && u ≤ 0xDBFF

def isLowSurrogate (u : Nat) : Bool := 0xDC00 ≤ u && u ≤ 0xDFFF

def ofSurrogates (high low : Nat) : Char :=
  Char.ofNat (0x10000 + (high - 0xD800) * 0x400 + (low - 0xDC00))

def shortEscape? : Char → Option Char
  | '"' => some '"'
  | '\\' => some '\\'
  | '/' => some '/'
  | 'b' => some '\x08'
  | 'f' => some '\x0c'
  | 'n' => some '\n'
  | 'r' => some '\r'
  | 't' => some '\t'
  | _ => none

def readString : List Char → Option (List (Char ⊕ Nat) × List Char)
  | [] => none
  | '"' :: rest => some ([], rest)
  | '\\' :: 'u' :: a :: b :: c :: d :: rest =>
    match unit? a b c d with
    | none => none
    | some u => (readString rest).map fun r => (.inr u :: r.1, r.2)
  | '\\' :: e :: rest =>
    match shortEscape? e with
    | none => none
    | some c => (readString rest).map fun r => (.inl c :: r.1, r.2)
  | c :: rest =>
    if c.toNat < 0x20 ∨ c = '\\' then none
    else (readString rest).map fun r => (.inl c :: r.1, r.2)

def joinPairs : List (Char ⊕ Nat) → List (Option Char)
  | [] => []
  | .inl c :: rest => some c :: joinPairs rest
  | .inr u :: .inr v :: rest =>
    if isHighSurrogate u && isLowSurrogate v then some (ofSurrogates u v) :: joinPairs rest
    else ofUnit u :: joinPairs (.inr v :: rest)
  | .inr u :: rest => ofUnit u :: joinPairs rest
where
  ofUnit (u : Nat) : Option Char :=
    if isHighSurrogate u || isLowSurrogate u then none else some (Char.ofNat u)

def readDigits (cs : List Char) : Option (List Char × List Char) :=
  let digits := cs.takeWhile isDigit
  if digits.isEmpty then none else some (digits, cs.dropWhile isDigit)

def readFraction : List Char → Option (List Char × List Char)
  | '.' :: rest => (readDigits rest).map fun r => ('.' :: r.1, r.2)
  | cs => some ([], cs)

def readSign : List Char → List Char × List Char
  | '+' :: rest => (['+'], rest)
  | '-' :: rest => (['-'], rest)
  | cs => ([], cs)

def readExponent : List Char → Option (List Char × List Char)
  | e :: rest =>
    if e = 'e' ∨ e = 'E' then
      let (sign, digits) := readSign rest
      (readDigits digits).map fun r => (e :: sign ++ r.1, r.2)
    else some ([], e :: rest)
  | [] => some ([], [])

def readMagnitude (cs : List Char) : Option (List Char × List Char) := do
  let (whole, rest) ← readDigits cs
  if whole.head? = some '0' ∧ whole.length ≠ 1 then none
  else
    let (fraction, rest) ← readFraction rest
    let (exponent, rest) ← readExponent rest
    return (whole ++ fraction ++ exponent, rest)

def readNumber : List Char → Option (List Char × List Char)
  | '-' :: rest => (readMagnitude rest).map fun r => ('-' :: r.1, r.2)
  | cs => readMagnitude cs

def readName (cs : List Char) : Option (List Char × List Char) :=
  match cs with
  | '"' :: rest => (readString rest).bind fun r => ((joinPairs r.1).mapM id).map fun name => (name, r.2)
  | _ => none

mutual

def readValue : (fuel : Nat) → List Char → Option (Json × List Char)
  | 0, _ => none
  | fuel + 1, cs =>
    match skip cs with
    | 'n' :: 'u' :: 'l' :: 'l' :: rest => some (.null, rest)
    | 't' :: 'r' :: 'u' :: 'e' :: rest => some (.bool true, rest)
    | 'f' :: 'a' :: 'l' :: 's' :: 'e' :: rest => some (.bool false, rest)
    | '"' :: rest =>
      (readString rest).map fun r => (.string ((joinPairs r.1).map fun c => c.getD '\uFFFD'), r.2)
    | '[' :: rest =>
      match skip rest with
      | ']' :: rest => some (.array [], rest)
      | rest => (readItems fuel rest).map fun r => (.array r.1, r.2)
    | '\x7b' :: rest =>
      match skip rest with
      | '\x7d' :: rest => some (.object [], rest)
      | rest => (readMembers fuel rest).map fun r => (.object r.1, r.2)
    | cs => (readNumber cs).map fun r => (.number r.1, r.2)

def readItems : (fuel : Nat) → List Char → Option (List Json × List Char)
  | 0, _ => none
  | fuel + 1, cs => do
    let (v, rest) ← readValue fuel cs
    match skip rest with
    | ',' :: rest => (readItems fuel rest).map fun r => (v :: r.1, r.2)
    | ']' :: rest => some ([v], rest)
    | _ => none

def readMembers : (fuel : Nat) → List Char → Option (List (List Char × Json) × List Char)
  | 0, _ => none
  | fuel + 1, cs => do
    let (name, rest) ← readName (skip cs)
    match skip rest with
    | ':' :: rest =>
      let (v, rest) ← readValue fuel rest
      match skip rest with
      | ',' :: rest => (readMembers fuel rest).map fun r => ((name, v) :: r.1, r.2)
      | '\x7d' :: rest => some ([(name, v)], rest)
      | _ => none
    | _ => none

end

/-- A text that is one value. Each call of the reader but the last two of a nesting takes a character
away, so the fuel is enough. -/
def read? (cs : List Char) : Option Json :=
  match readValue (2 * cs.length + 2) cs with
  | some (v, rest) => if (skip rest).isEmpty then some v else none
  | none => none

end PortLease.Json
