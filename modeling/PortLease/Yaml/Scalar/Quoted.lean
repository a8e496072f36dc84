import PortLease.Yaml.Cursor
import PortLease.Yaml.Scalar.Fold

namespace PortLease.Yaml.Quoted

def singleRun : List Char → Place → List Char × Cursor
  | [], p => ([], ⟨[], p⟩)
  | '\x27' :: '\x27' :: cs, p =>
    let (text, k) := singleRun cs ((p.after '\x27').after '\x27')
    ('\x27' :: text, k)
  | c :: cs, p =>
    if c = '\x27' ∨ isSpacing c then ([], ⟨c :: cs, p⟩)
    else
      let (text, k) := singleRun cs (p.after c)
      (c :: text, k)

def escaped? : Char → Option Char
  | '0' => some '\x00'
  | 'a' => some '\x07'
  | 'b' => some '\x08'
  | 't' | '\t' => some '\t'
  | 'n' => some '\n'
  | 'v' => some '\x0b'
  | 'f' => some '\x0c'
  | 'r' => some '\r'
  | 'e' => some '\x1b'
  | ' ' => some ' '
  | '"' => some '"'
  | '/' => some '/'
  | '\\' => some '\\'
  | 'N' => some '\x85'
  | '_' => some '\xA0'
  | 'L' => some '\u2028'
  | 'P' => some '\u2029'
  | _ => none

def escapeWidth? : Char → Option Nat
  | 'x' => some 2
  | 'u' => some 4
  | 'U' => some 8
  | _ => none

def ofCodePoint? (n : Nat) : Option Char :=
  if n.isValidChar then some (Char.ofNat n) else none

/-- What comes next between double quotes: text, the letter of an escape, or so many digits that
follow those of `value`. -/
inductive Expected where
  | text
  | escape
  | digits (left value : Nat)
  deriving DecidableEq, Repr

def doubleRun? : Expected → List Char → Place → Option (List Char × Bool × Cursor)
  | .text, [], p => some ([], false, ⟨[], p⟩)
  | _, [], _ => none
  | .text, c :: cs, p =>
    if c = '"' ∨ isSpacing c then some ([], false, ⟨c :: cs, p⟩)
    else if c = '\\' then doubleRun? .escape cs (p.after c)
    else (doubleRun? .text cs (p.after c)).map fun r => (c :: r.1, r.2)
  | .escape, c :: cs, p =>
    if isBreak c then some ([], true, ⟨cs, p.after c⟩)
    else
      match escaped? c, escapeWidth? c with
      | some d, _ => (doubleRun? .text cs (p.after c)).map fun r => (d :: r.1, r.2)
      | none, some width => doubleRun? (.digits width 0) cs (p.after c)
      | none, none => none
  | .digits left value, c :: cs, p =>
    match hexValue? c with
    | none => none
    | some v =>
      if left ≤ 1 then
        match ofCodePoint? (value * 16 + v) with
        | none => none
        | some d => (doubleRun? .text cs (p.after c)).map fun r => (d :: r.1, r.2)
      else doubleRun? (.digits (left - 1) (value * 16 + v)) cs (p.after c)

def run? (double : Bool) (k : Cursor) : Option (List Char × Bool × Cursor) :=
  if double then doubleRun? .text k.rest k.place
  else
    let (text, k) := singleRun k.rest k.place
    some (text, false, k)

def quote (double : Bool) : Char := if double then '"' else '\x27'

def textFrom? (double : Bool) : (fuel : Nat) → Cursor → Option (List Char × Cursor)
  | 0, _ => none
  | fuel + 1, k =>
    if k.atDocumentMark || k.rest.isEmpty then none
    else
      match run? double k with
      | none => none
      | some (text, joined, k) =>
        if k.head? = some (quote double) then some (text, k.tail)
        else
          let (gap, k) := k.span isSpacing
          let filler := if joined then gap.filter isBreak else foldGap gap
          (textFrom? double fuel k).map fun (more, k) => (text ++ filler ++ more, k)

def read? (double : Bool) (k : Cursor) : Option (List Char × Cursor) :=
  textFrom? double (k.rest.length + 1) k.tail

end PortLease.Yaml.Quoted
