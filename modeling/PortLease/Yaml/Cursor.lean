import PortLease.Yaml.Character

namespace PortLease.Yaml

structure Place where
  index : Nat := 0
  line : Nat := 0
  column : Nat := 0
  deriving DecidableEq, Repr

def Place.after (p : Place) (c : Char) : Place :=
  if isBreak c then ⟨p.index + 1, p.line + 1, 0⟩ else ⟨p.index + 1, p.line, p.column + 1⟩

structure Cursor where
  rest : List Char
  place : Place := {}
  deriving DecidableEq, Repr

namespace Cursor

def head? (k : Cursor) : Option Char := k.rest.head?

def tail (k : Cursor) : Cursor :=
  match k.rest with
  | [] => k
  | c :: cs => ⟨cs, k.place.after c⟩

def span (q : Char → Bool) (k : Cursor) : List Char × Cursor :=
  let run := k.rest.takeWhile q
  (run, ⟨k.rest.dropWhile q, run.foldl Place.after k.place⟩)

def skipWhile (q : Char → Bool) (k : Cursor) : Cursor := (k.span q).2

def toLineEnd (k : Cursor) : Cursor := k.skipWhile fun c => !isBreak c

def skipLineEnd? (k : Cursor) : Option Cursor :=
  let k := k.skipWhile isBlank
  let k := if k.head? = some '#' then k.toLineEnd else k
  match k.head? with
  | none => some k
  | some c => if isBreak c then some k.tail else none

def atDocumentMark (k : Cursor) : Bool :=
  k.place.column = 0 &&
    match k.rest with
    | '-' :: '-' :: '-' :: cs => endsWord cs
    | '.' :: '.' :: '.' :: cs => endsWord cs
    | _ => false

end Cursor

end PortLease.Yaml
