import PortLease.Yaml.Cursor

namespace PortLease.Yaml.Block

/-- What becomes of the line ends at the end: none is kept, the first, or all. -/
inductive Chomping where
  | strip
  | clip
  | keep
  deriving DecidableEq, Repr

structure Header where
  chomping : Chomping := .clip
  indent : Option Nat := none
  deriving DecidableEq, Repr

def chomping? : Char → Option Chomping
  | '-' => some .strip
  | '+' => some .keep
  | _ => none

def isDigit (c : Char) : Bool := '0' ≤ c && c ≤ '9'

def readIndent? (h : Header) (k : Cursor) : Option (Header × Cursor) :=
  match k.head? with
  | none => some (h, k)
  | some c =>
    if c = '0' then none
    else if isDigit c then some ({ h with indent := some (c.toNat - '0'.toNat) }, k.tail)
    else some (h, k)

def readChomping (h : Header) (k : Cursor) : Header × Cursor :=
  match k.head?.bind chomping? with
  | some chomping => ({ h with chomping }, k.tail)
  | none => (h, k)

def readHeader? (k : Cursor) : Option (Header × Cursor) := do
  let (h, after) := readChomping {} k
  let (h, after') ← readIndent? h after
  let (h, after'') := if after.place.index = k.place.index ∧ h.indent.isSome
    then readChomping h after' else (h, after')
  let k ← after''.skipLineEnd?
  return (h, k)

def leadIn? (width : Option Nat) :
    List Char → Place → (farthest : Nat) → Option (List Char × Nat × Cursor)
  | [], p, farthest => some ([], max farthest p.column, ⟨[], p⟩)
  | c :: cs, p, farthest =>
    let short := width.all (p.column < ·)
    if short && c = ' ' then leadIn? width cs (p.after c) farthest
    else if short && c = '\t' then none
    else if isBreak c then
      (leadIn? width cs (p.after c) (max farthest p.column)).map fun r => (c :: r.1, r.2)
    else some ([], max farthest p.column, ⟨c :: cs, p⟩)

structure Ending where
  first : List Char := []
  more : List Char := []
  deriving DecidableEq, Repr

def Ending.chomp (e : Ending) : Chomping → List Char
  | .strip => []
  | .clip => e.first
  | .keep => e.first ++ e.more

def Ending.join (e : Ending) (fold : Bool) : List Char :=
  (if fold && e.first = ['\n'] then (if e.more.isEmpty then [' '] else []) else e.first) ++ e.more

def linesFrom? (folded : Bool) (chomping : Chomping) (indent : Nat) :
    (fuel : Nat) → Ending → (afterBlank : Bool) → Cursor → Option (List Char × Cursor)
  | 0, _, _, _ => none
  | fuel + 1, e, afterBlank, k =>
    match k.rest with
    | [] => some (e.chomp chomping, k)
    | c :: _ =>
      if k.place.column ≠ indent then some (e.chomp chomping, k)
      else
        let (line, k) := k.span fun c => !isBreak c
        let first := k.rest.take 1
        let k := k.tail
        match leadIn? (some indent) k.rest k.place 0 with
        | none => none
        | some (more, _, k) =>
          let lead := e.join (folded && !afterBlank && !isBlank c)
          (linesFrom? folded chomping indent fuel ⟨first, more⟩ (isBlank c) k).map
            fun (text, k) => (lead ++ line ++ text, k)

def read? (folded : Bool) (least : Nat) (k : Cursor) : Option (List Char × Cursor) := do
  let (header, k) ← readHeader? k.tail
  let width := header.indent.map fun n => least - 1 + n
  let (breaks, farthest, k) ← leadIn? width k.rest k.place 0
  let indent := width.getD (max farthest (max least 1))
  linesFrom? folded header.chomping indent (k.rest.length + 1) ⟨[], breaks⟩ false k

end PortLease.Yaml.Block
