import PortLease.Yaml.Cursor
import PortLease.Yaml.Token

namespace PortLease.Yaml

def readName? (k : Cursor) : Option (List Char × Cursor) :=
  let (name, k) := k.span isWordChar
  let closed := endsWord k.rest || k.head?.any fun c => "?:,]\x7d%@\x60".toList.contains c
  if name.isEmpty || !closed then none else some (name, k)

namespace Tag

def isPlain (listed : Bool) (c : Char) : Bool :=
  isWordChar c || ";/?:@&=+$.!~*\x27()".toList.contains c ||
    (listed && (c = ',' || c = '[' || c = ']'))

def bytesAfter? (byte : Nat) : Option Nat :=
  if byte < 0x80 then some 0
  else if byte / 0x20 = 6 then some 1
  else if byte / 0x10 = 14 then some 2
  else if byte / 0x08 = 30 then some 3
  else none

def bytesFrom? (listed : Bool) :
    (left : Nat) → List Char → Place → Option (List UInt8 × Cursor)
  | left, '%' :: a :: b :: cs, p =>
    match hexValue? a, hexValue? b with
    | some x, some y =>
      let byte := x * 16 + y
      let place := ((p.after '%').after a).after b
      let left? := match left with
        | 0 => bytesAfter? byte
        | left + 1 => if byte / 0x40 = 2 then some left else none
      match left? with
      | none => none
      | some left => (bytesFrom? listed left cs place).map fun r => (UInt8.ofNat byte :: r.1, r.2)
    | _, _ => none
  | 0, c :: cs, p =>
    if isPlain listed c then
      (bytesFrom? listed 0 cs (p.after c)).map fun r => (UInt8.ofNat c.toNat :: r.1, r.2)
    else if c = '%' then none
    else some ([], ⟨c :: cs, p⟩)
  | 0, [], p => some ([], ⟨[], p⟩)
  | _ + 1, _, _ => none

def bytes? (listed : Bool) (k : Cursor) : Option (List UInt8 × Cursor) :=
  (bytesFrom? listed 0 k.rest k.place).map fun r => (r.1.takeWhile (· != 0), r.2)

def someBytes? (listed : Bool) (k : Cursor) : Option (List UInt8 × Cursor) :=
  (bytes? listed k).filter fun r => r.2.rest.length < k.rest.length

def readHandle? (k : Cursor) : Option (List Char × Bool × Cursor) :=
  if k.head? = some '!' then
    let (name, k) := k.tail.span isWordChar
    if k.head? = some '!' then some ('!' :: name ++ ['!'], true, k.tail)
    else some ('!' :: name, false, k)
  else none

def ofAscii (cs : List Char) : List UInt8 := cs.map fun c => UInt8.ofNat c.toNat

def readShorthand? (k : Cursor) : Option (Token × Cursor) := do
  let (handle, closed, k) ← readHandle? k
  if closed then
    let (suffix, k) ← someBytes? false k
    return (.tag handle suffix, k)
  else
    let (more, k) ← bytes? false k
    let suffix := ofAscii (handle.drop 1) ++ more
    return (if suffix.isEmpty then .tag [] (ofAscii ['!']) else .tag ['!'] suffix, k)

def readVerbatim? (k : Cursor) : Option (Token × Cursor) := do
  let (name, k) ← someBytes? true k
  if k.head? = some '>' then some (.tag [] name, k.tail) else none

def read? (flow : Bool) (k : Cursor) : Option (Token × Cursor) := do
  let (token, k) ←
    if k.tail.head? = some '<' then readVerbatim? k.tail.tail else readShorthand? k
  if endsWord k.rest || (flow && k.head? = some ',') then some (token, k) else none

end Tag

namespace Directive

def readNumber? (k : Cursor) : Option (Nat × Cursor) :=
  let (digits, k) := k.span Char.isDigit
  if digits.isEmpty || 9 < digits.length then none
  else some (digits.foldl (fun n c => 10 * n + (c.toNat - '0'.toNat)) 0, k)

def readVersion? (k : Cursor) : Option (Token × Cursor) := do
  let (major, k) ← readNumber? (k.skipWhile isBlank)
  if k.head? = some '.' then
    let (minor, k) ← readNumber? k.tail
    return (.version major minor, k)
  else none

def readTagHandle? (k : Cursor) : Option (Token × Cursor) := do
  let (handle, closed, k) ← Tag.readHandle? (k.skipWhile isBlank)
  if (closed || handle = ['!']) && k.head?.any isBlank then
    let (expansion, k) ← Tag.someBytes? true (k.skipWhile isBlank)
    if endsWord k.rest then some (.tagHandle handle expansion, k) else none
  else none

def read? (k : Cursor) : Option (Token × Cursor) := do
  let (name, k) := k.tail.span isWordChar
  if !endsWord k.rest then none
  else
    let (token, k) ←
      if name = "YAML".toList then readVersion? k
      else if name = "TAG".toList then readTagHandle? k
      else none
    return (token, ← k.skipLineEnd?)

end Directive

end PortLease.Yaml
