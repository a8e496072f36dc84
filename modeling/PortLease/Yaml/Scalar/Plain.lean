import PortLease.Yaml.Cursor
import PortLease.Yaml.Scalar.Fold

namespace PortLease.Yaml.Plain

def isFlowMark (c : Char) : Bool :=
  c = ',' || c = '[' || c = ']' || c = '\x7b' || c = '\x7d'

def forbidsColon : List Char → Bool
  | c :: _ => isFlowMark c || c = '?'
  | [] => false

def word? (flow : Bool) : List Char → Option (List Char)
  | [] => some []
  | c :: cs =>
    if isSpacing c then some []
    else if flow && c = ':' && forbidsColon cs then none
    else if (c = ':' && endsWord cs) || (flow && isFlowMark c) then some []
    else (word? flow cs).map (c :: ·)

def hasShallowTab (least : Nat) : (column : Option Nat) → List Char → Bool
  | _, [] => false
  | column, c :: cs =>
    if isBreak c then hasShallowTab least (some 0) cs
    else (c = '\t' && column.any (· < least)) || hasShallowTab least (column.map (· + 1)) cs

def skipWord (k : Cursor) (word : List Char) : Cursor :=
  ⟨k.rest.drop word.length, word.foldl Place.after k.place⟩

def wordsFrom? (flow : Bool) (least : Nat) :
    (fuel : Nat) → (gap : List Char) → Cursor → Option (List Char × Bool × Cursor)
  | 0, _, _ => none
  | fuel + 1, gap, k =>
    if k.atDocumentMark || k.head? = some '#' then some ([], gap.any isBreak, k)
    else
      match word? flow k.rest with
      | none => none
      | some [] => some ([], gap.any isBreak, k)
      | some word =>
        let (next, after) := (skipWord k word).span isSpacing
        if hasShallowTab least none next then none
        else if next = [] || (!flow && after.place.column < least) then
          some (foldGap gap ++ word, next.any isBreak, after)
        else
          (wordsFrom? flow least fuel next after).map fun (more, broken, k) =>
            (foldGap gap ++ word ++ more, broken, k)

def read? (flow : Bool) (least : Nat) (k : Cursor) : Option (List Char × Bool × Cursor) :=
  wordsFrom? flow least (k.rest.length + 1) [] k

end PortLease.Yaml.Plain
