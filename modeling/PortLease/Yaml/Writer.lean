import PortLease.Yaml.CoreSchema
import PortLease.Yaml.Token

namespace PortLease.Yaml.Writer

def isShown (c : Char) : Bool :=
  c = '\n' || (' ' ≤ c && c ≤ '~') || ('\xA0' ≤ c && c ≤ '\uFFFD' && c ≠ '\uFEFF')

def hasPair (p q : Char → Bool) (cs : List Char) : Bool :=
  (cs.zip cs.tail).any fun (a, b) => p a && q b

def isSpace (c : Char) : Bool := c = ' '

def isLeadMark (c : Char) : Bool :=
  "#,[]\x7b\x7d&*!|>\x27\"%@\x60".toList.contains c

def hasLeadMark (cs : List Char) : Bool :=
  match cs with
  | '-' :: '-' :: '-' :: _ => true
  | '.' :: '.' :: '.' :: _ => true
  | c :: rest => isLeadMark c || ((c = '?' || c = ':' || c = '-') && endsWord rest)
  | [] => false

def hasInnerMark (cs : List Char) : Bool :=
  cs.getLast? = some ':' || hasPair (· = ':') isSpacing cs || hasPair isSpacing (· = '#') cs

def beginsOrEnds (q : Char → Bool) (cs : List Char) : Bool :=
  cs.head?.any q || cs.getLast?.any q

def allowsPlain (cs : List Char) : Bool :=
  cs.all isShown && !cs.any isBreak && !beginsOrEnds isSpace cs && !hasLeadMark cs &&
    !hasInnerMark cs

def allowsSingleQuotes (cs : List Char) : Bool :=
  cs.all isShown && !hasPair isSpace isBreak cs && !hasPair isBreak isSpace cs

def allowsLiteral (cs : List Char) : Bool :=
  cs.all isShown && !hasPair isSpace isBreak cs && cs.getLast? ≠ some ' '

def needsQuotes (cs : List Char) : Bool :=
  CoreSchema.atom cs ≠ .text || CoreSchema.hasLeadingZero cs

def style (cs : List Char) : ScalarStyle :=
  if cs.contains '\n' then (if allowsLiteral cs then .literal else .doubleQuoted)
  else if !needsQuotes cs && allowsPlain cs then .plain
  else if allowsSingleQuotes cs then .singleQuoted
  else .doubleQuoted

def hexDigits : (width : Nat) → Nat → List Char
  | 0, _ => []
  | width + 1, n => hexDigits width (n / 16) ++ [(Nat.digitChar (n % 16)).toUpper]

def escape (c : Char) : List Char :=
  match c with
  | '\x00' => ['0']
  | '\x07' => ['a']
  | '\x08' => ['b']
  | '\t' => ['t']
  | '\n' => ['n']
  | '\x0b' => ['v']
  | '\x0c' => ['f']
  | '\r' => ['r']
  | '\x1b' => ['e']
  | '"' => ['"']
  | '\\' => ['\\']
  | '\x85' => ['N']
  | '\u2028' => ['L']
  | '\u2029' => ['P']
  | c =>
    if c.toNat ≤ 0xFF then 'x' :: hexDigits 2 c.toNat
    else if c.toNat ≤ 0xFFFF then 'u' :: hexDigits 4 c.toNat
    else 'U' :: hexDigits 8 c.toNat

def doubleQuoted (cs : List Char) : List Char :=
  '"' :: cs.flatMap (fun c =>
    if !isShown c || isBreak c || c = '"' || c = '\\' then '\\' :: escape c else [c]) ++ ['"']

def pad (indent : Nat) : List Char := List.replicate indent ' '

def indented (indent : Nat) : (fresh : Bool) → List Char → List Char
  | _, [] => []
  | fresh, c :: cs =>
    if isBreak c then c :: indented indent true cs
    else (if fresh then pad indent else []) ++ c :: indented indent false cs

def singleQuoted (indent : Nat) (cs : List Char) : List Char :=
  let doubled := cs.flatMap fun c => if c = '\x27' then ['\x27', '\x27'] else [c]
  let ending := if cs.getLast?.any isBreak then pad indent else []
  '\x27' :: indented indent false doubled ++ ending ++ ['\x27']

def indentHint (cs : List Char) : List Char :=
  if cs.head?.any fun c => isSpace c || isBreak c then ['2'] else []

def chompHint (cs : List Char) : List Char :=
  match cs.reverse with
  | a :: b :: _ => if !isBreak a then ['-'] else if isBreak b then ['+'] else []
  | [a] => if isBreak a then ['+'] else ['-']
  | [] => ['-']

def literal (indent : Nat) (cs : List Char) : List Char :=
  '|' :: indentHint cs ++ chompHint cs ++ '\n' :: indented indent true cs

def scalar (indent : Nat) (cs : List Char) : List Char :=
  match style cs with
  | .plain => cs ++ ['\n']
  | .singleQuoted => singleQuoted indent cs ++ ['\n']
  | .literal | .folded => literal indent cs ++ (if cs.getLast?.any isBreak then [] else ['\n'])
  | .doubleQuoted => doubleQuoted cs ++ ['\n']

end Writer

/-- What can be written: words that stand for themselves, texts and mappings that are not empty. -/
inductive Outline where
  | word (word : String)
  | text (cs : List Char)
  | mapping (members : List (String × Outline))

namespace Outline

open Writer

def nat (n : Nat) : Outline := .word (toString n)

def bool (b : Bool) : Outline := .word (toString b)

def optional {α : Type} (f : α → Outline) : Option α → Outline
  | none => .word "null"
  | some a => f a

mutual

def render (indent : Nat) : Outline → List Char
  | .word w => ' ' :: w.toList ++ ['\n']
  | .text cs => ' ' :: scalar (indent + 2) cs
  | .mapping members => '\n' :: renderMembers (indent + 2) true members

def renderMembers (indent : Nat) (fresh : Bool) : List (String × Outline) → List Char
  | [] => []
  | (key, value) :: rest =>
    (if fresh then pad indent else []) ++ key.toList ++ ':' :: render indent value ++
      renderMembers indent true rest

end

def mappingText (members : List (String × Outline)) : List Char := renderMembers 0 true members

def listText (items : List (List (String × Outline))) : List Char :=
  if items.isEmpty then "[]\n".toList
  else items.flatMap fun members => '-' :: ' ' :: renderMembers 2 false members

end Outline

end PortLease.Yaml
