import PortLease.Yaml.Scalar.Block
import PortLease.Yaml.Scalar.Plain
import PortLease.Yaml.Scalar.Quoted
import PortLease.Yaml.Token.Tag

/-!
From text to tokens. A key that is not marked as one is recognised by the colon behind it, so wherever
one may begin the place is kept until the colon comes, its line ends or it grows too long.
-/

namespace PortLease.Yaml

structure PossibleKey where
  required : Bool
  place : Place
  position : Nat
  deriving DecidableEq, Repr

def PossibleKey.isPast (key : PossibleKey) (p : Place) : Bool :=
  key.place.line < p.line || key.place.index + 1024 < p.index

structure Lexer where
  cursor : Cursor
  tokens : Array Token := #[]
  indents : List Nat := []
  key : Option PossibleKey := none
  outerKeys : List (Option PossibleKey) := []
  keyAllowed : Bool := true
  deriving Repr

namespace Lexer

def ofText (text : List Char) : Lexer := { cursor := { rest := text } }

def flow (l : Lexer) : Bool := !l.outerKeys.isEmpty

def least (l : Lexer) : Nat :=
  match l.indents with
  | [] => 0
  | column :: _ => column + 1

def column (l : Lexer) : Nat := l.cursor.place.column

def put (l : Lexer) (token : Token) : Lexer := { l with tokens := l.tokens.push token }

def insert (l : Lexer) (position : Nat) (new : List Token) : Lexer :=
  { l with tokens := new.foldr (fun token tokens => tokens.insertIdxIfInBounds position token) l.tokens }

def closeBlocks (l : Lexer) (least : Nat) : Lexer :=
  if l.flow then l
  else
    { l with
      indents := l.indents.dropWhile (least ≤ ·)
      tokens := (l.indents.takeWhile (least ≤ ·)).foldl (fun ts _ => ts.push .blockEnd) l.tokens }

def opensBlock (l : Lexer) (column : Nat) : Bool := !l.flow && l.least ≤ column

def openBlock (l : Lexer) (start : Token) : Lexer :=
  if l.opensBlock l.column then { l.put start with indents := l.column :: l.indents } else l

def dropKey? (l : Lexer) : Option Lexer :=
  if l.key.any PossibleKey.required then none else some { l with key := none }

def saveKey? (l : Lexer) : Option Lexer :=
  if l.keyAllowed then
    l.dropKey?.map fun l =>
      { l with key := some {
          required := !l.flow && l.indents.head? = some l.column
          place := l.cursor.place
          position := l.tokens.size } }
  else some l

def refresh? (p : Place) : Option PossibleKey → Option (Option PossibleKey)
  | some key => if key.isPast p then (if key.required then none else some none) else some (some key)
  | none => some none

def refreshKeys? (l : Lexer) : Option Lexer := do
  let key ← refresh? l.cursor.place l.key
  let outerKeys ← l.outerKeys.mapM (refresh? l.cursor.place)
  return { l with key, outerKeys }

def skipSpace (flow : Bool) : List Char → Place → (keyAllowed comment : Bool) → Cursor × Bool
  | [], p, keyAllowed, _ => (⟨[], p⟩, keyAllowed)
  | c :: cs, p, keyAllowed, comment =>
    if isBreak c then skipSpace flow cs (p.after c) (keyAllowed || !flow) false
    else if comment || c = ' ' || (c = '\t' && (flow || !keyAllowed)) ||
        (c = '\uFEFF' && p.index = 0) then
      skipSpace flow cs (p.after c) keyAllowed comment
    else if c = '#' then skipSpace flow cs (p.after c) keyAllowed true
    else (⟨c :: cs, p⟩, keyAllowed)

def approach? (l : Lexer) : Option Lexer := do
  let (cursor, keyAllowed) := skipSpace l.flow l.cursor.rest l.cursor.place l.keyAllowed false
  let l ← ({ l with cursor, keyAllowed }).refreshKeys?
  return l.closeBlocks (l.column + 1)

def advance (l : Lexer) (token : Token) (cursor : Cursor) (keyAllowed : Bool) : Lexer :=
  { l.put token with cursor, keyAllowed }

def topLevel? (l : Lexer) (token : Token) (cursor : Cursor) : Option Lexer :=
  (l.closeBlocks 0).dropKey?.map (·.advance token cursor false)

def documentMark? (l : Lexer) (token : Token) : Option Lexer :=
  l.topLevel? token l.cursor.tail.tail.tail

def openFlow? (l : Lexer) (start : Token) : Option Lexer :=
  l.saveKey?.map fun l =>
    { l.advance start l.cursor.tail true with key := none, outerKeys := l.key :: l.outerKeys }

def closeFlow? (l : Lexer) (stop : Token) : Option Lexer :=
  l.dropKey?.map fun l =>
    let l := l.advance stop l.cursor.tail false
    match l.outerKeys with
    | [] => l
    | key :: outerKeys => { l with key, outerKeys }

def flowEntry? (l : Lexer) : Option Lexer :=
  l.dropKey?.map fun l => l.advance .flowEntry l.cursor.tail true

def indicator? (l : Lexer) (start token : Token) (keyAllowed : Bool) : Option Lexer :=
  if l.flow || l.keyAllowed then
    (l.openBlock start).dropKey?.map fun l => l.advance token l.cursor.tail keyAllowed
  else none

def value? (l : Lexer) : Option Lexer :=
  match l.key with
  | some key =>
    let start := if l.opensBlock key.place.column then [Token.blockMapping] else []
    let indents := if l.opensBlock key.place.column then key.place.column :: l.indents else l.indents
    let l := { l.insert key.position (start ++ [.key]) with key := none, indents }
    some (l.advance .value l.cursor.tail false)
  | none =>
    if l.flow || l.keyAllowed then
      let l := l.openBlock .blockMapping
      some (l.advance .value l.cursor.tail !l.flow)
    else none

def content? (l : Lexer) (read : Cursor → Option (Token × Cursor)) : Option Lexer := do
  let l ← l.saveKey?
  let (token, cursor) ← read l.cursor
  return l.advance token cursor false

def readQuoted? (double : Bool) (k : Cursor) : Option (Token × Cursor) :=
  (Quoted.read? double k).map fun (text, k) =>
    (.scalar text (if double then .doubleQuoted else .singleQuoted), k)

def plain? (l : Lexer) : Option Lexer := do
  let l ← l.saveKey?
  let (text, broken, cursor) ← Plain.read? l.flow l.least l.cursor
  return l.advance (.scalar text .plain) cursor broken

def block? (l : Lexer) (folded : Bool) : Option Lexer := do
  let l ← l.dropKey?
  let (text, cursor) ← Block.read? folded l.least l.cursor
  return l.advance (.scalar text (if folded then .folded else .literal)) cursor true

def isIndicator (c : Char) : Bool :=
  "-?:,[]\x7b\x7d#&*!|>\x27\"%@\x60".toList.contains c

def beginsPlain (flow : Bool) (c : Char) (rest : List Char) : Bool :=
  !(isSpacing c || isIndicator c) || (c = '-' && !endsWord rest) ||
    (!flow && (c = '?' || c = ':') && !endsWord rest)

def token? (l : Lexer) (c : Char) (rest : List Char) : Option Lexer :=
  if l.column = 0 && c = '%' then do
    let (token, cursor) ← Directive.read? l.cursor
    l.topLevel? token cursor
  else if l.cursor.atDocumentMark then
    l.documentMark? (if c = '-' then .documentStart else .documentEnd)
  else if c = '[' then l.openFlow? .flowSequence
  else if c = '\x7b' then l.openFlow? .flowMapping
  else if c = ']' then l.closeFlow? .flowSequenceEnd
  else if c = '\x7d' then l.closeFlow? .flowMappingEnd
  else if c = ',' then l.flowEntry?
  else if c = '-' && endsWord rest then l.indicator? .blockSequence .blockEntry true
  else if c = '?' && (l.flow || endsWord rest) then l.indicator? .blockMapping .key !l.flow
  else if c = ':' && (l.flow || endsWord rest) then l.value?
  else if c = '*' then l.content? fun k => (readName? k.tail).map fun (n, k) => (.alias n, k)
  else if c = '&' then l.content? fun k => (readName? k.tail).map fun (n, k) => (.anchor n, k)
  else if c = '!' then l.content? (Tag.read? l.flow)
  else if c = '|' && !l.flow then l.block? false
  else if c = '>' && !l.flow then l.block? true
  else if c = '\x27' then l.content? (readQuoted? false)
  else if c = '"' then l.content? (readQuoted? true)
  else if beginsPlain l.flow c rest then l.plain?
  else none

def tokens? : (fuel : Nat) → Lexer → Option (Array Token)
  | 0, _ => none
  | fuel + 1, l => do
    let l ← l.approach?
    match l.cursor.rest with
    | [] =>
      let l ← (l.closeBlocks 0).dropKey?
      return l.tokens
    | c :: rest => tokens? fuel (← l.token? c rest)

end Lexer

def Token.ofText? (text : List Char) : Option (List Token) :=
  (Lexer.tokens? (text.length + 1) (.ofText text)).map Array.toList

end PortLease.Yaml
