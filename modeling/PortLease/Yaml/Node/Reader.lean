import PortLease.Yaml.Node
import PortLease.Yaml.Token.Lexer

namespace PortLease.Yaml

structure Reading where
  tokens : List Token
  handles : List (List Char × TagName) := []
  anchors : List (List Char × Nat) := []
  deriving Repr

namespace Reading

def head? (r : Reading) : Option Token := r.tokens.head?

def tail (r : Reading) : Reading := { r with tokens := r.tokens.tail }

def declare (r : Reading) (name : List Char) : Nat × Reading :=
  let number := r.anchors.length
  (number, { r with anchors := (name, number) :: r.anchors.filter fun a => a.1 != name })

def tagName? (r : Reading) (handle : List Char) (suffix : List UInt8) : Option TagName :=
  if handle.isEmpty then some suffix
  else (r.handles.lookup handle).map (· ++ suffix)

def properties? (r : Reading) : Option (Option (List Char) × Option TagName × Reading) :=
  match r.tokens with
  | .anchor name :: .tag handle suffix :: _ | .tag handle suffix :: .anchor name :: _ =>
    (r.tagName? handle suffix).map fun tag => (some name, some tag, r.tail.tail)
  | .anchor name :: _ => some (some name, none, r.tail)
  | .tag handle suffix :: _ => (r.tagName? handle suffix).map fun tag => (none, some tag, r.tail)
  | _ => some (none, none, r)

/-- Where a node may stand: inside a block collection, behind a key or a colon of a block mapping, or
between brackets. -/
inductive Context where
  | block
  | blockMember
  | flow
  deriving DecidableEq, Repr

def isGap (ends : List Token) (token : Option Token) : Bool :=
  token.any ends.contains

def entryEnds : List Token := [.blockEntry, .blockEnd]

def bareEntryEnds : List Token := [.blockEntry, .key, .value, .blockEnd]

def memberEnds : List Token := [.key, .value, .blockEnd]

def pairKeyEnds : List Token := [.value, .flowEntry, .flowSequenceEnd]

def pairValueEnds : List Token := [.flowEntry, .flowSequenceEnd]

def flowKeyEnds : List Token := [.value, .flowEntry, .flowMappingEnd]

def flowValueEnds : List Token := [.flowEntry, .flowMappingEnd]

mutual

def node? : (fuel : Nat) → Context → Reading → Option (Node × Reading)
  | 0, _, _ => none
  | fuel + 1, context, r =>
    match r.tokens with
    | .alias name :: _ => (r.anchors.lookup name).map fun number => (.alias number, r.tail)
    | _ => do
      let (name, tag, r) ← r.properties?
      let (anchor, declared) := match name with
        | none => (none, r)
        | some name =>
          let (number, r) := r.declare name
          (some number, r)
      let properties : Properties := { anchor, tag }
      match declared.head? with
      | some (.scalar text style) =>
        let tag := if tag = some (Tag.ofAscii ['!']) then none else tag
        return (.scalar { anchor, tag } text style, declared.tail)
      | some .flowSequence =>
        let (items, r) ← flowItems? fuel true declared.tail
        return (.sequence properties items, r)
      | some .flowMapping =>
        let (members, r) ← flowMembers? fuel true declared.tail
        return (.mapping properties members, r)
      | token =>
        if token = some .blockEntry ∧ context = .blockMember then
          let (items, r) ← bareItems? fuel declared
          return (.sequence properties items, r)
        else if token = some .blockSequence ∧ context ≠ .flow then
          let (items, r) ← blockItems? fuel declared.tail
          return (.sequence properties items, r)
        else if token = some .blockMapping ∧ context ≠ .flow then
          let (members, r) ← blockMembers? fuel declared.tail
          return (.mapping properties members, r)
        else if name.isSome || tag.isSome then
          return (.scalar properties [] .plain, declared)
        else none

def nodeOrEmpty? : (fuel : Nat) → Context → (ends : List Token) → Reading → Option (Node × Reading)
  | 0, _, _, _ => none
  | fuel + 1, context, ends, r =>
    if isGap ends r.head? then some (.empty, r) else node? fuel context r

def blockItems? : (fuel : Nat) → Reading → Option (List Node × Reading)
  | 0, _ => none
  | fuel + 1, r =>
    match r.head? with
    | some .blockEntry => do
      let (item, r) ← nodeOrEmpty? fuel .block entryEnds r.tail
      let (items, r) ← blockItems? fuel r
      return (item :: items, r)
    | some .blockEnd => some ([], r.tail)
    | _ => none

def bareItems? : (fuel : Nat) → Reading → Option (List Node × Reading)
  | 0, _ => none
  | fuel + 1, r =>
    match r.head? with
    | some .blockEntry => do
      let (item, r) ← nodeOrEmpty? fuel .block bareEntryEnds r.tail
      let (items, r) ← bareItems? fuel r
      return (item :: items, r)
    | _ => some ([], r)

def blockMembers? : (fuel : Nat) → Reading → Option (List (Node × Node) × Reading)
  | 0, _ => none
  | fuel + 1, r =>
    match r.head? with
    | some .key => do
      let (key, r) ← nodeOrEmpty? fuel .blockMember memberEnds r.tail
      let (value, r) ← valueOrEmpty? fuel .blockMember memberEnds r
      let (members, r) ← blockMembers? fuel r
      return ((key, value) :: members, r)
    | some .blockEnd => some ([], r.tail)
    | _ => none

def valueOrEmpty? : (fuel : Nat) → Context → (ends : List Token) → Reading → Option (Node × Reading)
  | 0, _, _, _ => none
  | fuel + 1, context, ends, r =>
    if r.head? = some .value then nodeOrEmpty? fuel context ends r.tail else some (.empty, r)

def flowItems? : (fuel : Nat) → (first : Bool) → Reading → Option (List Node × Reading)
  | 0, _, _ => none
  | fuel + 1, first, r =>
    if r.head? = some .flowSequenceEnd then some ([], r.tail)
    else if !first && r.head? ≠ some .flowEntry then none
    else
      let r := if first then r else r.tail
      match r.head? with
      | some .flowSequenceEnd => some ([], r.tail)
      | some .key => do
        let r := r.tail
        let (key, r) ←
          if isGap pairKeyEnds r.head? then some (.empty, r.tail) else node? fuel .flow r
        let (value, r) ← valueOrEmpty? fuel .flow pairValueEnds r
        let (items, r) ← flowItems? fuel false r
        return (.mapping {} [(key, value)] :: items, r)
      | _ => do
        let (item, r) ← node? fuel .flow r
        let (items, r) ← flowItems? fuel false r
        return (item :: items, r)

def flowMembers? : (fuel : Nat) → (first : Bool) → Reading → Option (List (Node × Node) × Reading)
  | 0, _, _ => none
  | fuel + 1, first, r =>
    if r.head? = some .flowMappingEnd then some ([], r.tail)
    else if !first && r.head? ≠ some .flowEntry then none
    else
      let r := if first then r else r.tail
      match r.head? with
      | some .flowMappingEnd => some ([], r.tail)
      | some .key => do
        let (key, r) ← nodeOrEmpty? fuel .flow flowKeyEnds r.tail
        let (value, r) ← valueOrEmpty? fuel .flow flowValueEnds r
        let (members, r) ← flowMembers? fuel false r
        return ((key, value) :: members, r)
      | _ => do
        let (key, r) ← node? fuel .flow r
        let (members, r) ← flowMembers? fuel false r
        return ((key, .empty) :: members, r)

end

def directives? (versioned : Bool) : List Token → List (List Char × TagName) →
    Option (List Token × List (List Char × TagName))
  | .version major minor :: tokens, handles =>
    if versioned || major ≠ 1 || (minor ≠ 1 && minor ≠ 2) then none
    else directives? true tokens handles
  | .tagHandle handle expansion :: tokens, handles =>
    if (handles.lookup handle).isSome then none
    else directives? versioned tokens ((handle, expansion) :: handles)
  | tokens, handles => some (tokens, handles)

def defaultHandles : List (List Char × TagName) :=
  [(['!'], Tag.ofAscii ['!']), (['!', '!'], coreTag "")]

def depth (tokens : List Token) : Nat := 4 * tokens.length + 4

def finish? (root : Node) (r : Reading) : Option Node :=
  if r.tokens.all (· = .documentEnd) then some root else none

def markedDocument? (r : Reading) : Option Node :=
  match r.tokens with
  | [] | .documentEnd :: _ => finish? .empty r
  | .version .. :: _ | .tagHandle .. :: _ | .documentStart :: _ => none
  | tokens => (node? (depth tokens) .block r).bind fun (root, r) => finish? root r

end Reading

def Node.ofTokens? (tokens : List Token) : Option (Option Node) :=
  match tokens with
  | [] => some none
  | .version .. :: _ | .tagHandle .. :: _ | .documentStart :: _ => do
    let (tokens, handles) ← Reading.directives? false tokens []
    match tokens with
    | .documentStart :: tokens =>
      let r : Reading := { tokens, handles := handles ++ Reading.defaultHandles }
      return some (← r.markedDocument?)
    | _ => none
  | _ =>
    let r : Reading := { tokens, handles := Reading.defaultHandles }
    (Reading.node? (Reading.depth tokens) .block r).bind fun (root, r) =>
      (Reading.finish? root r).map some

def Node.ofText? (text : List Char) : Option (Option Node) :=
  (readable? text).bind fun text => (Token.ofText? text).bind Node.ofTokens?

end PortLease.Yaml
