import PortLease.Yaml.Decode

namespace PortLease.Yaml

inductive Value where
  | null
  | bool (b : Bool)
  | int (n : Int)
  | real (r : CoreSchema.Real)
  | text (cs : List Char)
  | list (items : List Value)
  | map (members : List (Value × Value))
  | tagged (tag : List Char) (value : Value)
  deriving Repr

namespace Value

mutual

def same : Value → Value → Bool
  | .null, .null => true
  | .bool a, .bool b => a == b
  | .int a, .int b => a == b
  | .real a, .real b => a == b
  | .text a, .text b => a == b
  | .list as, .list bs => sameItems as bs
  | .map as, .map bs => as.length == bs.length && sameMembers as bs
  | .tagged s a, .tagged t b => s == t && same a b
  | _, _ => false

def sameItems : List Value → List Value → Bool
  | [], [] => true
  | a :: as, b :: bs => same a b && sameItems as bs
  | _, _ => false

def sameMembers : List (Value × Value) → List (Value × Value) → Bool
  | [], _ => true
  | (k, v) :: as, bs => (bs.any fun b => same k b.1 && same v b.2) && sameMembers as bs

end

def ofAtom? (text : List Char) : CoreSchema.Atom → Option Value
  | .null => some .null
  | .bool b => some (.bool b)
  | .int n => some (.int n)
  | .wide => none
  | .real r => some (.real r)
  | .text => some (.text text)

def ofUntagged? (text : List Char) (style : ScalarStyle) : Option Value :=
  if style = .plain then ofAtom? text (CoreSchema.atom text) else some (.text text)

def ofTyped? (tag : TagName) (text : List Char) : Option Value :=
  if tag = coreTag "bool" then (CoreSchema.bool? text).map .bool
  else if tag = coreTag "int" then (CoreSchema.whole? text).bind (ofAtom? text)
  else if tag = coreTag "float" then (CoreSchema.real? text).map fun r => .real r.normal
  else if tag = coreTag "null" then (if CoreSchema.isNull text then some .null else none)
  else some (.text text)

def ofScalar? (tag : Option TagName) (text : List Char) (style : ScalarStyle) : Option Value :=
  match tag with
  | none => ofUntagged? text style
  | some tag => if tag.isLocal then ofUntagged? text style else ofTyped? tag text

def withTag? (tag : Option TagName) (value : Value) : Option Value :=
  match tag.bind TagName.localName? with
  | none => some value
  | some [] => none
  | some name => some (.tagged name value)

def member? (members : List (Value × Value)) (key : Value) : Option Unit :=
  if members.any fun m => m.1.same key then none else some ()

def ofNode (d : Document) : (depth : Nat) → Node → Decoding Value
  | depth, node => do
    match depth, ← d.follow node with
    | _, .alias _ => failure
    | _, .scalar p cs style => StateT.lift ((ofScalar? p.tag cs style).bind (withTag? p.tag))
    | 0, _ => failure
    | depth + 1, .sequence p items =>
      let values ← items.mapM (ofNode d depth)
      StateT.lift (withTag? p.tag (.list values))
    | depth + 1, .mapping p pairs =>
      let members ← pairs.foldlM
        (fun members (key, value) => do
          let key ← ofNode d depth key
          StateT.lift (member? members key)
          let value ← ofNode d depth value
          return (key, value) :: members)
        []
      StateT.lift (withTag? p.tag (.map members.reverse))

end Value

end PortLease.Yaml
