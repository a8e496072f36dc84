import PortLease.Yaml.CoreSchema
import PortLease.Yaml.Node.Reader

namespace PortLease.Yaml

structure Document where
  root : Node
  targets : List (Nat × Node)

def Document.ofRoot (root : Node) : Document := ⟨root, root.targets⟩

def Document.budget (d : Document) : Nat := 100 * d.root.weight

abbrev Decoding := StateT Nat Option

namespace Document

def follow (d : Document) : Node → Decoding Node
  | .alias number => fun left =>
    match left with
    | 0 => none
    | left + 1 => (d.targets.lookup number).map fun node => (node, left)
  | node => pure node

def text (d : Document) (node : Node) : Decoding (List Char) := do
  match ← d.follow node with
  | .scalar _ text _ => return text
  | _ => failure

/-- Whether a scalar may be of the core type `type` if its text is: all plain ones may, and literal ones
with the tag. -/
def isOpenTo (type : String) (properties : Properties) (style : ScalarStyle) : Bool :=
  style = .plain || (style = .literal && properties.tag = some (coreTag type))

def bool (d : Document) (node : Node) : Decoding Bool := do
  match ← d.follow node with
  | .scalar properties text style =>
    if isOpenTo "bool" properties style then StateT.lift (CoreSchema.bool? text) else failure
  | _ => failure

def natBelow (d : Document) (bound : Nat) (node : Node) : Decoding Nat := do
  match ← d.follow node with
  | .scalar properties text style =>
    if isOpenTo "int" properties style then
      StateT.lift ((CoreSchema.nat? text).filter (· < bound))
    else failure
  | _ => failure

def optional {α : Type} (d : Document) (read : Node → Decoding α) (node : Node) :
    Decoding (Option α) := do
  let node ← d.follow node
  match node with
  | .scalar properties text .plain =>
    if properties.tag = some (coreTag "null") then
      if CoreSchema.isNull text then return none else failure
    else if properties.tag.isNone && (text.isEmpty || CoreSchema.isNull text) then return none
    else return some (← read node)
  | _ => return some (← read node)

def members (d : Document) (node : Node) : Decoding (List (Node × Node)) := do
  match ← d.follow node with
  | .mapping _ members => return members
  | .scalar _ [] .plain => return []
  | _ => failure

end Document

abbrev Parser := List Char → Option (Option Node)

def decode? {α : Type} (parse : Parser) (read : Document → Node → Decoding α) (text : List Char) :
    Option α :=
  (parse text).bind fun root =>
    let d := Document.ofRoot (root.getD .empty)
    ((read d d.root).run d.budget).map Prod.fst

end PortLease.Yaml
