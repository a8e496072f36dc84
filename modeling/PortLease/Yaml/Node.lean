import PortLease.Text.Utf8
import PortLease.Yaml.Token

namespace PortLease.Yaml

abbrev TagName := List UInt8

structure Properties where
  anchor : Option Nat := none
  tag : Option TagName := none
  deriving DecidableEq, Repr

inductive Node where
  | alias (number : Nat)
  | scalar (properties : Properties) (text : List Char) (style : ScalarStyle)
  | sequence (properties : Properties) (items : List Node)
  | mapping (properties : Properties) (members : List (Node × Node))
  deriving Repr

namespace Node

def empty : Node := .scalar {} [] .plain

def properties : Node → Properties
  | .alias _ => {}
  | .scalar p .. | .sequence p _ | .mapping p _ => p

mutual

def nodes : Node → List Node
  | .sequence p items => .sequence p items :: nodesOfItems items
  | .mapping p members => .mapping p members :: nodesOfMembers members
  | node => [node]

def nodesOfItems : List Node → List Node
  | [] => []
  | node :: rest => node.nodes ++ nodesOfItems rest

def nodesOfMembers : List (Node × Node) → List Node
  | [] => []
  | (key, value) :: rest => key.nodes ++ value.nodes ++ nodesOfMembers rest

end

def weight (node : Node) : Nat :=
  (node.nodes.map fun
    | .sequence .. | .mapping .. => 2
    | _ => 1).foldr (· + ·) 0

def targets (root : Node) : List (Nat × Node) :=
  root.nodes.reverse.filterMap fun node => node.properties.anchor.map fun number => (number, node)

end Node

def coreTag (name : String) : TagName := Text.Utf8.encode ("tag:yaml.org,2002:" ++ name).toList

def TagName.isLocal (tag : TagName) : Bool := tag.head? == some 0x21

def TagName.localName? (tag : TagName) : Option (List Char) :=
  if TagName.isLocal tag then Text.Utf8.decode? (tag.drop 1) else none

end PortLease.Yaml
