import PortLease.Text.Quoted

namespace PortLease

inductive Json where
  | null
  | bool (b : Bool)
  | number (lexeme : List Char)
  | string (text : List Char)
  | array (items : List Json)
  | object (members : List (List Char × Json))

namespace Json

def nat (n : Nat) : Json := .number (Nat.toDigits 10 n)

def str (s : String) : Json := .string s.toList

def optional {α : Type} (f : α → Json) : Option α → Json
  | none => .null
  | some a => f a

def hexPair (n : Nat) : List Char := [Nat.digitChar (n / 16), Nat.digitChar (n % 16)]

def escapedChar (c : Char) : List Char :=
  if c = '"' then ['\\', '"']
  else if c = '\\' then ['\\', '\\']
  else if c = '\x08' then ['\\', 'b']
  else if c = '\x0c' then ['\\', 'f']
  else if c = '\n' then ['\\', 'n']
  else if c = '\r' then ['\\', 'r']
  else if c = '\t' then ['\\', 't']
  else if c.toNat < 0x20 then ['\\', 'u', '0', '0'] ++ hexPair c.toNat
  else [c]

def quoted (text : List Char) : List Char :=
  '"' :: text.flatMap escapedChar ++ ['"']

mutual

def compact : Json → List Char
  | .null => ['n', 'u', 'l', 'l']
  | .bool b => (toString b).toList
  | .number lexeme => lexeme
  | .string text => quoted text
  | .array items => '[' :: compactItems true items
  | .object members => '\x7b' :: compactMembers true members

def compactItems (first : Bool) : List Json → List Char
  | [] => [']']
  | v :: vs => (if first then [] else [',']) ++ compact v ++ compactItems false vs

def compactMembers (first : Bool) : List (List Char × Json) → List Char
  | [] => ['\x7d']
  | (k, v) :: ms =>
    (if first then [] else [',']) ++ quoted k ++ ':' :: compact v ++ compactMembers false ms

end

def newLine (level : Nat) : List Char := '\n' :: List.replicate (2 * level) ' '

mutual

def pretty (level : Nat) : Json → List Char
  | .null => ['n', 'u', 'l', 'l']
  | .bool b => (toString b).toList
  | .number lexeme => lexeme
  | .string text => quoted text
  | .array [] => ['[', ']']
  | .array (v :: vs) =>
    '[' :: newLine (level + 1) ++ pretty (level + 1) v ++ prettyItems level vs
  | .object [] => ['\x7b', '\x7d']
  | .object ((k, v) :: ms) =>
    '\x7b' :: newLine (level + 1) ++ quoted k ++ [':', ' '] ++ pretty (level + 1) v ++
      prettyMembers level ms

def prettyItems (level : Nat) : List Json → List Char
  | [] => newLine level ++ [']']
  | v :: vs => ',' :: newLine (level + 1) ++ pretty (level + 1) v ++ prettyItems level vs

def prettyMembers (level : Nat) : List (List Char × Json) → List Char
  | [] => newLine level ++ ['\x7d']
  | (k, v) :: ms =>
    ',' :: newLine (level + 1) ++ quoted k ++ [':', ' '] ++ pretty (level + 1) v ++
      prettyMembers level ms

end

def compactText (v : Json) : String := String.ofList v.compact

def prettyText (v : Json) : String := String.ofList (v.pretty 0)

end Json

end PortLease
