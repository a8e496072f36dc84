import Mathlib.Data.List.Defs
import Mathlib.Data.Nat.Digits.Defs
import PortLease.Yaml.CoreSchema

/-!
What is relied on of the resolution of plain words, whoever carries it out: which of them are null, truth values
or whole numbers in the core schema.
-/

namespace PortLease.Yaml.CoreSchema

/-- Digits below the radix, the first one for the most. -/
def Digits (radix : Nat) (cs : List Char) (n : Nat) : Prop :=
  ∃ ds : List Nat, cs ≠ [] ∧ List.Forall₂ (fun c d => hexValue? c = some d ∧ d < radix) cs ds ∧
    n = Nat.ofDigits radix ds.reverse

/-- A whole number without a sign. Decimal digits have no needless zero before them. -/
inductive Numeral : List Char → Nat → Prop
  | decimal {cs : List Char} {n : Nat} (h : Digits 10 cs n) (hzero : cs.head? = some '0' → cs = ['0']) :
      Numeral cs n
  | marked {mark : Char} {radix : Nat} {digits : List Char} {n : Nat}
      (hmark : (mark, radix) ∈ [('x', 16), ('o', 8), ('b', 2)]) (h : Digits radix digits n) :
      Numeral ('0' :: mark :: digits) n

def nullWords : List String := ["null", "Null", "NULL"]

def trueWords : List String := ["true", "True", "TRUE"]

def falseWords : List String := ["false", "False", "FALSE"]

/-- Words that begin with a letter are text with a few exceptions. One that begins with a digit may also be a
number with a fraction or an exponent, unless it is a whole number of at most 128 bits. -/
structure Resolution (resolve : List Char → Atom) : Prop where
  null : ∀ word ∈ nullWords, resolve word.toList = .null
  yes : ∀ word ∈ trueWords, resolve word.toList = .bool true
  no : ∀ word ∈ falseWords, resolve word.toList = .bool false
  text : ∀ {c : Char} {cs : List Char}, c.isAlpha = true →
    String.ofList (c :: cs) ∉ nullWords ++ trueWords ++ falseWords → resolve (c :: cs) = .text
  int : ∀ {cs : List Char} {n : Nat}, Numeral cs n → n < Nat.pow 2 64 → resolve cs = .int (Int.ofNat n)
  wide : ∀ {cs : List Char} {n : Nat}, Numeral cs n → Nat.pow 2 64 ≤ n → n < Nat.pow 2 128 → resolve cs = .wide
  digit : ∀ {c : Char} {cs : List Char}, Text.isDigit c = true →
    (∀ n < Nat.pow 2 128, ¬ Numeral (c :: cs) n) → resolve (c :: cs) = .text ∨ ∃ r, resolve (c :: cs) = .real r

end PortLease.Yaml.CoreSchema
