import PortLease.Yaml.Decode
import PortLease.Yaml.Writer

/-!
What is relied on of the parser and of the printer, whichever they are: what is printed is parsed as nodes that
hold it.
-/

namespace PortLease.Yaml

namespace Outline

structure IsWord (word : String) : Prop where
  ne : word.toList ≠ []
  letters : ∀ c ∈ word.toList, c.isAlphanum = true

instance (word : String) : Decidable (IsWord word) :=
  decidable_of_iff (word.toList ≠ [] ∧ word.toList.all Char.isAlphanum = true)
    ⟨fun h => ⟨h.1, List.all_eq_true.mp h.2⟩, fun h => ⟨h.1, List.all_eq_true.mpr h.2⟩⟩

structure IsKey (word : String) : Prop extends IsWord word where
  short : word.toList.length ≤ 1024

instance (word : String) : Decidable (IsKey word) :=
  decidable_of_iff (IsWord word ∧ word.toList.length ≤ 1024) ⟨fun h => ⟨h.1, h.2⟩, fun h => ⟨h.1, h.2⟩⟩

mutual

def Proper : Outline → Prop
  | .word w => IsWord w
  | .text _ => True
  | .mapping members => members ≠ [] ∧ ProperMembers members

def ProperMembers : List (String × Outline) → Prop
  | [] => True
  | (key, value) :: rest => IsKey key ∧ value.Proper ∧ ProperMembers rest

end

theorem proper_bool (b : Bool) : (bool b).Proper := by
  rw [bool, Proper]
  cases b <;> decide

theorem proper_nat (n : Nat) : (nat n).Proper := by
  have hdigits : (toString n).toList = Nat.toDigits 10 n := Nat.toList_repr
  rw [nat, Proper]
  refine ⟨?_, fun c hc => ?_⟩
  · rw [hdigits]
    exact Nat.toDigits_ne_nil
  · rw [hdigits] at hc
    rw [Char.isAlphanum, Nat.isDigit_of_mem_toDigits (by decide) (by decide) hc, Bool.or_true]

theorem proper_optional {α : Type} {f : α → Outline} (h : ∀ a, (f a).Proper) (value : Option α) :
    (optional f value).Proper := by
  cases value with
  | none =>
    rw [optional, Proper]
    decide
  | some a => exact h a

mutual

/-- The node holds what the outline says: words are plain, and a text that is plain is not taken for anything
else. -/
def Denotes : Outline → Node → Prop
  | .word w, node => node = .scalar {} w.toList .plain
  | .text cs, node => ∃ style, node = .scalar {} cs style ∧ (style = .plain → CoreSchema.atom cs = .text)
  | .mapping members, node => ∃ nodes, node = .mapping {} nodes ∧ DenotesMembers members nodes

def DenotesMembers : List (String × Outline) → List (Node × Node) → Prop
  | [], nodes => nodes = []
  | (key, value) :: members, nodes => ∃ node rest, nodes = (.scalar {} key.toList .plain, node) :: rest ∧
      value.Denotes node ∧ DenotesMembers members rest

end

end Outline

/-- Members that are printed come back, and so does a word as the only member, whether or not its line ends. -/
structure RoundTrip (parse : Parser) (print : List (String × Outline) → List Char) : Prop where
  printed : ∀ {members}, members ≠ [] → Outline.ProperMembers members →
    ∃ node, parse (print members) = some (some node) ∧ (Outline.mapping members).Denotes node
  line : ∀ {key word : String} {ending : List Char}, Outline.IsKey key → Outline.IsWord word →
    ending = [] ∨ ending = ['\n'] →
    ∃ node, parse (key.toList ++ ':' :: ' ' :: word.toList ++ ending) = some (some node) ∧
      (Outline.mapping [(key, .word word)]).Denotes node

end PortLease.Yaml
