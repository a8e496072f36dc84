/-!
UTF-8, read one byte at a time. A byte that cannot continue what came before it ends an invalid
stretch and is looked at afresh, so each maximal invalid stretch is reported once.
-/

namespace PortLease.Text.Utf8

/-- What the bytes read so far call for: a new character, or `left` more bytes of one, the next of
them between `low` and `high`. -/
inductive Pending where
  | ground
  | tail (left : Nat) (low high : Nat) (value : Nat)
  deriving DecidableEq, Repr

def lead (b : Nat) : Option Char ⊕ Pending :=
  if b < 0x80 then .inl (some (Char.ofNat b))
  else if 0xC2 ≤ b ∧ b ≤ 0xDF then .inr (.tail 1 0x80 0xBF (b - 0xC0))
  else if b = 0xE0 then .inr (.tail 2 0xA0 0xBF 0)
  else if b = 0xED then .inr (.tail 2 0x80 0x9F 0xD)
  else if 0xE1 ≤ b ∧ b ≤ 0xEF then .inr (.tail 2 0x80 0xBF (b - 0xE0))
  else if b = 0xF0 then .inr (.tail 3 0x90 0xBF 0)
  else if 0xF1 ≤ b ∧ b ≤ 0xF3 then .inr (.tail 3 0x80 0xBF (b - 0xF0))
  else if b = 0xF4 then .inr (.tail 3 0x80 0x8F 4)
  else .inl none

def itemsFrom : Pending → List UInt8 → List (Option Char)
  | .ground, [] => []
  | .tail .., [] => [none]
  | .ground, b :: bs =>
    match lead b.toNat with
    | .inl c => c :: itemsFrom .ground bs
    | .inr state => itemsFrom state bs
  | .tail left low high value, b :: bs =>
    if low ≤ b.toNat ∧ b.toNat ≤ high then
      let value' := value * 64 + (b.toNat - 0x80)
      if left ≤ 1 then some (Char.ofNat value') :: itemsFrom .ground bs
      else itemsFrom (.tail (left - 1) 0x80 0xBF value') bs
    else
      match lead b.toNat with
      | .inl c => none :: c :: itemsFrom .ground bs
      | .inr state => none :: itemsFrom state bs

def items (bs : List UInt8) : List (Option Char) := itemsFrom .ground bs

def decode? (bs : List UInt8) : Option (List Char) := (items bs).mapM id

def decodeLossy (bs : List UInt8) : List Char :=
  (items bs).map fun c => c.getD '\uFFFD'

def encode (cs : List Char) : List UInt8 :=
  cs.flatMap String.utf8EncodeChar

end PortLease.Text.Utf8
