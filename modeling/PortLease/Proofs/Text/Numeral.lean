import Mathlib.Data.Nat.Digits.Defs
import PortLease.Text.Numeral

namespace PortLease.Text

variable {bound n : Nat} {cs : List Char}

/-- Decimal digits, with or without a plus sign before them, for a number below the bound. -/
def Numeral (bound : Nat) (cs : List Char) (n : Nat) : Prop :=
  ∃ digits : List Char, (cs = digits ∨ cs = '+' :: digits) ∧ digits ≠ [] ∧
    (∀ c ∈ digits, '0' ≤ c ∧ c ≤ '9') ∧
    n = Nat.ofDigits 10 (digits.reverse.map fun c => c.toNat - '0'.toNat) ∧ n < bound

theorem digitsValue_eq (cs : List Char) :
    digitsValue cs = Nat.ofDigits 10 (cs.reverse.map fun c => c.toNat - '0'.toNat) := by
  rw [Nat.ofDigits_eq_foldr, digitsValue, ← List.foldr_reverse, List.foldr_map]
  congr 1
  funext c n
  simp only [digitValue, Nat.cast_id]
  omega

theorem digits?_eq_some_iff : digits? cs = some n ↔
    cs ≠ [] ∧ (∀ c ∈ cs, '0' ≤ c ∧ c ≤ '9') ∧
      n = Nat.ofDigits 10 (cs.reverse.map fun c => c.toNat - '0'.toNat) := by
  have hall : cs.all isDigit = true ↔ ∀ c ∈ cs, '0' ≤ c ∧ c ≤ '9' := by
    simp [isDigit]
  rw [← digitsValue_eq, ← hall]
  unfold digits?
  split
  · rename_i hnil
    simp [List.isEmpty_iff.mp hnil]
  · rename_i hnil
    have hne : cs ≠ [] := fun h => hnil (List.isEmpty_iff.mpr h)
    split
    · rename_i hdigits
      simp only [Option.some.injEq, ne_eq, hne, not_false_eq_true, hdigits, true_and]
      exact eq_comm
    · rename_i hdigits
      simp [hdigits]

theorem digits?_plus (rest : List Char) : digits? ('+' :: rest) = none := by
  cases h : digits? ('+' :: rest) with
  | none => rfl
  | some n =>
    have hplus := (digits?_eq_some_iff.mp h).2.1 '+' List.mem_cons_self
    exact absurd hplus (by decide)

theorem natBelow?_eq_some_iff : natBelow? bound cs = some n ↔ Numeral bound cs n := by
  have hiff (digits : List Char) : (digits? digits).filter (· < bound) = some n ↔
      digits ≠ [] ∧ (∀ c ∈ digits, '0' ≤ c ∧ c ≤ '9') ∧
        n = Nat.ofDigits 10 (digits.reverse.map fun c => c.toNat - '0'.toNat) ∧ n < bound := by
    rw [Option.filter_eq_some_iff, digits?_eq_some_iff, decide_eq_true_eq, and_assoc, and_assoc]
  unfold natBelow? Numeral
  split
  · rename_i rest
    rw [hiff]
    constructor
    · exact fun h => ⟨rest, .inr rfl, h⟩
    · rintro ⟨digits, rfl | hcs, h⟩
      · rw [← hiff, digits?_plus] at h
        cases h
      · rwa [List.cons.inj hcs |>.2]
  · rename_i hplus
    rw [hiff]
    constructor
    · exact fun h => ⟨cs, .inl rfl, h⟩
    · rintro ⟨digits, rfl | hcs, h⟩
      · exact h
      · exact absurd hcs (hplus digits)

end PortLease.Text
