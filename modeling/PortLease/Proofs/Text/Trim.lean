import Mathlib.Data.List.DropRight
import PortLease.Text.Blank

namespace PortLease.Text

variable {before after : List Char} {c : Char}

theorem trim_eq (cs : List Char) : trim cs = (cs.dropWhile isBlank).rdropWhile isBlank := rfl

theorem rdropWhile_append_blanks (cs : List Char) (h : ∀ c ∈ after, isBlank c = true) :
    (cs ++ after).rdropWhile isBlank = cs.rdropWhile isBlank := by
  rw [List.rdropWhile, List.reverse_append, List.dropWhile_append_of_pos]
  · rfl
  · exact fun c hc => h c (List.mem_reverse.mp hc)

theorem trim_append (body : List Char) (hbefore : ∀ c ∈ before, isBlank c = true)
    (hafter : ∀ c ∈ after, isBlank c = true) : trim (before ++ body ++ after) = trim body := by
  rw [trim_eq, trim_eq, List.append_assoc, List.dropWhile_append_of_pos hbefore, List.dropWhile_append]
  split
  · rename_i hblank
    rw [List.isEmpty_iff.mp hblank, List.dropWhile_eq_nil_iff.mpr hafter]
  · exact rdropWhile_append_blanks _ hafter

theorem trim_eq_self {cs : List Char} (h : ∀ c ∈ cs, isBlank c = false) : trim cs = cs := by
  have hhead : cs.dropWhile isBlank = cs := List.dropWhile_eq_self_iff.mpr fun hpos => by
    rw [h _ (List.getElem_mem hpos)]
    exact Bool.false_ne_true
  rw [trim_eq, hhead, List.rdropWhile_eq_self_iff]
  intro hne
  rw [h _ (List.getLast_mem hne)]
  exact Bool.false_ne_true

theorem trim_ne_nil {cs : List Char} (hc : isBlank c = false) : trim (c :: cs) ≠ [] := by
  rw [trim_eq, List.dropWhile_cons_of_neg (by simp [hc]), Ne, List.rdropWhile_eq_nil_iff]
  intro h
  rw [h c List.mem_cons_self] at hc
  cases hc

theorem trim_trim (cs : List Char) : trim (trim cs) = trim cs := by
  obtain ⟨after, hafter⟩ := List.rdropWhile_prefix isBlank (cs.dropWhile isBlank)
  rw [← trim_eq] at hafter
  have hhead : (trim cs).dropWhile isBlank = trim cs := by
    cases htrim : trim cs with
    | nil => rfl
    | cons c body =>
      rw [htrim] at hafter
      have hstop := List.head?_dropWhile_not isBlank cs
      rw [← hafter] at hstop
      have hc : isBlank c = false := hstop
      rw [List.dropWhile_cons, hc]
      rfl
  rw [trim_eq, hhead]
  exact List.rdropWhile_idempotent isBlank _

theorem ne_of_test {q : Char → Bool} {d : Char} (hc : q c = true) (hd : q d = false) : c ≠ d :=
  ne_of_apply_ne q (by simp [hc, hd])

theorem letter_induction {P : Char → Prop} (h : ∀ n : Fin 128, (Char.ofNat n).isAlphanum = true → P (Char.ofNat n))
    (hc : c.isAlphanum = true) : P c := by
  have hascii : c.toNat < 128 := by
    have hkinds : (c.isUpper || c.isLower || c.isDigit) = true := hc
    simp only [Bool.or_eq_true] at hkinds
    obtain (hupper | hlower) | hdigit := hkinds
    · exact Nat.lt_of_le_of_lt (of_decide_eq_true hupper).2 (by decide)
    · exact Nat.lt_of_le_of_lt (of_decide_eq_true (Bool.and_eq_true_iff.mp hlower).2) (by decide)
    · exact Nat.lt_of_le_of_lt (of_decide_eq_true (Bool.and_eq_true_iff.mp hdigit).2) (by decide)
  have hletter := h ⟨c.toNat, hascii⟩
  rw [Char.ofNat_toNat] at hletter
  exact hletter hc

theorem toUpper_eq_self (h : c.isLower = false) : c.toUpper = c := by
  refine dif_neg fun hlower => Bool.false_ne_true (h.symm.trans ?_)
  exact Bool.and_eq_true_iff.mpr ⟨decide_eq_true hlower.1, decide_eq_true hlower.2⟩

theorem toLower_eq_self (h : c.isUpper = false) : c.toLower = c :=
  dif_neg fun hupper => Bool.false_ne_true (h.symm.trans (decide_eq_true hupper))

theorem case_induction {P : Char → Prop}
    (hletter : ∀ n : Fin 128, (Char.ofNat n).isAlphanum = true → P (Char.ofNat n))
    (hone : ∀ c : Char, c.toUpper = c → c.toLower = c → P c) (c : Char) : P c := by
  cases hc : c.isAlphanum with
  | true => exact letter_induction hletter hc
  | false =>
    have hkinds : (c.isUpper || c.isLower || c.isDigit) = false := hc
    simp only [Bool.or_eq_false_iff] at hkinds
    exact hone c (toUpper_eq_self hkinds.1.2) (toLower_eq_self hkinds.1.1)

end PortLease.Text
