import PortLease.Proofs.Yaml.Outline

namespace PortLease.Yaml

variable {cs rest : List Char} {c : Char} {indent : Nat}

def isLegible (c : Char) : Bool := isAllowed c && c ≠ '\r' && c ≠ '\x85'

def Legible (cs : List Char) : Prop := ∀ c ∈ cs, isLegible c = true

instance (cs : List Char) : Decidable (Legible cs) :=
  decidable_of_iff (cs.all isLegible = true) List.all_eq_true

theorem Legible.append (h : Legible cs) (hrest : Legible rest) : Legible (cs ++ rest) :=
  List.forall_mem_append.mpr ⟨h, hrest⟩

theorem legible_cons : Legible (c :: cs) ↔ isLegible c = true ∧ Legible cs := List.forall_mem_cons

theorem unifyBreaks_legible (h : Legible cs) : unifyBreaks cs = cs := by
  induction cs with
  | nil => rfl
  | cons c cs ih =>
    obtain ⟨hc, hcs⟩ := legible_cons.mp h
    simp only [isLegible, Bool.and_eq_true, decide_eq_true_eq] at hc
    rw [unifyBreaks.eq_3 _ _ fun _ hr => absurd hr hc.1.2, ih hcs, if_neg (by simp [hc.1.2, hc.2])]

theorem readable?_legible (h : Legible cs) : readable? cs = some cs := by
  have hallowed : cs.all isAllowed = true := List.all_eq_true.mpr fun c hc => by
    have hc := h c hc
    simp only [isLegible, Bool.and_eq_true] at hc
    exact hc.1.1
  rw [readable?, if_pos hallowed, unifyBreaks_legible h]

theorem legible_letters (h : ∀ c ∈ cs, c.isAlphanum = true) : Legible cs := by
  refine fun c hc => Text.letter_induction (P := fun c => isLegible c = true) ?_ (h c hc)
  decide

namespace Writer

theorem legible_pad : Legible (pad indent) := fun c hc => by
  rw [List.eq_of_mem_replicate hc]
  rfl

theorem isLegible_of_shown (h : isShown c = true) : isLegible c = true := by
  have hreturn : c ≠ '\r' := by
    rintro rfl
    exact absurd h (by decide)
  have hnext : c ≠ '\x85' := by
    rintro rfl
    exact absurd h (by decide)
  simp only [isShown, Bool.or_eq_true, Bool.and_eq_true, decide_eq_true_eq] at h
  simp only [isLegible, isAllowed, Bool.or_eq_true, Bool.and_eq_true, decide_eq_true_eq]
  tauto

theorem legible_indented {fresh : Bool} (h : Legible cs) : Legible (indented indent fresh cs) := by
  induction cs generalizing fresh with
  | nil => exact h
  | cons c cs ih =>
    obtain ⟨hc, hcs⟩ := legible_cons.mp h
    rw [indented]
    split
    · exact legible_cons.mpr ⟨hc, ih hcs⟩
    · cases fresh with
      | false => exact legible_cons.mpr ⟨hc, ih hcs⟩
      | true => exact legible_pad.append (legible_cons.mpr ⟨hc, ih hcs⟩)

theorem legible_doubled (h : isLegible c = true) : Legible (doubled c) := by
  rw [doubled]
  split
  · decide
  · exact legible_cons.mpr ⟨h, List.forall_mem_nil _⟩

theorem legible_singleBody {fresh : Bool} (h : Legible cs) : Legible (singleBody indent fresh cs) := by
  induction cs generalizing fresh with
  | nil =>
    cases fresh with
    | false => exact List.forall_mem_nil _
    | true => exact legible_pad
  | cons c cs ih =>
    obtain ⟨hc, hcs⟩ := legible_cons.mp h
    rw [singleBody]
    split
    · exact legible_cons.mpr ⟨hc, ih hcs⟩
    · cases fresh with
      | false => exact (legible_doubled hc).append (ih hcs)
      | true => exact legible_pad.append ((legible_doubled hc).append (ih hcs))

theorem legible_hexDigits (width n : Nat) : Legible (hexDigits width n) := by
  have hdigit : ∀ d : Fin 16, isLegible (Nat.digitChar d.val).toUpper = true := by decide
  induction width generalizing n with
  | zero => exact List.forall_mem_nil _
  | succ width ih =>
    rw [hexDigits]
    exact (ih (n / 16)).append (legible_cons.mpr ⟨hdigit ⟨n % 16, Nat.mod_lt n (by decide)⟩, List.forall_mem_nil _⟩)

theorem legible_escape (c : Char) : Legible (escape c) := by
  unfold escape
  split
  -- only the escapes by number have digits
  case h_15 =>
    split
    · exact legible_cons.mpr ⟨rfl, legible_hexDigits _ _⟩
    · split <;> exact legible_cons.mpr ⟨rfl, legible_hexDigits _ _⟩
  all_goals exact legible_cons.mpr ⟨rfl, List.forall_mem_nil _⟩

theorem legible_escaped (c : Char) : Legible (escaped c) := by
  rw [escaped]
  split
  · exact legible_cons.mpr ⟨rfl, legible_escape c⟩
  · rename_i hplain
    simp only [Bool.or_eq_true, Bool.not_eq_true', not_or, Bool.not_eq_false] at hplain
    exact legible_cons.mpr ⟨isLegible_of_shown hplain.1.1.1, List.forall_mem_nil _⟩

theorem legible_of_shown (h : cs.all isShown = true) : Legible cs :=
  fun c hc => isLegible_of_shown (List.all_eq_true.mp h c hc)

theorem legible_literal (h : Legible cs) : Legible (literal indent cs) := by
  have hindent : Legible (indentHint cs) := by
    rw [indentHint]
    split <;> decide
  have hchomp : Legible (chompHint cs) := by
    unfold chompHint
    split
    · split
      · decide
      · split <;> decide
    · split <;> decide
    · decide
  have hbody : Legible ('\n' :: indented indent true cs) := legible_cons.mpr ⟨rfl, legible_indented h⟩
  exact legible_cons.mpr ⟨rfl, (hindent.append hchomp).append hbody⟩

theorem legible_scalar (indent : Nat) (cs : List Char) : Legible (scalar indent cs) := by
  have hend : Legible ['\n'] := by decide
  obtain ⟨hstyle, -, -, hplain⟩ | ⟨hstyle, -, hsingle⟩ | hstyle | ⟨hstyle, -, hshown⟩ := style_cases cs
  · simp only [allowsPlain, Bool.and_eq_true] at hplain
    rw [scalar, hstyle]
    exact (legible_of_shown hplain.1.1.1.1).append hend
  · simp only [allowsSingleQuotes, Bool.and_eq_true] at hsingle
    rw [scalar, hstyle]
    simp only [singleQuoted_eq]
    have hbody : Legible (singleBody indent false cs) := legible_singleBody (legible_of_shown hsingle.1.1)
    exact (legible_cons.mpr ⟨rfl, hbody.append (by decide)⟩).append hend
  · rw [scalar, hstyle]
    simp only [doubleQuoted_eq]
    have hbody : Legible (cs.flatMap escaped) := fun c hc => by
      obtain ⟨d, -, hc⟩ := List.mem_flatMap.mp hc
      exact legible_escaped d c hc
    exact (legible_cons.mpr ⟨rfl, hbody.append (by decide)⟩).append hend
  · rw [scalar, hstyle]
    refine (legible_literal (legible_of_shown hshown)).append ?_
    split
    · exact List.forall_mem_nil _
    · exact hend

end Writer

open Writer in
mutual

theorem legible_render (indent : Nat) (o : Outline) (ho : o.Proper) : Legible (o.render indent) := by
  match o with
  | .word w =>
    rw [Outline.Proper] at ho
    exact (legible_cons.mpr ⟨rfl, legible_letters ho.letters⟩).append (by decide)
  | .text cs => exact legible_cons.mpr ⟨rfl, legible_scalar (indent + 2) cs⟩
  | .mapping members =>
    rw [Outline.Proper] at ho
    exact legible_cons.mpr ⟨rfl, legible_members (indent + 2) true members ho.2⟩

theorem legible_members (indent : Nat) (fresh : Bool) (members : List (String × Outline))
    (hmembers : Outline.ProperMembers members) : Legible (Outline.renderMembers indent fresh members) := by
  match members with
  | [] => exact List.forall_mem_nil _
  | (key, value) :: rest =>
    rw [Outline.ProperMembers] at hmembers
    obtain ⟨hkey, hvalue, hrest⟩ := hmembers
    have hfresh : Legible (if fresh then pad indent else []) := by
      split
      · exact legible_pad
      · exact List.forall_mem_nil _
    have hvalue : Legible (':' :: value.render indent) := legible_cons.mpr ⟨rfl, legible_render indent value hvalue⟩
    exact ((hfresh.append (legible_letters hkey.letters)).append hvalue).append (legible_members indent true rest hrest)

end

end PortLease.Yaml
