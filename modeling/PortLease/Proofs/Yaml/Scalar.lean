import PortLease.Proofs.Yaml.Token

namespace PortLease.Yaml

variable {cs text word : List Char} {outer : List Nat} {tokens : List Token} {p : Place} {c : Char}
  {fuel column indent n : Nat}

namespace Writer

theorem indented_break {fresh : Bool} (hc : isBreak c = true) :
    indented indent fresh (cs ++ [c]) = indented indent fresh cs ++ [c] := by
  induction cs generalizing fresh with
  | nil => simp [indented, hc]
  | cons d cs ih =>
    rw [List.cons_append, indented, indented]
    split
    · rw [ih, List.cons_append]
    · rw [ih, List.append_assoc, List.cons_append]

theorem scalar_ends (indent : Nat) (cs : List Char) :
    ∃ before b, isBreak b = true ∧ scalar indent cs = before ++ [b] := by
  rw [scalar]
  split
  case h_3 | h_4 =>
    split
    · rename_i hlast
      obtain ⟨b, hb, hbreak⟩ := (Option.any_eq_true _ _).mp hlast
      obtain ⟨cs, rfl⟩ := List.getLast?_eq_some_iff.mp hb
      refine ⟨'|' :: indentHint (cs ++ [b]) ++ chompHint (cs ++ [b]) ++ '\n' :: indented indent true cs, b, hbreak, ?_⟩
      simp [literal, indented_break hbreak]
    · exact ⟨_, '\n', rfl, rfl⟩
  all_goals exact ⟨_, '\n', rfl, rfl⟩

theorem isIndicator_iff : Lexer.isIndicator c = true ↔ (c = '?' ∨ c = ':' ∨ c = '-') ∨ isLeadMark c = true := by
  simp only [Lexer.isIndicator, isLeadMark, List.contains_eq_mem, decide_eq_true_eq, String.reduceToList, List.mem_cons]
  grind

theorem not_isLeadMark (h : hasLeadMark (c :: cs) = false) :
    isLeadMark c = false ∧ (c = '?' ∨ c = ':' ∨ c = '-' → endsWord cs = false) := by
  unfold hasLeadMark at h
  split at h
  · cases h
  · cases h
  · rename_i heq
    obtain ⟨rfl, rfl⟩ := List.cons.inj heq
    obtain ⟨hlead, hmark⟩ := Bool.or_eq_false_iff.mp h
    refine ⟨hlead, fun hc => ?_⟩
    simpa [or_assoc, hc] using hmark
  · rename_i heq
    cases heq

theorem beginsPlain_of_allowsPlain {rest : List Char} (h : allowsPlain (c :: cs) = true) :
    Lexer.beginsPlain false c (cs ++ rest) = true := by
  have hspacing : isSpacing c = false := ((Plain.body_of_allowsPlain h).first c rfl).1
  simp only [allowsPlain, Bool.and_eq_true, Bool.not_eq_true'] at h
  obtain ⟨⟨-, hlead⟩, -⟩ := h
  obtain ⟨hlead, hend⟩ := not_isLeadMark hlead
  by_cases hmark : c = '?' ∨ c = ':' ∨ c = '-'
  · have hmore : endsWord (cs ++ rest) = false := by
      have hend := hend hmark
      cases cs with
      | nil => cases hend
      | cons d cs => exact hend
    obtain rfl | rfl | rfl := hmark <;> simp [Lexer.beginsPlain, hmore]
  · have hindicator : Lexer.isIndicator c = false := by
      rw [← Bool.not_eq_true, isIndicator_iff, hlead]
      simpa using hmark
    rw [Lexer.beginsPlain, hspacing, hindicator]
    rfl

theorem style_cases (cs : List Char) :
    (style cs = .plain ∧ cs ≠ [] ∧ CoreSchema.atom cs = .text ∧ allowsPlain cs = true) ∨
    (style cs = .singleQuoted ∧ '\n' ∉ cs ∧ allowsSingleQuotes cs = true) ∨
    (style cs = .doubleQuoted) ∨
    (style cs = .literal ∧ cs ≠ [] ∧ cs.all isShown = true) := by
  rw [style, List.contains_eq_mem]
  split
  · rename_i hfeed
    have hne : cs ≠ [] := by
      rintro rfl
      cases hfeed
    split
    · rename_i hliteral
      simp only [allowsLiteral, Bool.and_eq_true] at hliteral
      exact .inr (.inr (.inr ⟨rfl, hne, hliteral.1.1⟩))
    · exact .inr (.inr (.inl rfl))
  · rename_i hfeed
    split
    · rename_i hplain
      simp only [needsQuotes, Bool.and_eq_true, Bool.not_eq_true', Bool.or_eq_false_iff, decide_eq_false_iff_not,
        not_not] at hplain
      refine .inl ⟨rfl, ?_, hplain.1.1, hplain.2⟩
      rintro rfl
      exact absurd hplain.1.1 (by decide)
    · split
      · rename_i hsingle
        exact .inr (.inl ⟨rfl, by simpa using hfeed, hsingle⟩)
      · exact .inr (.inr (.inl rfl))

theorem begins_scalar (indent : Nat) (cs : List Char) : Begins (scalar indent cs ++ text) := by
  obtain ⟨hstyle, hne, -, hplain⟩ | ⟨hstyle, -⟩ | hstyle | ⟨hstyle, -⟩ := style_cases cs
  · obtain ⟨c, cs, rfl⟩ := List.exists_cons_of_ne_nil hne
    have hfirst := (Plain.body_of_allowsPlain hplain).first c rfl
    have hmark : c ≠ '\uFEFF' := by
      rintro rfl
      simp only [allowsPlain, Bool.and_eq_true] at hplain
      exact absurd (List.all_eq_true.mp hplain.1.1.1.1 _ List.mem_cons_self) (by decide)
    rw [scalar, hstyle]
    intro d hd
    rw [← Option.some.inj hd]
    exact ⟨hfirst.1, hfirst.2, hmark⟩
  all_goals
    rw [scalar, hstyle]
    intro c hc
    rw [← Option.some.inj hc]
    decide

end Writer

namespace Lexer

open Writer (scalar style pad)

theorem tokens?_nextLine {indents : List Nat} {broken : Bool} (gap : List Char)
    (hgap : ∀ c ∈ gap, c = ' ' ∨ isBreak c = true) (hbroken : (broken || gap.any isBreak) = true)
    (hn : (p.over gap).column = n) (h : Begins text) :
    tokens? (fuel + 1) (between indents tokens ⟨gap ++ text, p⟩ broken) =
      resume? fuel ((between indents tokens ⟨text, p.over gap⟩ true).closeBlocks (n + 1)) := by
  rw [tokens?_gap gap hgap h, hbroken, hn]

theorem column_over_nextLine (n : Nat) : (p.over ('\n' :: pad n)).column = n := by
  have hcolumn : (p.over ([] ++ '\n' :: pad n)).column = (pad n).length := Place.column_over_break rfl isBreak_pad
  rwa [List.nil_append, pad, List.length_replicate, ← pad] at hcolumn

theorem resume?_plainLine (hbody : Plain.Body (c :: cs)) (hbegins : ∀ rest, beginsPlain false c (cs ++ rest) = true)
    (hcolumn : column < p.column) (hn : n ≤ column) (h : Begins text) :
    resume? (fuel + 1) (between (column :: outer) tokens ⟨c :: cs ++ ('\n' :: pad n ++ text), p⟩ false) =
      resume? fuel ((between (column :: outer) (tokens ++ [.scalar (c :: cs) .plain])
        ⟨text, p.over (c :: cs ++ '\n' :: pad n)⟩ true).closeBlocks (n + 1)) := by
  have hgap : ∀ c ∈ '\n' :: pad n, isSpacing c = true := List.forall_mem_cons.mpr ⟨rfl, isSpacing_pad⟩
  have htab : '\t' ∉ '\n' :: pad n := by simp [pad, List.mem_replicate]
  have hend (q : Place) : (q.over ('\n' :: pad n)).column ≤ column := by
    rw [column_over_nextLine]
    exact hn
  rw [resume?_plain hbody (hbegins _) hcolumn hgap htab (fun c hc => (h c hc).1) rfl fun q => .inr (hend q)]
  refine tokens?_nextLine [] (by simp) rfl ?_ h
  rw [Place.over_nil, Place.over_append, column_over_nextLine]

theorem resume?_word (hne : word ≠ []) (hletters : ∀ c ∈ word, c.isAlphanum = true) (hcolumn : column < p.column)
    (hn : n ≤ column) (h : Begins text) :
    resume? (fuel + 1) (between (column :: outer) tokens ⟨word ++ ('\n' :: pad n ++ text), p⟩ false) =
      resume? fuel ((between (column :: outer) (tokens ++ [.scalar word .plain])
        ⟨text, p.over (word ++ '\n' :: pad n)⟩ true).closeBlocks (n + 1)) := by
  obtain ⟨c, word, rfl⟩ := List.exists_cons_of_ne_nil hne
  exact resume?_plainLine (Plain.body_of_letters hletters)
    (fun _ => beginsPlain_letter (hletters c List.mem_cons_self)) hcolumn hn h

theorem column_over_scalar (indent : Nat) (cs : List Char) : (p.over (scalar indent cs ++ pad n)).column = n := by
  obtain ⟨before, b, hb, hscalar⟩ := Writer.scalar_ends indent cs
  rw [hscalar, List.append_assoc, List.singleton_append, Place.column_over_break hb isBreak_pad, pad,
    List.length_replicate]

theorem resume?_scalar (hcolumn : column < p.column) (hn : n ≤ column) (h : Begins text) :
    resume? (fuel + 1) (between (column :: outer) tokens ⟨scalar (column + 2) cs ++ (pad n ++ text), p⟩ false) =
      resume? fuel ((between (column :: outer) (tokens ++ [.scalar cs (style cs)])
        ⟨text, p.over (scalar (column + 2) cs ++ pad n)⟩ true).closeBlocks (n + 1)) := by
  have hpad : ∀ c ∈ '\n' :: pad n, c = ' ' ∨ isBreak c = true :=
    List.forall_mem_cons.mpr ⟨.inr rfl, fun c hc => .inl (List.eq_of_mem_replicate hc)⟩
  have hend : (p.over (scalar (column + 2) cs ++ pad n)).column = n := column_over_scalar (column + 2) cs
  obtain ⟨hstyle, hne, -, hplain⟩ | ⟨hstyle, hfeed, hsingle⟩ | hstyle | ⟨hstyle, hne, hshown⟩ := Writer.style_cases cs
  · obtain ⟨c, cs, rfl⟩ := List.exists_cons_of_ne_nil hne
    rw [scalar, hstyle]
    simp only [List.append_assoc, List.singleton_append]
    exact resume?_plainLine (Plain.body_of_allowsPlain hplain) (fun _ => Writer.beginsPlain_of_allowsPlain hplain)
      hcolumn hn h
  · have hbody := Quoted.body_of_allowsSingleQuotes hsingle hfeed
    rw [scalar, hstyle] at hend ⊢
    simp only [List.append_assoc, List.singleton_append, Place.over_append] at hend ⊢
    rw [resume?_single (Nat.succ_pos _) (by simp) hbody]
    exact tokens?_nextLine ('\n' :: pad n) hpad rfl hend h
  · rw [scalar, hstyle] at hend ⊢
    simp only [List.append_assoc, List.singleton_append, Place.over_append] at hend ⊢
    rw [resume?_double]
    exact tokens?_nextLine ('\n' :: pad n) hpad rfl hend h
  · have htab : '\t' ∉ cs := fun htab => absurd (List.all_eq_true.mp hshown _ htab) (by decide)
    rw [scalar, hstyle] at hend ⊢
    simp only [List.append_assoc] at hend ⊢
    rw [← Writer.lastEnd] at hend ⊢
    rw [resume?_literal hn hne htab fun c hc => (h c hc).1]
    exact tokens?_nextLine [] (by simp) rfl hend h

end Lexer

end PortLease.Yaml
