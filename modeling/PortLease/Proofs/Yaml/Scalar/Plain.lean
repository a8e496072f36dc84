import PortLease.Proofs.Text.Trim
import PortLease.Proofs.Yaml.Cursor
import PortLease.Yaml.Scalar.Plain
import PortLease.Yaml.Writer

namespace PortLease.Yaml

variable {cs word gap rest text : List Char} {least : Nat} {p : Place}

theorem foldGap_line (h : ∀ c ∈ gap, isBreak c = false) : foldGap gap = gap := by
  have hbreak : gap.any isBreak = false := List.any_eq_false.mpr fun c hc => by simp [h c hc]
  rw [foldGap, hbreak]
  rfl

theorem Writer.hasPair_eq_false_iff {first second : Char → Bool} : hasPair first second cs = false ↔
    ∀ a b, [a, b] <:+: cs → first a = true → second b = false := by
  induction cs with
  | nil => simp [hasPair]
  | cons c cs ih =>
    cases cs with
    | nil => simp [hasPair, List.infix_cons_iff]
    | cons d cs =>
      have hcons : hasPair first second (c :: d :: cs) =
          (first c && second d || hasPair first second (d :: cs)) := rfl
      rw [hcons, Bool.or_eq_false_iff, ih]
      constructor
      · rintro ⟨hhere, hlater⟩ a b hpart hfirst
        obtain hprefix | hpart := List.infix_cons_iff.mp hpart
        · obtain ⟨ha, hprefix⟩ := List.cons_prefix_cons.mp hprefix
          obtain ⟨hb, -⟩ := List.cons_prefix_cons.mp hprefix
          rw [← ha, ← hb, hfirst, Bool.true_and] at hhere
          rw [← hb] at *
          exact hhere
        · exact hlater a b hpart hfirst
      · intro h
        refine ⟨?_, fun a b hpart => h a b (hpart.trans (List.suffix_cons c _).isInfix)⟩
        cases hfirst : first c with
        | false => rfl
        | true => exact h c d (List.prefix_append [c, d] cs).isInfix hfirst

theorem pair_within {before after : List Char} {a b : Char} (ha : before.getLast? = some a)
    (hb : after.head? = some b) : [a, b] <:+: before ++ after := by
  obtain ⟨before, rfl⟩ := List.getLast?_eq_some_iff.mp ha
  obtain ⟨after, rfl⟩ := List.head?_eq_some_iff.mp hb
  exact ⟨before, after, by simp⟩

theorem letter_not_spacing {c : Char} (h : c.isAlphanum = true) : isBreak c = false ∧ isSpacing c = false :=
  Text.letter_induction (P := fun c => isBreak c = false ∧ isSpacing c = false) (by decide) h

namespace Plain

theorem word?_append (hword : ∀ c ∈ word, isSpacing c = false) (hlast : word.getLast? ≠ some ':')
    (hstop : word? false rest = some []) : word? false (word ++ rest) = some word := by
  induction word with
  | nil => exact hstop
  | cons c word ih =>
    obtain ⟨hc, hword⟩ := List.forall_mem_cons.mp hword
    have hcolon : (c = ':' && endsWord (word ++ rest)) = false := by
      cases word with
      | nil =>
        have hc' : c ≠ ':' := fun h => hlast (by rw [h]; rfl)
        rw [decide_eq_false hc', Bool.false_and]
      | cons d word =>
        have hd : endsWord (d :: word ++ rest) = false := hword d List.mem_cons_self
        rw [hd, Bool.and_false]
    have hlast' : word.getLast? ≠ some ':' := by
      cases word with
      | nil => nofun
      | cons d word => rwa [List.getLast?_cons_cons] at hlast
    rw [List.cons_append, word?, if_neg (by simp [hc]), if_neg (by simp), if_neg (by simp [hcolon]),
      ih hword hlast']
    rfl

theorem not_hasShallowTab {column : Option Nat} (h : '\t' ∉ gap) : hasShallowTab least column gap = false := by
  induction gap generalizing column with
  | nil => rfl
  | cons c gap ih =>
    rw [List.mem_cons, not_or] at h
    rw [hasShallowTab]
    split
    · exact ih h.2
    · rw [ih h.2, decide_eq_false fun hc => h.1 hc.symm]
      rfl

theorem wordsFrom?_succ {lead : List Char} {fuel : Nat} (hne : word ≠ [])
    (hword : ∀ c ∈ word, isSpacing c = false) (hlast : word.getLast? ≠ some ':')
    (hmark : Cursor.atDocumentMark ⟨word ++ (gap ++ text), p⟩ = false) (hhash : word.head? ≠ some '#')
    (hstop : word? false (gap ++ text) = some []) (hgap : ∀ c ∈ gap, isSpacing c = true)
    (htab : '\t' ∉ gap) (htext : ∀ c ∈ text.head?, isSpacing c = false) :
    wordsFrom? false least (fuel + 1) lead ⟨word ++ (gap ++ text), p⟩ =
      if gap = [] ∨ (p.over (word ++ gap)).column < least then
        some (foldGap lead ++ word, gap.any isBreak, ⟨text, p.over (word ++ gap)⟩)
      else
        (wordsFrom? false least fuel gap ⟨text, p.over (word ++ gap)⟩).map fun (more, broken, k) =>
          (foldGap lead ++ word ++ more, broken, k) := by
  obtain ⟨c, word, rfl⟩ := List.exists_cons_of_ne_nil hne
  have hskip : skipWord ⟨c :: word ++ (gap ++ text), p⟩ (c :: word) = ⟨gap ++ text, p.over (c :: word)⟩ := by
    rw [skipWord, List.drop_left]
    rfl
  have hhead : decide (Cursor.head? ⟨c :: word ++ (gap ++ text), p⟩ = some '#') = false :=
    decide_eq_false hhash
  rw [wordsFrom?, hmark, hhead, Bool.false_or, if_neg Bool.false_ne_true, word?_append hword hlast hstop]
  simp only [hskip, Cursor.span_append hgap htext, not_hasShallowTab htab, Place.over_append, Bool.not_false,
    Bool.true_and, decide_eq_true_eq, Bool.or_eq_true, Bool.false_eq_true, if_false]

theorem read?_word (hne : word ≠ []) (hword : ∀ c ∈ word, isSpacing c = false)
    (hlast : word.getLast? ≠ some ':')
    (hmark : Cursor.atDocumentMark ⟨word ++ (gap ++ text), p⟩ = false) (hhash : word.head? ≠ some '#')
    (hstop : word? false (gap ++ text) = some []) (hgap : ∀ c ∈ gap, isSpacing c = true)
    (htab : '\t' ∉ gap) (htext : ∀ c ∈ text.head?, isSpacing c = false)
    (hend : gap = [] ∨ (p.over (word ++ gap)).column < least) :
    read? false least ⟨word ++ (gap ++ text), p⟩ =
      some (word, gap.any isBreak, ⟨text, p.over (word ++ gap)⟩) := by
  rw [read?, wordsFrom?_succ hne hword hlast hmark hhash hstop hgap htab htext, if_pos hend]
  rfl

structure Body (cs : List Char) : Prop where
  line : ∀ c ∈ cs, c ≠ '\t' ∧ isBreak c = false
  first : ∀ c ∈ cs.head?, isSpacing c = false ∧ c ≠ '#'
  last : ∀ c ∈ cs.getLast?, isSpacing c = false ∧ c ≠ ':'
  colon : ∀ c, [':', c] <:+: cs → isSpacing c = false
  mark : ∀ c, isSpacing c = true → ¬ [c, '#'] <:+: cs

theorem Body.onward (h : Body (word ++ (gap ++ rest))) (hgap : ∀ c ∈ gap, isSpacing c = true) (hne : gap ≠ [])
    (hrest : ∀ c ∈ rest.head?, isSpacing c = false) : rest ≠ [] ∧ Body rest := by
  have hsuffix : rest <:+ word ++ (gap ++ rest) :=
    (List.suffix_append gap rest).trans (List.suffix_append word _)
  have hrest' : rest ≠ [] := by
    rintro rfl
    have hlast := h.last (gap.getLast hne) (by simp [List.getLast?_append, List.getLast?_eq_some_getLast hne])
    rw [hgap _ (List.getLast_mem hne)] at hlast
    exact absurd hlast.1 (by decide)
  refine ⟨hrest', fun c hc => h.line c (hsuffix.subset hc), fun c hc => ⟨hrest c hc, ?_⟩, fun c hc => ?_,
    fun c hc => h.colon c (hc.trans hsuffix.isInfix), fun c hspace hc => h.mark c hspace (hc.trans hsuffix.isInfix)⟩
  · rintro rfl
    have hpair := pair_within (List.getLast?_eq_some_getLast hne) hc
    exact h.mark _ (hgap _ (List.getLast_mem hne)) (hpair.trans (List.suffix_append word _).isInfix)
  · obtain ⟨before, hbefore⟩ := hsuffix
    refine h.last c ?_
    rw [← hbefore, List.getLast?_append, hc]
    rfl

theorem Body.begins (h : Body (word ++ (gap ++ rest))) (hgap : ∀ c ∈ gap, isSpacing c = true) (hne : gap ≠ []) :
    word ≠ [] ∧ word.getLast? ≠ some ':' ∧ word.head? ≠ some '#' := by
  obtain ⟨c, gap, rfl⟩ := List.exists_cons_of_ne_nil hne
  have hc := hgap c List.mem_cons_self
  have hword : word ≠ [] := by
    rintro rfl
    have hfirst := (h.first c rfl).1
    rw [hc] at hfirst
    cases hfirst
  refine ⟨hword, fun hlast => ?_, fun hhead => ?_⟩
  · have hcolon := h.colon c (pair_within hlast rfl)
    rw [hc] at hcolon
    cases hcolon
  · refine (h.first '#' ?_).2 rfl
    rw [List.head?_append, hhead]
    rfl

theorem wordsFrom?_body (hgap : ∀ c ∈ gap, isSpacing c = true) (htab : '\t' ∉ gap)
    (htext : ∀ c ∈ text.head?, isSpacing c = false) (hstop : word? false (gap ++ text) = some [])
    (hend : ∀ p : Place, gap = [] ∨ (p.over gap).column < least) (h : Body cs) (hne : cs ≠ [])
    {lead : List Char} {fuel : Nat} (hlead : ∀ c ∈ lead, isBreak c = false) (hfuel : cs.length ≤ fuel)
    (hcolumn : 0 < p.column) (hleast : least ≤ p.column) :
    wordsFrom? false least (fuel + 1) lead ⟨cs ++ (gap ++ text), p⟩ =
      some (lead ++ cs, gap.any isBreak, ⟨text, p.over (cs ++ gap)⟩) := by
  induction cs using gap_induction isSpacing generalizing lead fuel p with
  | hword word hword =>
    have hlast : word.getLast? ≠ some ':' := fun hlast => (h.last ':' hlast).2 rfl
    have hhash : word.head? ≠ some '#' := fun hhead => (h.first '#' hhead).2 rfl
    rw [wordsFrom?_succ hne hword hlast (Cursor.not_atDocumentMark hcolumn.ne') hhash hstop hgap htab htext,
      if_pos (by rw [Place.over_append]; exact hend _), foldGap_line hlead]
  | hgap word space rest hword hspace hspaces hrest ih =>
    -- a gap inside the text is on its line, so the next word is not before column `least`
    obtain ⟨hrestne, hbody⟩ := h.onward hspaces hspace hrest
    obtain ⟨hwordne, hlast, hhash⟩ := h.begins hspaces hspace
    have hline : ∀ c ∈ word ++ space, isBreak c = false := fun c hc =>
      (h.line c (by rw [← List.append_assoc]; exact List.mem_append_left rest hc)).2
    have hline' : ∀ c ∈ space, isBreak c = false := fun c hc => hline c (List.mem_append_right word hc)
    have htab' : '\t' ∉ space := fun hc => (h.line '\t' (by simp [hc])).1 rfl
    have hstop' : word? false (space ++ (rest ++ (gap ++ text))) = some [] := by
      obtain ⟨c, space, rfl⟩ := List.exists_cons_of_ne_nil hspace
      rw [List.cons_append, word?, if_pos (hspaces c List.mem_cons_self)]
    have hhead : ∀ c ∈ (rest ++ (gap ++ text)).head?, isSpacing c = false := by
      obtain ⟨c, rest, rfl⟩ := List.exists_cons_of_ne_nil hrestne
      exact hrest
    have hmoved : (p.over (word ++ space)).column = p.column + (word ++ space).length :=
      Place.column_over_line hline
    have hlength := List.length_pos_iff.mpr hwordne
    simp only [List.length_append] at hfuel
    obtain ⟨fuel, rfl⟩ : ∃ m, fuel = m + 1 := Nat.exists_eq_succ_of_ne_zero (by omega)
    rw [List.append_assoc, List.append_assoc,
      wordsFrom?_succ hwordne hword hlast (Cursor.not_atDocumentMark hcolumn.ne') hhash hstop' hspaces htab' hhead,
      if_neg (by rw [not_or]; exact ⟨hspace, by omega⟩),
      ih hbody hrestne hline' (by omega) (by omega) (by omega), foldGap_line hlead]
    simp [Place.over_append]

theorem read?_body (hgap : ∀ c ∈ gap, isSpacing c = true) (htab : '\t' ∉ gap)
    (htext : ∀ c ∈ text.head?, isSpacing c = false) (hstop : word? false (gap ++ text) = some [])
    (hend : ∀ p : Place, gap = [] ∨ (p.over gap).column < least) (h : Body cs) (hne : cs ≠ [])
    (hcolumn : 0 < p.column) (hleast : least ≤ p.column) :
    read? false least ⟨cs ++ (gap ++ text), p⟩ = some (cs, gap.any isBreak, ⟨text, p.over (cs ++ gap)⟩) := by
  have hfuel : cs.length ≤ (cs ++ (gap ++ text)).length := (List.prefix_append cs _).length_le
  exact wordsFrom?_body hgap htab htext hstop hend h hne (by simp) hfuel hcolumn hleast

theorem isSpacing_of_line {c : Char} (h : c ≠ '\t' ∧ isBreak c = false) : isSpacing c = true ↔ c = ' ' := by
  simp [isSpacing, isBlank, h]

theorem body_of_allowsPlain (h : Writer.allowsPlain cs = true) : Body cs := by
  simp only [Writer.allowsPlain, Bool.and_eq_true, Bool.not_eq_true', Writer.beginsOrEnds,
    Bool.or_eq_false_iff, Writer.hasInnerMark, decide_eq_false_iff_not] at h
  obtain ⟨⟨⟨⟨hshown, hbreak⟩, hfirst, hlast⟩, hlead⟩, ⟨hcolon, hcolons⟩, hmarks⟩ := h
  have hline : ∀ c ∈ cs, c ≠ '\t' ∧ isBreak c = false := fun c hc => by
    refine ⟨?_, by simpa using List.any_eq_false.mp hbreak c hc⟩
    rintro rfl
    exact absurd (List.all_eq_true.mp hshown _ hc) (by decide)
  refine ⟨hline, fun c hc => ⟨?_, ?_⟩, fun c hc => ⟨?_, ?_⟩, fun c hc => ?_, fun c hspace hc => ?_⟩
  · rw [← Bool.not_eq_true, isSpacing_of_line (hline c (List.mem_of_mem_head? hc))]
    rintro rfl
    rw [Option.mem_def.mp hc] at hfirst
    exact absurd hfirst (by decide)
  · rintro rfl
    obtain ⟨rest, rfl⟩ := List.head?_eq_some_iff.mp hc
    exact absurd hlead (by simp [Writer.hasLeadMark, Writer.isLeadMark])
  · rw [← Bool.not_eq_true, isSpacing_of_line (hline c (List.mem_of_mem_getLast? hc))]
    rintro rfl
    rw [Option.mem_def.mp hc] at hlast
    exact absurd hlast (by decide)
  · rintro rfl
    exact hcolon hc
  · exact Writer.hasPair_eq_false_iff.mp hcolons ':' c hc (by simp)
  · simpa using Writer.hasPair_eq_false_iff.mp hmarks c '#' hc hspace

theorem body_of_letters (h : ∀ c ∈ cs, c.isAlphanum = true) : Body cs := by
  have hne {c d : Char} (hc : c ∈ cs) (hd : d.isAlphanum = false) : c ≠ d := Text.ne_of_test (h c hc) hd
  refine ⟨fun c hc => ⟨hne hc rfl, (letter_not_spacing (h c hc)).1⟩, fun c hc => ?_, fun c hc => ?_, fun c hc => ?_,
    fun c _ hc => ?_⟩
  · have hc := List.mem_of_mem_head? hc
    exact ⟨(letter_not_spacing (h c hc)).2, hne hc rfl⟩
  · have hc := List.mem_of_mem_getLast? hc
    exact ⟨(letter_not_spacing (h c hc)).2, hne hc rfl⟩
  · exact absurd rfl (hne (hc.subset (List.mem_cons_self (a := ':'))) rfl)
  · exact absurd rfl (hne (hc.subset (List.mem_cons_of_mem c List.mem_cons_self)) (d := '#') rfl)

end Plain

end PortLease.Yaml
