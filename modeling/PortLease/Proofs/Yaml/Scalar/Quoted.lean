import Mathlib.Tactic.Ring
import PortLease.Proofs.Yaml.Scalar.Plain
import PortLease.Yaml.Scalar.Quoted

namespace PortLease.Yaml

variable {cs word gap rest text tail : List Char} {indent fuel : Nat} {p : Place} {c : Char}

theorem isBreak_pad : ∀ c ∈ Writer.pad indent, isBreak c = false := fun c hc => by
  rw [List.eq_of_mem_replicate hc]
  rfl

theorem isSpacing_pad : ∀ c ∈ Writer.pad indent, isSpacing c = true := fun c hc => by
  rw [List.eq_of_mem_replicate hc]
  rfl

theorem Place.column_over_gap (hgap : ∀ c ∈ gap, isBreak c = true) (hne : gap ≠ []) :
    (p.over (gap ++ Writer.pad indent)).column = indent := by
  have hlast : isBreak (gap.getLast hne) = true := hgap _ (List.getLast_mem hne)
  have hcolumn : (p.over (gap.dropLast ++ gap.getLast hne :: Writer.pad indent)).column = (Writer.pad indent).length :=
    Place.column_over_break hlast isBreak_pad
  rwa [List.append_cons, List.dropLast_concat_getLast, Writer.pad, List.length_replicate] at hcolumn

namespace Writer

def doubled (c : Char) : List Char := if c = '\x27' then ['\x27', '\x27'] else [c]

def singleBody (indent : Nat) : (fresh : Bool) → List Char → List Char
  | fresh, [] => if fresh then pad indent else []
  | fresh, c :: cs =>
    if isBreak c then c :: singleBody indent true cs
    else (if fresh then pad indent else []) ++ (doubled c ++ singleBody indent false cs)

def escaped (c : Char) : List Char :=
  if !isShown c || isBreak c || c = '"' || c = '\\' then '\\' :: escape c else [c]

theorem doubleQuoted_eq (cs : List Char) : doubleQuoted cs = '"' :: cs.flatMap escaped ++ ['"'] := rfl

theorem indented_doubled (indent : Nat) (fresh : Bool) (cs : List Char) :
    indented indent fresh (cs.flatMap doubled) ++
      (if cs.getLast?.any isBreak || (cs.isEmpty && fresh) then pad indent else []) =
    singleBody indent fresh cs := by
  induction cs generalizing fresh with
  | nil => simp [indented, singleBody]
  | cons c cs ih =>
    have hending {fresh' : Bool} (hc : isBreak c = fresh') : ((c :: cs).getLast?.any isBreak || (false && fresh)) =
        (cs.getLast?.any isBreak || (cs.isEmpty && fresh')) := by
      cases cs with
      | nil => simp [hc]
      | cons d cs => simp
    rw [List.isEmpty_cons, singleBody]
    cases hc : isBreak c with
    | true =>
      have hquote : c ≠ '\x27' := by
        rintro rfl
        cases hc
      rw [hending hc, ← ih, List.flatMap_cons, doubled, if_neg hquote, if_pos rfl, List.cons_append,
        List.nil_append, indented, if_pos hc]
      rfl
    | false =>
      rw [hending hc, if_neg Bool.false_ne_true, ← ih false, List.flatMap_cons]
      by_cases hquote : c = '\x27'
      · simp [doubled, hquote, indented, isBreak]
      · simp [doubled, hquote, indented, hc]

theorem flatMap_doubled (h : ∀ c ∈ cs, c ≠ '\x27') : cs.flatMap doubled = cs := by
  induction cs with
  | nil => rfl
  | cons c cs ih =>
    obtain ⟨hc, hcs⟩ := List.forall_mem_cons.mp h
    rw [List.flatMap_cons, ih hcs, doubled, if_neg hc]
    rfl

theorem singleQuoted_eq (indent : Nat) (cs : List Char) :
    singleQuoted indent cs = '\x27' :: singleBody indent false cs ++ ['\x27'] := by
  rw [← indented_doubled, Bool.and_false, Bool.or_false]
  rfl

theorem singleBody_word (hword : ∀ c ∈ word, isBreak c = false) :
    singleBody indent false (word ++ rest) = word.flatMap doubled ++ singleBody indent false rest := by
  induction word with
  | nil => rfl
  | cons c word ih =>
    obtain ⟨hc, hword⟩ := List.forall_mem_cons.mp hword
    rw [List.cons_append, singleBody, if_neg (by simp [hc]), ih hword, List.flatMap_cons, List.append_assoc]
    rfl

theorem singleBody_breaks {fresh : Bool} (hgap : ∀ c ∈ gap, isBreak c = true) (hne : gap ≠ []) :
    singleBody indent fresh (gap ++ rest) = gap ++ singleBody indent true rest := by
  induction gap generalizing fresh with
  | nil => exact absurd rfl hne
  | cons c gap ih =>
    obtain ⟨hc, hgap⟩ := List.forall_mem_cons.mp hgap
    rw [List.cons_append, singleBody, if_pos hc]
    cases gap with
    | nil => rfl
    | cons d gap => rw [ih hgap (List.cons_ne_nil d gap), List.cons_append, List.cons_append, List.cons_append]

theorem singleBody_fresh (hrest : ∀ c ∈ rest.head?, isBreak c = false) :
    singleBody indent true rest = pad indent ++ singleBody indent false rest := by
  cases rest with
  | nil => rw [singleBody, singleBody, if_pos rfl, if_neg Bool.false_ne_true, List.append_nil]
  | cons c rest =>
    have hc : ¬ isBreak c = true := by simp [hrest c rfl]
    rw [singleBody, singleBody, if_neg hc, if_neg hc, if_pos rfl, if_neg Bool.false_ne_true, List.nil_append]

theorem length_le_singleBody {fresh : Bool} (cs : List Char) : cs.length ≤ (singleBody indent fresh cs).length := by
  induction cs generalizing fresh with
  | nil => exact Nat.zero_le _
  | cons c cs ih =>
    rw [singleBody]
    split
    · exact Nat.succ_le_succ ih
    · have hdoubled : 1 ≤ (doubled c).length := by
        rw [doubled]
        split <;> simp
      have : cs.length ≤ (singleBody indent false cs).length := ih
      simp only [List.length_append, List.length_cons]
      omega

end Writer

namespace Quoted

open Writer (doubled escaped singleBody pad)

theorem textFrom?_closed {double : Bool} {k : Cursor} (hmark : k.atDocumentMark = false) (hne : k.rest ≠ [])
    (hrun : run? double k = some (text, false, ⟨quote double :: rest, p⟩)) :
    textFrom? double (fuel + 1) k = some (text, ⟨rest, p.after (quote double)⟩) := by
  rw [textFrom?, hmark, Bool.false_or, if_neg (by simpa using hne), hrun]
  simp [Cursor.head?, Cursor.tail]

theorem textFrom?_gap {double : Bool} {k : Cursor} (hmark : k.atDocumentMark = false) (hne : k.rest ≠ [])
    (hrun : run? double k = some (text, false, ⟨gap ++ rest, p⟩)) (hgap : ∀ c ∈ gap, isSpacing c = true)
    (hgapne : gap ≠ []) (hrest : ∀ c ∈ rest.head?, isSpacing c = false) :
    textFrom? double (fuel + 1) k = (textFrom? double fuel ⟨rest, p.over gap⟩).map fun (more, k) =>
      (text ++ foldGap gap ++ more, k) := by
  have hquote : Cursor.head? ⟨gap ++ rest, p⟩ ≠ some (quote double) := by
    obtain ⟨c, gap, rfl⟩ := List.exists_cons_of_ne_nil hgapne
    intro h
    have hc := hgap c List.mem_cons_self
    rw [Option.some.inj h] at hc
    cases double <;> exact absurd hc (by decide)
  rw [textFrom?, hmark, Bool.false_or, if_neg (by simpa using hne), hrun]
  simp only [if_neg hquote, Cursor.span_append hgap hrest]
  rfl

theorem singleRun_doubled (hword : ∀ c ∈ word, isSpacing c = false)
    (hstop : ∀ p, singleRun rest p = ([], ⟨rest, p⟩)) :
    singleRun (word.flatMap doubled ++ rest) p = (word, ⟨rest, p.over (word.flatMap doubled)⟩) := by
  induction word generalizing p with
  | nil => exact hstop p
  | cons c word ih =>
    obtain ⟨hc, hword⟩ := List.forall_mem_cons.mp hword
    rw [List.flatMap_cons, List.append_assoc, doubled]
    split
    · rename_i hquote
      rw [hquote]
      simp only [List.cons_append, List.nil_append, singleRun, ih hword]
      rfl
    · rename_i hquote
      rw [List.singleton_append, singleRun, if_neg (by simp [hc, hquote]), ih hword]
      · rfl
      · exact fun _ h => absurd h hquote

theorem singleRun_spacing (hc : isSpacing c = true) : singleRun (c :: rest) p = ([], ⟨c :: rest, p⟩) := by
  rw [singleRun, if_pos (.inr hc)]
  rintro _ rfl
  exact absurd hc (by decide)

theorem singleRun_quote (h : rest.head? ≠ some '\x27') :
    singleRun ('\x27' :: rest) p = ([], ⟨'\x27' :: rest, p⟩) := by
  rw [singleRun, if_pos (.inl rfl)]
  rintro more - rfl
  exact h rfl

structure Body (cs : List Char) : Prop where
  noTab : '\t' ∉ cs
  noLineFeed : '\n' ∉ cs
  spaceBreak : ∀ c, [' ', c] <:+: cs → isBreak c = false
  breakSpace : ∀ c, isBreak c = true → ¬ [c, ' '] <:+: cs

theorem Body.part (h : Body cs) (hpart : rest <:+: cs) : Body rest where
  noTab ht := h.noTab (hpart.subset ht)
  noLineFeed ht := h.noLineFeed (hpart.subset ht)
  spaceBreak c hc := h.spaceBreak c (hc.trans hpart)
  breakSpace c hbreak hc := h.breakSpace c hbreak (hc.trans hpart)

theorem Body.gap_uniform (h : Body gap) (hgap : ∀ c ∈ gap, isSpacing c = true) :
    (∀ c ∈ gap, c = ' ') ∨ ∀ c ∈ gap, isBreak c = true := by
  induction gap with
  | nil => exact .inl (by simp)
  | cons c gap ih =>
    obtain ⟨hc, hgap⟩ := List.forall_mem_cons.mp hgap
    have hspace : c = ' ' ∨ isBreak c = true := by
      have htab : c ≠ '\t' := fun htab => h.noTab (by simp [htab])
      simpa [isSpacing, isBlank, htab] using hc
    cases gap with
    | nil => exact hspace.imp (by simp) (by simp)
    | cons d gap =>
      have hpair : [c, d] <:+: c :: d :: gap := (List.prefix_append [c, d] gap).isInfix
      obtain hspaces | hbreaks := ih (h.part (List.suffix_cons c _).isInfix) hgap
      · refine .inl (List.forall_mem_cons.mpr ⟨hspace.resolve_right fun hbreak => ?_, hspaces⟩)
        obtain rfl := hspaces d List.mem_cons_self
        exact h.breakSpace c hbreak hpair
      · refine .inr (List.forall_mem_cons.mpr ⟨hspace.resolve_left ?_, hbreaks⟩)
        rintro rfl
        have hd := hbreaks d List.mem_cons_self
        rw [h.spaceBreak d hpair] at hd
        cases hd

theorem foldGap_breaks (hgap : ∀ c ∈ gap, isBreak c = true) (hne : gap ≠ []) (hfeed : '\n' ∉ gap) :
    foldGap (gap ++ pad indent) = gap := by
  obtain ⟨c, gap, rfl⟩ := List.exists_cons_of_ne_nil hne
  have hany : (c :: gap ++ pad indent).any isBreak = true := by simp [hgap c List.mem_cons_self]
  have hpad : (pad indent).filter isBreak = [] := List.filter_eq_nil_iff.mpr fun d hd => by simp [isBreak_pad d hd]
  rw [foldGap, if_pos hany, List.filter_append, List.filter_eq_self.mpr hgap, hpad, List.append_nil]
  have hc : c ≠ '\n' := fun hc => hfeed (by simp [hc])
  unfold foldBreaks
  split
  · rename_i heq
    exact absurd (List.cons.inj heq).1 hc
  · rename_i heq
    exact absurd (List.cons.inj heq).1 hc
  · rfl

theorem singleBody_head (hrest : ∀ c ∈ rest.head?, isSpacing c = false) :
    ∀ c ∈ (singleBody indent false rest ++ '\x27' :: tail).head?, isSpacing c = false := by
  cases rest with
  | nil =>
    rintro c hc
    rw [← Option.some.inj hc]
    rfl
  | cons d rest =>
    have hd : isBreak d = false := by
      have hd := hrest d rfl
      rw [isSpacing, Bool.or_eq_false_iff] at hd
      exact hd.2
    rw [singleBody, if_neg (by simp [hd]), if_neg Bool.false_ne_true, List.nil_append, doubled]
    split
    · rintro c hc
      rw [← Option.some.inj hc]
      rfl
    · exact hrest

theorem not_isBreak_of_word (hword : ∀ c ∈ word, isSpacing c = false) : ∀ c ∈ word, isBreak c = false :=
  fun c hc => (Bool.or_eq_false_iff.mp (hword c hc)).2

theorem not_isBreak_doubled (hword : ∀ c ∈ word, isBreak c = false) :
    ∀ c ∈ word.flatMap doubled, isBreak c = false := by
  intro c hc
  obtain ⟨d, hd, hc⟩ := List.mem_flatMap.mp hc
  rw [doubled] at hc
  split at hc
  · simp only [List.mem_cons, List.not_mem_nil, or_false, or_self] at hc
    rw [hc]
    rfl
  · rw [List.mem_singleton.mp hc]
    exact hword d hd

theorem singleBody_gap (hindent : 0 < indent) (h : Body gap) (hgap : ∀ c ∈ gap, isSpacing c = true)
    (hne : gap ≠ []) (hrest : ∀ c ∈ rest.head?, isSpacing c = false) :
    ∃ written, (∀ word, (∀ c ∈ word, isSpacing c = false) → singleBody indent false (word ++ (gap ++ rest)) =
        word.flatMap doubled ++ (written ++ singleBody indent false rest)) ∧
      written ≠ [] ∧ (∀ c ∈ written, isSpacing c = true) ∧ foldGap written = gap ∧
      ∀ p : Place, 0 < p.column → 0 < (p.over written).column := by
  obtain hspaces | hbreaks := h.gap_uniform hgap
  · have hline : ∀ c ∈ gap, isBreak c = false := fun c hc => by
      rw [hspaces c hc]
      rfl
    have hsame : gap.flatMap doubled = gap := Writer.flatMap_doubled fun c hc => by
      rw [hspaces c hc]
      decide
    refine ⟨gap, fun word hword => ?_, hne, hgap, foldGap_line hline, fun p hp => ?_⟩
    · rw [Writer.singleBody_word (not_isBreak_of_word hword), Writer.singleBody_word hline, hsame]
    · rw [Place.column_over_line hline]
      omega
  · have hrest' : ∀ c ∈ rest.head?, isBreak c = false := fun c hc => (Bool.or_eq_false_iff.mp (hrest c hc)).2
    refine ⟨gap ++ pad indent, fun word hword => ?_, by simp [hne], ?_, foldGap_breaks hbreaks hne h.noLineFeed,
      fun p hp => ?_⟩
    · rw [Writer.singleBody_word (not_isBreak_of_word hword), Writer.singleBody_breaks hbreaks hne,
        Writer.singleBody_fresh hrest', List.append_assoc]
    · exact fun c hc => (List.mem_append.mp hc).elim (hgap c) (isSpacing_pad c)
    · rw [Place.column_over_gap hbreaks hne]
      exact hindent

theorem textFrom?_single (hindent : 0 < indent) (htail : tail.head? ≠ some '\x27') (h : Body cs)
    (hfuel : cs.length ≤ fuel) (hcolumn : 0 < p.column) :
    textFrom? false (fuel + 1) ⟨singleBody indent false cs ++ '\x27' :: tail, p⟩ =
      some (cs, ⟨tail, p.over (singleBody indent false cs ++ ['\x27'])⟩) := by
  induction cs using gap_induction isSpacing generalizing fuel p with
  | hword word hword =>
    have hbody : singleBody indent false word = word.flatMap doubled := by
      have hbody : singleBody indent false (word ++ []) = word.flatMap doubled ++ singleBody indent false [] :=
        Writer.singleBody_word (not_isBreak_of_word hword)
      rwa [List.append_nil, singleBody, if_neg Bool.false_ne_true, List.append_nil] at hbody
    have hrun : run? false ⟨word.flatMap doubled ++ '\x27' :: tail, p⟩ =
        some (word, false, ⟨'\x27' :: tail, p.over (word.flatMap doubled)⟩) := by
      rw [run?, if_neg Bool.false_ne_true, singleRun_doubled hword fun p => singleRun_quote htail]
    rw [hbody, textFrom?_closed (Cursor.not_atDocumentMark hcolumn.ne') (by simp) hrun, Place.over_append]
    rfl
  | hgap word gap rest hword hgapne hgap hrest ih =>
    -- what is written for the gap folds to the gap again, the indentation behind its line ends included
    have hgapbody : Body gap := h.part ⟨word, rest, by simp⟩
    have hrestbody : Body rest := h.part ⟨word ++ gap, [], by simp⟩
    obtain ⟨written, hbody, hne, hspacing, hfold, hmoves⟩ := singleBody_gap hindent hgapbody hgap hgapne hrest
    have hstop (more : List Char) (p : Place) : singleRun (written ++ more) p = ([], ⟨written ++ more, p⟩) := by
      obtain ⟨c, written, rfl⟩ := List.exists_cons_of_ne_nil hne
      exact singleRun_spacing (hspacing c List.mem_cons_self)
    have hrun (more : List Char) : run? false ⟨word.flatMap doubled ++ (written ++ more), p⟩ =
        some (word, false, ⟨written ++ more, p.over (word.flatMap doubled)⟩) := by
      rw [run?, if_neg Bool.false_ne_true, singleRun_doubled hword (hstop more)]
    have hplace : 0 < ((p.over (word.flatMap doubled)).over written).column := by
      refine hmoves _ ?_
      rw [Place.column_over_line (not_isBreak_doubled (not_isBreak_of_word hword))]
      omega
    have hlength := List.length_pos_iff.mpr hgapne
    simp only [List.length_append] at hfuel
    obtain ⟨fuel, rfl⟩ : ∃ m, fuel = m + 1 := Nat.exists_eq_succ_of_ne_zero (by omega)
    rw [hbody word hword, List.append_assoc, List.append_assoc,
      textFrom?_gap (Cursor.not_atDocumentMark hcolumn.ne') (by simp [hne]) (hrun _) hspacing hne
        (singleBody_head hrest),
      ih hrestbody (by omega) hplace, hfold]
    simp [Place.over_append]

theorem read?_single (hindent : 0 < indent) (htail : tail.head? ≠ some '\x27') (h : Body cs) :
    read? false ⟨Writer.singleQuoted indent cs ++ tail, p⟩ =
      some (cs, ⟨tail, p.over (Writer.singleQuoted indent cs)⟩) := by
  have hlength : cs.length ≤ (Writer.singleBody indent false cs).length := Writer.length_le_singleBody cs
  have hcolumn : 0 < (p.after '\x27').column := Nat.succ_pos _
  rw [Writer.singleQuoted_eq, List.append_assoc, List.singleton_append]
  simp only [List.cons_append, read?, Cursor.tail]
  rw [textFrom?_single hindent htail h (by simp only [List.length_append, List.length_cons]; omega) hcolumn]
  rfl

theorem body_of_allowsSingleQuotes (h : Writer.allowsSingleQuotes cs = true) (hfeed : '\n' ∉ cs) : Body cs := by
  simp only [Writer.allowsSingleQuotes, Bool.and_eq_true, Bool.not_eq_true'] at h
  obtain ⟨⟨hshown, hspaceBreak⟩, hbreakSpace⟩ := h
  refine ⟨fun htab => ?_, hfeed, fun c hc => ?_, fun c hbreak hc => ?_⟩
  · exact absurd (List.all_eq_true.mp hshown _ htab) (by decide)
  · exact Writer.hasPair_eq_false_iff.mp hspaceBreak ' ' c hc rfl
  · exact absurd (Writer.hasPair_eq_false_iff.mp hbreakSpace c ' ' hc hbreak) (by decide)

theorem ofCodePoint?_toNat (c : Char) : ofCodePoint? c.toNat = some c := by
  have hvalid : c.toNat.isValidChar := c.valid
  rw [ofCodePoint?, if_pos hvalid, Char.ofNat_toNat]

theorem hexValue?_digitChar (d : Fin 16) : hexValue? (Nat.digitChar d.val).toUpper = some d.val := by
  revert d
  decide

theorem doubleRun?_digit {left value n : Nat} :
    doubleRun? (.digits (left + 2) value) ((Nat.digitChar (n % 16)).toUpper :: rest) p =
      doubleRun? (.digits (left + 1) (value * 16 + n % 16)) rest (p.after (Nat.digitChar (n % 16)).toUpper) := by
  rw [doubleRun?, hexValue?_digitChar ⟨n % 16, Nat.mod_lt n (by decide)⟩]
  simp

theorem doubleRun?_digits {left value width n : Nat} :
    doubleRun? (.digits (left + 1 + width) value) (Writer.hexDigits width n ++ rest) p =
      doubleRun? (.digits (left + 1) (value * 16 ^ width + n % 16 ^ width)) rest
        (p.over (Writer.hexDigits width n)) := by
  -- the digits are written from the last one on, and one more is expected than is read
  induction width generalizing left n rest with
  | zero => simp [Writer.hexDigits, Nat.mod_one]
  | succ width ih =>
    have hvalue : value * 16 ^ (width + 1) + n % 16 ^ (width + 1) =
        (value * 16 ^ width + n / 16 % 16 ^ width) * 16 + n % 16 := by
      rw [Nat.pow_succ', Nat.mod_mul]
      ring
    rw [Writer.hexDigits, List.append_assoc, show left + 1 + (width + 1) = left + 1 + 1 + width by omega, ih,
      List.singleton_append, doubleRun?_digit, hvalue, Place.over_append]
    rfl

theorem doubleRun?_hex {width : Nat} (hc : c.toNat < 16 ^ (width + 1)) :
    doubleRun? (.digits (width + 1) 0) (Writer.hexDigits (width + 1) c.toNat ++ rest) p =
      (doubleRun? .text rest (p.over (Writer.hexDigits (width + 1) c.toNat))).map fun r => (c :: r.1, r.2) := by
  have hvalue : c.toNat / 16 % 16 ^ width * 16 + c.toNat % 16 = c.toNat := by
    rw [Nat.mod_eq_of_lt (Nat.div_lt_of_lt_mul (by rwa [← Nat.pow_succ']))]
    omega
  rw [Writer.hexDigits, List.append_assoc, Nat.add_comm width 1, ← Nat.zero_add 1, doubleRun?_digits,
    List.singleton_append, doubleRun?, hexValue?_digitChar ⟨c.toNat % 16, Nat.mod_lt _ (by decide)⟩]
  simp only [Nat.zero_mul, Nat.zero_add, Nat.le_refl, if_true, hvalue, ofCodePoint?_toNat, Place.over_append]
  rfl

theorem doubleRun?_numbered (mark : Char) (width : Nat) (hmark : escapeWidth? mark = some (width + 1))
    (hletter : escaped? mark = none) (hbreak : isBreak mark = false) (hc : c.toNat < 16 ^ (width + 1)) :
    doubleRun? .escape (mark :: Writer.hexDigits (width + 1) c.toNat ++ rest) p =
      (doubleRun? .text rest (p.over (mark :: Writer.hexDigits (width + 1) c.toNat))).map
        fun r => (c :: r.1, r.2) := by
  rw [List.cons_append, doubleRun?, if_neg (by simp [hbreak]), hletter, hmark]
  exact doubleRun?_hex hc

theorem doubleRun?_escape : doubleRun? .escape (Writer.escape c ++ rest) p =
    (doubleRun? .text rest (p.over (Writer.escape c))).map fun r => (c :: r.1, r.2) := by
  unfold Writer.escape
  split
  case h_15 =>
    split
    · exact doubleRun?_numbered 'x' 1 rfl rfl rfl (by omega)
    · split
      · exact doubleRun?_numbered 'u' 3 rfl rfl rfl (by omega)
      · have hvalid : c.toNat < 0xd800 ∨ 0xdfff < c.toNat ∧ c.toNat < 0x110000 := c.valid
        exact doubleRun?_numbered 'U' 7 rfl rfl rfl (by omega)
  all_goals rfl

theorem not_isSpacing_of_shown (hshown : Writer.isShown c = true) (hbreak : isBreak c = false) (hc : c ≠ ' ') :
    isSpacing c = false := by
  have htab : c ≠ '\t' := by
    rintro rfl
    exact absurd hshown (by decide)
  simp [isSpacing, isBlank, hbreak, hc, htab]

theorem escaped_ne_nil (c : Char) : escaped c ≠ [] := by
  rw [escaped]
  split <;> exact List.cons_ne_nil _ _

theorem escaped_cases (hc : c ≠ ' ') : escaped c = '\\' :: Writer.escape c ∨
    escaped c = [c] ∧ isSpacing c = false ∧ c ≠ '"' ∧ c ≠ '\\' := by
  rw [escaped]
  split
  · exact .inl rfl
  · rename_i hplain
    simp only [Bool.or_eq_true, Bool.not_eq_true', decide_eq_true_eq, not_or, Bool.not_eq_false,
      Bool.not_eq_true] at hplain
    obtain ⟨⟨⟨hshown, hbreak⟩, hquote⟩, hslash⟩ := hplain
    exact .inr ⟨rfl, not_isSpacing_of_shown hshown hbreak hc, hquote, hslash⟩

theorem doubleRun?_escaped (hc : c ≠ ' ') : doubleRun? .text (escaped c ++ rest) p =
    (doubleRun? .text rest (p.over (escaped c))).map fun r => (c :: r.1, r.2) := by
  obtain hescape | ⟨hself, hspacing, hquote, hslash⟩ := escaped_cases hc
  · rw [hescape, List.cons_append, doubleRun?, if_neg (by decide), if_pos rfl, doubleRun?_escape]
    rfl
  · rw [hself, List.singleton_append, doubleRun?, if_neg (by simp [hquote, hspacing]), if_neg hslash]
    rfl

theorem doubleRun?_word (hword : ∀ c ∈ word, c ≠ ' ')
    (hstop : ∀ p, doubleRun? .text rest p = some ([], false, ⟨rest, p⟩)) :
    doubleRun? .text (word.flatMap escaped ++ rest) p =
      some (word, false, ⟨rest, p.over (word.flatMap escaped)⟩) := by
  induction word generalizing p with
  | nil => exact hstop p
  | cons c word ih =>
    obtain ⟨hc, hword⟩ := List.forall_mem_cons.mp hword
    rw [List.flatMap_cons, List.append_assoc, doubleRun?_escaped hc, ih hword, Place.over_append]
    rfl

theorem doubleBody_head (hrest : ∀ c ∈ rest.head?, c ≠ ' ') :
    ∀ c ∈ (rest.flatMap escaped ++ '"' :: tail).head?, isSpacing c = false := by
  cases rest with
  | nil =>
    rintro c hc
    rw [← Option.some.inj hc]
    rfl
  | cons d rest =>
    obtain hescape | ⟨hself, hspacing, -, -⟩ := escaped_cases (hrest d rfl)
    · rw [List.flatMap_cons, hescape]
      rintro c hc
      rw [← Option.some.inj hc]
      rfl
    · rw [List.flatMap_cons, hself]
      rintro c hc
      rwa [← Option.some.inj hc]

theorem flatMap_escaped_spaces (h : ∀ c ∈ cs, c = ' ') : cs.flatMap escaped = cs := by
  induction cs with
  | nil => rfl
  | cons c cs ih =>
    obtain ⟨rfl, hcs⟩ := List.forall_mem_cons.mp h
    rw [List.flatMap_cons, ih hcs]
    rfl

theorem textFrom?_double (hfuel : cs.length ≤ fuel) (hcolumn : 0 < p.column) :
    textFrom? true (fuel + 1) ⟨cs.flatMap escaped ++ '"' :: tail, p⟩ =
      some (cs, ⟨tail, p.over (cs.flatMap escaped ++ ['"'])⟩) := by
  -- a space is the only white space that is not escaped
  induction cs using gap_induction (· = ' ') generalizing fuel p with
  | hword word hword =>
    have hrun : run? true ⟨word.flatMap escaped ++ '"' :: tail, p⟩ =
        some (word, false, ⟨'"' :: tail, p.over (word.flatMap escaped)⟩) :=
      doubleRun?_word (fun c hc => of_decide_eq_false (hword c hc)) fun _ => rfl
    rw [textFrom?_closed (Cursor.not_atDocumentMark hcolumn.ne') (by simp) hrun, Place.over_append]
    rfl
  | hgap word gap rest hword hne hgap hrest ih =>
    have hspaces : ∀ c ∈ gap, c = ' ' := fun c hc => of_decide_eq_true (hgap c hc)
    have hline : ∀ c ∈ gap, isBreak c = false := fun c hc => by
      rw [hspaces c hc]
      rfl
    have hspacing : ∀ c ∈ gap, isSpacing c = true := fun c hc => by
      rw [hspaces c hc]
      rfl
    have hlength := List.length_pos_iff.mpr hne
    have hstop (more : List Char) (p : Place) :
        doubleRun? .text (gap ++ more) p = some ([], false, ⟨gap ++ more, p⟩) := by
      obtain ⟨c, gap, rfl⟩ := List.exists_cons_of_ne_nil hne
      rw [List.cons_append, doubleRun?, if_pos (.inr (hspacing c List.mem_cons_self))]
    have hrun (more : List Char) : run? true ⟨word.flatMap escaped ++ (gap ++ more), p⟩ =
        some (word, false, ⟨gap ++ more, p.over (word.flatMap escaped)⟩) :=
      doubleRun?_word (fun c hc => of_decide_eq_false (hword c hc)) (hstop more)
    have hplace : 0 < ((p.over (word.flatMap escaped)).over gap).column := by
      rw [Place.column_over_line hline]
      omega
    simp only [List.length_append] at hfuel
    obtain ⟨fuel, rfl⟩ : ∃ m, fuel = m + 1 := Nat.exists_eq_succ_of_ne_zero (by omega)
    rw [List.flatMap_append, List.flatMap_append, flatMap_escaped_spaces hspaces, List.append_assoc,
      List.append_assoc, textFrom?_gap (Cursor.not_atDocumentMark hcolumn.ne') (by simp [hne]) (hrun _) hspacing
        hne (doubleBody_head fun c hc => of_decide_eq_false (hrest c hc)),
      ih (by omega) hplace, foldGap_line hline]
    simp [Place.over_append]

theorem read?_double (cs : List Char) : read? true ⟨Writer.doubleQuoted cs ++ tail, p⟩ =
    some (cs, ⟨tail, p.over (Writer.doubleQuoted cs)⟩) := by
  have hlength : cs.length ≤ (cs.flatMap escaped).length := by
    induction cs with
    | nil => exact Nat.zero_le _
    | cons c cs ih =>
      have hescaped := List.length_pos_iff.mpr (escaped_ne_nil c)
      rw [List.flatMap_cons, List.length_append, List.length_cons]
      omega
  have hcolumn : 0 < (p.after '"').column := Nat.succ_pos _
  rw [Writer.doubleQuoted_eq, List.append_assoc, List.singleton_append]
  simp only [List.cons_append, read?, Cursor.tail]
  rw [textFrom?_double (by simp only [List.length_append, List.length_cons]; omega) hcolumn]
  rfl

end Quoted

end PortLease.Yaml
