import PortLease.Proofs.Yaml.Scalar.Quoted
import PortLease.Yaml.Scalar.Block

namespace PortLease.Yaml

variable {cs line gap rest text more : List Char} {indent n fuel least : Nat} {p : Place} {c : Char}

namespace Writer

theorem indented_line (hline : ∀ c ∈ line, isBreak c = false) :
    indented indent false (line ++ rest) = line ++ indented indent false rest := by
  induction line with
  | nil => rfl
  | cons c line ih =>
    obtain ⟨hc, hline⟩ := List.forall_mem_cons.mp hline
    rw [List.cons_append, indented, if_neg (by simp [hc]), ih hline]
    rfl

theorem indented_breaks {fresh : Bool} (hgap : ∀ c ∈ gap, isBreak c = true) (hne : gap ≠ []) :
    indented indent fresh (gap ++ rest) = gap ++ indented indent true rest := by
  induction gap generalizing fresh with
  | nil => exact absurd rfl hne
  | cons c gap ih =>
    obtain ⟨hc, hgap⟩ := List.forall_mem_cons.mp hgap
    rw [List.cons_append, indented, if_pos hc]
    cases gap with
    | nil => rfl
    | cons d gap => rw [ih hgap (List.cons_ne_nil d gap)]; rfl

theorem indented_gap {fresh : Bool} (hgap : ∀ c ∈ gap, isBreak c = true) : indented indent fresh gap = gap := by
  induction gap generalizing fresh with
  | nil => rfl
  | cons c gap ih =>
    obtain ⟨hc, hgap⟩ := List.forall_mem_cons.mp hgap
    rw [indented, if_pos hc, ih hgap]

theorem indented_fresh (hne : rest ≠ []) (hrest : ∀ c ∈ rest.head?, isBreak c = false) :
    indented indent true rest = pad indent ++ indented indent false rest := by
  obtain ⟨c, rest, rfl⟩ := List.exists_cons_of_ne_nil hne
  have hc : ¬ isBreak c = true := by simp [hrest c rfl]
  rw [indented, indented, if_neg hc, if_neg hc, if_pos rfl, if_neg Bool.false_ne_true]
  rfl

theorem indented_first (hgap : ∀ c ∈ gap, isBreak c = true) (hne : rest ≠ [])
    (hrest : ∀ c ∈ rest.head?, isBreak c = false) :
    indented indent true (gap ++ rest) = gap ++ (pad indent ++ indented indent false rest) := by
  cases gap with
  | nil => exact indented_fresh hne hrest
  | cons c gap => rw [indented_breaks hgap (List.cons_ne_nil c gap), indented_fresh hne hrest]

theorem length_le_indented {fresh : Bool} (cs : List Char) : cs.length ≤ (indented indent fresh cs).length := by
  induction cs generalizing fresh with
  | nil => exact Nat.zero_le _
  | cons c cs ih =>
    rw [indented]
    split
    · exact Nat.succ_le_succ ih
    · have : cs.length ≤ (indented indent false cs).length := ih
      simp only [List.length_append, List.length_cons]
      omega

def lastEnd (cs : List Char) : List Char := if cs.getLast?.any isBreak then [] else ['\n']

end Writer

namespace Block

open Writer (indented pad lastEnd)

def chompMark : Chomping → List Char
  | .strip => ['-']
  | .clip => []
  | .keep => ['+']

def Fits (cs : List Char) : Chomping → Prop
  | .strip => ∀ c ∈ cs.getLast?, isBreak c = false
  | .clip => ∃ before a b, cs = before ++ [a, b] ∧ isBreak a = false ∧ isBreak b = true
  | .keep => ∃ c ∈ cs.getLast?, isBreak c = true

theorem exists_fits (hne : cs ≠ []) : ∃ chomping, Writer.chompHint cs = chompMark chomping ∧ Fits cs chomping := by
  unfold Writer.chompHint
  split
  · rename_i b a before hreverse
    have hcs : cs = before.reverse ++ [a, b] := by simpa using congrArg List.reverse hreverse
    cases hb : isBreak b with
    | false => exact ⟨.strip, rfl, by simp [Fits, hcs, hb]⟩
    | true =>
      cases ha : isBreak a with
      | false => exact ⟨.clip, rfl, before.reverse, a, b, hcs, ha, hb⟩
      | true => exact ⟨.keep, rfl, b, by simp [hcs], hb⟩
  · rename_i a hreverse
    have hcs : cs = [a] := by simpa using congrArg List.reverse hreverse
    cases ha : isBreak a with
    | false => exact ⟨.strip, by simp [chompMark], by simp [Fits, hcs, ha]⟩
    | true => exact ⟨.keep, by simp [chompMark], a, by simp [hcs], ha⟩
  · rename_i hreverse
    exact absurd (List.reverse_eq_nil_iff.mp hreverse) hne

theorem Fits.suffix {chomping : Chomping} (before : List Char) (h : Fits (before ++ rest) chomping) (hne : rest ≠ [])
    (hrest : ∀ c ∈ rest.head?, isBreak c = false) : Fits rest chomping := by
  have hlast : (before ++ rest).getLast? = rest.getLast? := by
    rw [List.getLast?_append, List.getLast?_eq_some_getLast hne]
    rfl
  cases chomping with
  | strip => exact fun c hc => h c (hlast ▸ hc)
  | keep =>
    obtain ⟨c, hc, hbreak⟩ := h
    exact ⟨c, hlast ▸ hc, hbreak⟩
  | clip =>
    obtain ⟨init, a, b, hcs, ha, hb⟩ := h
    have hreverse : rest.reverse ++ before.reverse = b :: a :: init.reverse := by
      simpa using congrArg List.reverse hcs
    obtain ⟨y, ys, hys⟩ := List.exists_cons_of_ne_nil (mt List.reverse_eq_nil_iff.mp hne)
    rw [hys, List.cons_append, List.cons.injEq] at hreverse
    obtain ⟨rfl, hreverse⟩ := hreverse
    cases ys with
    | nil =>
      have hsingle : rest = [y] := by simpa using congrArg List.reverse hys
      rw [hsingle] at hrest
      rw [hrest y rfl] at hb
      cases hb
    | cons x xs =>
      obtain ⟨rfl, -⟩ := List.cons.inj hreverse
      exact ⟨xs.reverse, x, y, by simpa using congrArg List.reverse hys, ha, hb⟩

theorem readHeader?_hints {chomping : Chomping} {hinted : Bool} :
    readHeader? ⟨(if hinted then ['2'] else []) ++ chompMark chomping ++ '\n' :: rest, p⟩ =
      some (⟨chomping, if hinted then some 2 else none⟩,
        ⟨rest, p.over ((if hinted then ['2'] else []) ++ chompMark chomping ++ ['\n'])⟩) := by
  cases hinted <;> cases chomping <;>
    simp [readHeader?, readChomping, readIndent?, chompMark, chomping?, Cursor.head?, Cursor.tail, isDigit,
      Cursor.skipLineEnd?, Cursor.skipWhile, Cursor.span, isBlank, isBreak]

theorem leadIn?_pad {width : Option Nat} {farthest : Nat} (h : ∀ w ∈ width, p.column + n ≤ w) :
    leadIn? width (pad n ++ rest) p farthest = leadIn? width rest (p.over (pad n)) farthest := by
  induction n generalizing p with
  | zero => rfl
  | succ n ih =>
    have hshort : width.all (p.column < ·) = true := by
      cases width with
      | none => rfl
      | some w => simpa using Nat.lt_of_lt_of_le (Nat.lt_add_of_pos_right (Nat.succ_pos n)) (h w rfl)
    have hcolumn : (p.after ' ').column = p.column + 1 := rfl
    have hpad : pad (n + 1) = ' ' :: pad n := rfl
    rw [hpad, List.cons_append, leadIn?, hshort, if_pos (by decide), ih]
    · rfl
    · intro w hw
      have := h w hw
      omega

theorem leadIn?_break {width : Option Nat} {farthest : Nat} (hc : isBreak c = true) :
    leadIn? width (c :: rest) p farthest =
      (leadIn? width rest (p.after c) (max farthest p.column)).map fun r => (c :: r.1, r.2) := by
  have hspace : decide (c = ' ') = false := decide_eq_false fun h => by
    rw [h] at hc
    cases hc
  have htab : decide (c = '\t') = false := decide_eq_false fun h => by
    rw [h] at hc
    cases hc
  simp only [leadIn?, hspace, htab, Bool.and_false, Bool.false_eq_true, if_false, hc, if_true]

theorem leadIn?_stop {width : Option Nat} {farthest : Nat} (hbreak : ∀ c ∈ rest.head?, isBreak c = false)
    (hblank : width.all (p.column < ·) = true → ∀ c ∈ rest.head?, isBlank c = false) :
    leadIn? width rest p farthest = some ([], max farthest p.column, ⟨rest, p⟩) := by
  cases rest with
  | nil => rfl
  | cons c rest =>
    cases hshort : width.all (p.column < ·) with
    | false => simp [leadIn?, hshort, hbreak c rfl]
    | true =>
      have hc := hblank hshort c rfl
      simp only [isBlank, Bool.or_eq_false_iff, decide_eq_false_iff_not] at hc
      simp [leadIn?, hc, hbreak c rfl]

theorem leadIn?_gap (farthest : Nat) (hgap : ∀ c ∈ gap, isBreak c = true) (hn : (p.over gap).column + n ≤ indent)
    (hbreak : ∀ c ∈ rest.head?, isBreak c = false)
    (hblank : (p.over gap).column + n < indent → ∀ c ∈ rest.head?, isBlank c = false) :
    ∃ reached, leadIn? (some indent) (gap ++ (pad n ++ rest)) p farthest =
      some (gap, reached, ⟨rest, p.over (gap ++ pad n)⟩) := by
  induction gap generalizing p farthest with
  | nil =>
    have hcolumn : (p.over (pad n)).column = p.column + n := by
      rw [Place.column_over_line isBreak_pad, pad, List.length_replicate]
    refine ⟨max farthest (p.over (pad n)).column, ?_⟩
    rw [List.nil_append, leadIn?_pad (by simpa using hn), leadIn?_stop hbreak]
    · rfl
    · intro hshort
      refine hblank ?_
      rw [hcolumn] at hshort
      simpa using hshort
  | cons c gap ih =>
    obtain ⟨hc, hgap⟩ := List.forall_mem_cons.mp hgap
    obtain ⟨reached, hread⟩ := ih (p := p.after c) (max farthest p.column) hgap hn hblank
    exact ⟨reached, by rw [List.cons_append, leadIn?_break hc, hread]; rfl⟩

theorem linesFrom?_end {chomping : Chomping} {e : Ending} {afterBlank : Bool} (h : p.column ≠ indent) :
    linesFrom? false chomping indent (fuel + 1) e afterBlank ⟨rest, p⟩ = some (e.chomp chomping, ⟨rest, p⟩) := by
  rw [linesFrom?]
  cases rest with
  | nil => rfl
  | cons c rest => exact if_pos h

theorem linesFrom?_line (fuel : Nat) (chomping : Chomping) (e : Ending) (afterBlank : Bool) {reached : Nat}
    {k : Cursor} (hline : ∀ c ∈ line, isBreak c = false) (hne : line ≠ []) (hc : isBreak c = true)
    (hcolumn : p.column = indent)
    (hlead : leadIn? (some indent) rest ((p.over line).after c) 0 = some (more, reached, k)) :
    ∃ blank, linesFrom? false chomping indent (fuel + 1) e afterBlank ⟨line ++ c :: rest, p⟩ =
      (linesFrom? false chomping indent fuel ⟨[c], more⟩ blank k).map fun (text, k) =>
        (e.first ++ e.more ++ line ++ text, k) := by
  obtain ⟨d, line, rfl⟩ := List.exists_cons_of_ne_nil hne
  have hspan : Cursor.span (!isBreak ·) ⟨d :: line ++ c :: rest, p⟩ = (d :: line, ⟨c :: rest, p.over (d :: line)⟩) :=
    Cursor.span_append (by simpa using hline) (by simp [hc])
  refine ⟨isBlank d, ?_⟩
  rw [linesFrom?]
  simp only [List.cons_append, hcolumn, ne_eq, not_true_eq_false, if_false]
  rw [← List.cons_append, hspan]
  simp only [List.take, Cursor.tail, hlead]
  simp [Ending.join]

theorem leadIn?_next {b : Char} (hgap : ∀ c ∈ b :: more, isBreak c = true) (hn : n ≤ indent)
    (hbreak : ∀ c ∈ rest.head?, isBreak c = false) (hblank : n < indent → ∀ c ∈ rest.head?, isBlank c = false) :
    ∃ reached, leadIn? (some indent) (more ++ (pad n ++ rest)) (p.after b) 0 =
      some (more, reached, ⟨rest, p.over (b :: more ++ pad n)⟩) := by
  have hcolumn : ((p.after b).over more).column = 0 := by
    have hcolumn : (p.over (b :: more ++ pad 0)).column = 0 := Place.column_over_gap hgap (List.cons_ne_nil b more)
    rwa [pad, List.replicate_zero, List.append_nil] at hcolumn
  exact leadIn?_gap 0 (List.forall_mem_cons.mp hgap).2 (by omega) hbreak fun h => hblank (by omega)

theorem indented_head (hne : rest ≠ []) (hrest : ∀ c ∈ rest.head?, isBreak c = false) :
    (indented indent false rest ++ more).head? = rest.head? := by
  obtain ⟨c, rest, rfl⟩ := List.exists_cons_of_ne_nil hne
  rw [indented, if_neg (by simp [hrest c rfl])]
  rfl

theorem lastEnd_append (hne : rest ≠ []) : lastEnd (line ++ rest) = lastEnd rest := by
  rw [lastEnd, lastEnd, List.getLast?_append, List.getLast?_eq_some_getLast hne]
  rfl

theorem lastEnd_line (hline : ∀ c ∈ line, isBreak c = false) : lastEnd line = ['\n'] := by
  have hlast : line.getLast?.any isBreak = false := by
    rw [Option.any_eq_false]
    exact fun c hc => by simp [hline c (List.mem_of_mem_getLast? hc)]
  rw [lastEnd, hlast]
  rfl

theorem lastEnd_breaks (hgap : ∀ c ∈ gap, isBreak c = true) (hne : gap ≠ []) : lastEnd gap = [] := by
  rw [lastEnd, List.getLast?_eq_some_getLast hne, Option.any_some, hgap _ (List.getLast_mem hne)]
  rfl

theorem Fits.gap_nil (hfits : Fits (line ++ c :: gap) .clip) (hgap : ∀ d ∈ c :: gap, isBreak d = true) : gap = [] := by
  obtain ⟨before, a, d, hcs, ha, -⟩ := hfits
  obtain rfl | ⟨init, y, rfl⟩ := List.eq_nil_or_concat gap
  · rfl
  · -- with a second line end the last but one character would be one, too
    have hinit : line ++ c :: init = before ++ [a] := by
      have hcs : (line ++ c :: init) ++ [y] = (before ++ [a]) ++ [d] := by simpa using hcs
      exact (List.append_inj' hcs rfl).1
    have hlast : a ∈ c :: init := by
      have hlast := congrArg List.getLast? hinit
      rw [List.getLast?_append, List.getLast?_eq_some_getLast (List.cons_ne_nil c init),
        List.getLast?_concat] at hlast
      rw [← Option.some.inj hlast]
      exact List.getLast_mem _
    have hbreak := hgap a (by
      rw [List.concat_eq_append, ← List.cons_append]
      exact List.mem_append_left _ hlast)
    rw [ha] at hbreak
    cases hbreak

theorem Fits.chomp {chomping : Chomping} {b : Char} (hfits : Fits (line ++ gap) chomping)
    (hline : ∀ c ∈ line, isBreak c = false) (hgap : ∀ c ∈ gap, isBreak c = true)
    (hwritten : gap ++ lastEnd (line ++ gap) = b :: more) : Ending.chomp ⟨[b], more⟩ chomping = gap := by
  cases gap with
  | nil =>
    rw [List.append_nil] at hfits
    cases chomping with
    | strip => rfl
    | keep =>
      obtain ⟨c, hc, hbreak⟩ := hfits
      rw [hline c (List.mem_of_mem_getLast? hc)] at hbreak
      cases hbreak
    | clip =>
      obtain ⟨before, a, c, rfl, -, hbreak⟩ := hfits
      rw [hline c (by simp)] at hbreak
      cases hbreak
  | cons c gap =>
    rw [lastEnd_append (List.cons_ne_nil c gap), lastEnd_breaks hgap (List.cons_ne_nil c gap), List.append_nil,
      List.cons.injEq] at hwritten
    obtain ⟨rfl, rfl⟩ := hwritten
    cases chomping with
    | keep => rfl
    | strip =>
      have hlast := hfits ((c :: gap).getLast (List.cons_ne_nil c gap))
        (by rw [List.getLast?_append, List.getLast?_eq_some_getLast (List.cons_ne_nil c gap)]; rfl)
      rw [hgap _ (List.getLast_mem _)] at hlast
      cases hlast
    | clip =>
      rw [hfits.gap_nil hgap]
      rfl

theorem linesFrom?_last (fuel : Nat) (chomping : Chomping) (e : Ending) (afterBlank : Bool) {b : Char}
    (hn : n < indent) (htext : ∀ c ∈ text.head?, isSpacing c = false) (hline : ∀ c ∈ line, isBreak c = false)
    (hne : line ≠ []) (hgap : ∀ c ∈ b :: more, isBreak c = true) (hcolumn : p.column = indent) :
    linesFrom? false chomping indent (fuel + 2) e afterBlank ⟨line ++ (b :: more ++ (pad n ++ text)), p⟩ =
      some (e.first ++ e.more ++ line ++ Ending.chomp ⟨[b], more⟩ chomping,
        ⟨text, p.over (line ++ (b :: more ++ pad n))⟩) := by
  have hbreak : ∀ c ∈ text.head?, isBreak c = false := fun c hc => (Bool.or_eq_false_iff.mp (htext c hc)).2
  have hblank : ∀ c ∈ text.head?, isBlank c = false := fun c hc => (Bool.or_eq_false_iff.mp (htext c hc)).1
  obtain ⟨reached, hlead⟩ := leadIn?_next (p := p.over line) hgap hn.le hbreak fun _ => hblank
  obtain ⟨blank, hread⟩ := linesFrom?_line (fuel + 1) chomping e afterBlank hline hne (hgap b List.mem_cons_self)
    hcolumn hlead
  have hcolumn' : ((p.over line).over (b :: more ++ pad n)).column ≠ indent := by
    rw [Place.column_over_gap hgap (List.cons_ne_nil b more)]
    exact hn.ne
  rw [List.cons_append, hread, linesFrom?_end hcolumn', Place.over_append p line]
  rfl

theorem exists_written (hline : ∀ c ∈ line, isBreak c = false) (hgap : ∀ c ∈ gap, isBreak c = true) :
    ∃ b more, gap ++ lastEnd (line ++ gap) = b :: more ∧ ∀ c ∈ b :: more, isBreak c = true := by
  cases gap with
  | nil =>
    rw [List.append_nil, lastEnd_line hline]
    exact ⟨'\n', [], rfl, List.forall_mem_singleton.mpr rfl⟩
  | cons b more =>
    have hne : b :: more ≠ [] := List.cons_ne_nil b more
    exact ⟨b, more, by rw [lastEnd_append hne, lastEnd_breaks hgap hne, List.append_nil], hgap⟩

theorem linesFrom?_lastLine (fuel : Nat) (chomping : Chomping) (e : Ending) (afterBlank : Bool) (hn : n < indent)
    (htext : ∀ c ∈ text.head?, isSpacing c = false) (hline : ∀ c ∈ line, isBreak c = false) (hne : line ≠ [])
    (hgap : ∀ c ∈ gap, isBreak c = true) (hfits : Fits (line ++ gap) chomping) (hcolumn : p.column = indent) :
    linesFrom? false chomping indent (fuel + 2) e afterBlank
        ⟨indented indent false (line ++ gap) ++ (lastEnd (line ++ gap) ++ (pad n ++ text)), p⟩ =
      some (e.first ++ e.more ++ (line ++ gap),
        ⟨text, p.over (indented indent false (line ++ gap) ++ (lastEnd (line ++ gap) ++ pad n))⟩) := by
  obtain ⟨b, more, hwritten, hbreaks⟩ := exists_written hline hgap
  have hlast := linesFrom?_last fuel chomping e afterBlank hn htext hline hne hbreaks hcolumn
  rw [hfits.chomp hline hgap hwritten, ← hwritten] at hlast
  rw [Writer.indented_line hline, Writer.indented_gap hgap]
  simpa only [List.append_assoc] using hlast

theorem linesFrom?_lines {chomping : Chomping} {e : Ending} {afterBlank : Bool} (hn : n < indent)
    (htext : ∀ c ∈ text.head?, isSpacing c = false) (hne : cs ≠ []) (hhead : ∀ c ∈ cs.head?, isBreak c = false)
    (hfits : Fits cs chomping) (hfuel : cs.length < fuel) (hcolumn : p.column = indent) :
    linesFrom? false chomping indent fuel e afterBlank
        ⟨indented indent false cs ++ (lastEnd cs ++ (pad n ++ text)), p⟩ =
      some (e.first ++ e.more ++ cs, ⟨text, p.over (indented indent false cs ++ (lastEnd cs ++ pad n))⟩) := by
  have hlength := List.length_pos_iff.mpr hne
  -- a line takes one step, and the end of the block another one
  obtain ⟨fuel, rfl⟩ : ∃ m, fuel = m + 2 := ⟨fuel - 2, by omega⟩
  induction cs using gap_induction isBreak generalizing fuel p e afterBlank with
  | hword line hline =>
    have hlast := linesFrom?_lastLine fuel chomping e afterBlank hn htext hline hne (List.forall_mem_nil _)
      (by rwa [List.append_nil]) hcolumn
    rwa [List.append_nil] at hlast
  | hgap line gap rest hline hgapne hgap hrest ih =>
    obtain ⟨b, more, rfl⟩ := List.exists_cons_of_ne_nil hgapne
    have hline' : line ≠ [] := by
      rintro rfl
      have hb := hhead b rfl
      rw [hgap b List.mem_cons_self] at hb
      cases hb
    by_cases hrestne : rest = []
    · subst hrestne
      rw [List.append_nil] at *
      exact linesFrom?_lastLine fuel chomping e afterBlank hn htext hline hline' hgap hfits hcolumn
    · have hrestfits : Fits rest chomping :=
        Fits.suffix (line ++ b :: more) (by rwa [List.append_assoc]) hrestne hrest
      have hend : lastEnd (line ++ (b :: more ++ rest)) = lastEnd rest := by
        rw [lastEnd_append (by simp), lastEnd_append hrestne]
      have hhead : ∀ c ∈ (indented indent false rest ++ (lastEnd rest ++ (pad n ++ text))).head?,
          isBreak c = false := by
        rw [indented_head hrestne hrest]
        exact hrest
      obtain ⟨reached, hlead⟩ := leadIn?_next (p := p.over line) hgap (Nat.le_refl indent) hhead
        fun h => absurd h (Nat.lt_irrefl indent)
      simp only [List.length_append, List.length_cons] at hfuel
      have hrestlength := List.length_pos_iff.mpr hrestne
      have hlinelength := List.length_pos_iff.mpr hline'
      obtain ⟨fuel, rfl⟩ : ∃ m, fuel = m + 1 := ⟨fuel - 1, by omega⟩
      obtain ⟨blank, hread⟩ := linesFrom?_line (fuel + 2) chomping e afterBlank hline hline'
        (hgap b List.mem_cons_self) hcolumn hlead
      have hcolumn' : ((p.over line).over (b :: more ++ pad indent)).column = indent :=
        Place.column_over_gap hgap hgapne
      rw [hend, Writer.indented_line hline, Writer.indented_breaks hgap hgapne, Writer.indented_fresh hrestne hrest]
      simp only [List.append_assoc, List.cons_append]
      rw [hread, ih hrestne hrest hrestfits hcolumn' hrestlength fuel (by omega)]
      simp [Place.over_append]

theorem column_over_lead (hp : p.column = 0) (hgap : ∀ c ∈ gap, isBreak c = true) :
    (p.over (gap ++ pad n)).column = n := by
  cases gap with
  | nil =>
    rw [List.nil_append, Place.column_over_line isBreak_pad, hp, pad, List.length_replicate]
    exact Nat.zero_add n
  | cons c gap => exact Place.column_over_gap hgap (List.cons_ne_nil c gap)

theorem column_over_breaks (hp : p.column = 0) (hgap : ∀ c ∈ gap, isBreak c = true) : (p.over gap).column = 0 := by
  have hcolumn := column_over_lead (n := 0) hp hgap
  rwa [pad, List.replicate_zero, List.append_nil] at hcolumn

theorem leadIn?_first {hinted : Bool} (more : List Char) (hp : p.column = 0) (hleast : 1 ≤ least)
    (hgap : ∀ c ∈ gap, isBreak c = true) (hne : rest ≠ []) (hrest : ∀ c ∈ rest.head?, isBreak c = false)
    (hplain : hinted = false → gap = [] ∧ ∀ c ∈ rest.head?, isBlank c = false) :
    ∃ reached, leadIn? (if hinted then some (least + 1) else none)
        (indented (least + 1) true (gap ++ rest) ++ more) p 0 =
        some (gap, reached, ⟨indented (least + 1) false rest ++ more, p.over (gap ++ pad (least + 1))⟩) ∧
      (if hinted then some (least + 1) else none).getD (max reached (max least 1)) = least + 1 := by
  have hhead : (indented (least + 1) false rest ++ more).head? = rest.head? := indented_head hne hrest
  rw [Writer.indented_first hgap hne hrest, List.append_assoc, List.append_assoc]
  cases hinted with
  | true =>
    have hcolumn : (p.over gap).column + (least + 1) ≤ least + 1 := by
      rw [column_over_breaks hp hgap]
      omega
    obtain ⟨reached, hread⟩ := leadIn?_gap 0 hgap hcolumn (hhead ▸ hrest) fun h => absurd h (by
      rw [column_over_breaks hp hgap]
      omega)
    exact ⟨reached, hread, rfl⟩
  | false =>
    -- the header says nothing, and the first line shows how far it is indented
    obtain ⟨rfl, hblank⟩ := hplain rfl
    have hcolumn : (p.over ([] ++ pad (least + 1))).column = least + 1 :=
      column_over_lead hp (List.forall_mem_nil _)
    rw [List.nil_append] at hcolumn
    refine ⟨least + 1, ?_, ?_⟩
    · rw [List.nil_append, if_neg Bool.false_ne_true, leadIn?_pad (by simp),
        leadIn?_stop (hhead ▸ hrest) fun _ => hhead ▸ hblank, hcolumn]
      simp
    · simp only [Bool.false_eq_true, if_false, Option.getD_none]
      omega

theorem Fits.chomp_breaks {chomping : Chomping} (hfits : Fits gap chomping) (hgap : ∀ c ∈ gap, isBreak c = true)
    (hne : gap ≠ []) : Ending.chomp ⟨[], gap⟩ chomping = gap := by
  cases chomping with
  | keep => rfl
  | strip =>
    have hlast := hfits _ (List.getLast?_eq_some_getLast hne)
    rw [hgap _ (List.getLast_mem hne)] at hlast
    cases hlast
  | clip =>
    obtain ⟨before, a, b, rfl, ha, -⟩ := hfits
    rw [hgap a (by simp)] at ha
    cases ha

def lines? (width : Option Nat) (chomping : Chomping) (least : Nat) (text : List Char) (p : Place) :
    Option (List Char × Cursor) :=
  (leadIn? width text p 0).bind fun (breaks, farthest, k) =>
    linesFrom? false chomping (width.getD (max farthest (max least 1))) (k.rest.length + 1) ⟨[], breaks⟩ false k

theorem lines?_breaks {chomping : Chomping} (hp : p.column = 0) (hn : n ≤ least) (hgap : ∀ c ∈ gap, isBreak c = true)
    (hne : gap ≠ []) (htext : ∀ c ∈ text.head?, isSpacing c = false) (hfits : Fits gap chomping) :
    lines? (some (least + 1)) chomping least (gap ++ (pad n ++ text)) p =
      some (gap, ⟨text, p.over (gap ++ pad n)⟩) := by
  have hbreak : ∀ c ∈ text.head?, isBreak c = false := fun c hc => (Bool.or_eq_false_iff.mp (htext c hc)).2
  have hblank : ∀ c ∈ text.head?, isBlank c = false := fun c hc => (Bool.or_eq_false_iff.mp (htext c hc)).1
  have hshort : (p.over gap).column + n ≤ least + 1 := by
    rw [column_over_breaks hp hgap]
    omega
  have hcolumn : (p.over (gap ++ pad n)).column ≠ least + 1 := by
    rw [Place.column_over_gap hgap hne]
    omega
  obtain ⟨reached, hlead⟩ := leadIn?_gap 0 hgap hshort hbreak fun _ => hblank
  rw [lines?, hlead, Option.bind_some]
  simp only [Option.getD_some]
  rw [linesFrom?_end hcolumn, hfits.chomp_breaks hgap hne]

theorem lines?_text {hinted : Bool} {chomping : Chomping} (hp : p.column = 0) (hleast : 1 ≤ least) (hn : n ≤ least)
    (hgap : ∀ c ∈ gap, isBreak c = true) (hne : rest ≠ []) (hrest : ∀ c ∈ rest.head?, isBreak c = false)
    (htext : ∀ c ∈ text.head?, isSpacing c = false) (hfits : Fits (gap ++ rest) chomping)
    (hplain : hinted = false → gap = [] ∧ ∀ c ∈ rest.head?, isBlank c = false) :
    lines? (if hinted then some (least + 1) else none) chomping least
        (indented (least + 1) true (gap ++ rest) ++ (lastEnd (gap ++ rest) ++ (pad n ++ text))) p =
      some (gap ++ rest,
        ⟨text, p.over (indented (least + 1) true (gap ++ rest) ++ (lastEnd (gap ++ rest) ++ pad n))⟩) := by
  obtain ⟨reached, hlead, hindent⟩ := leadIn?_first (lastEnd rest ++ (pad n ++ text)) hp hleast hgap hne hrest hplain
  have hlength : rest.length ≤ (indented (least + 1) false rest).length := Writer.length_le_indented rest
  rw [lines?, lastEnd_append hne, hlead, Option.bind_some]
  simp only [hindent]
  rw [linesFrom?_lines (by omega) htext hne hrest (hfits.suffix gap hne hrest)
      (by simp only [List.length_append]; omega) (column_over_lead hp hgap), Writer.indented_first hgap hne hrest]
  simp [Place.over_append]

theorem lines?_written {hinted : Bool} {chomping : Chomping} (hp : p.column = 0) (hleast : 1 ≤ least) (hn : n ≤ least)
    (hne : cs ≠ []) (htab : '\t' ∉ cs) (htext : ∀ c ∈ text.head?, isSpacing c = false) (hfits : Fits cs chomping)
    (hhinted : (cs.head?.any fun c => Writer.isSpace c || isBreak c) = hinted) :
    lines? (if hinted then some (least + 1) else none) chomping least
        (indented (least + 1) true cs ++ (lastEnd cs ++ (pad n ++ text))) p =
      some (cs, ⟨text, p.over (indented (least + 1) true cs ++ (lastEnd cs ++ pad n))⟩) := by
  have hsplit : cs = cs.takeWhile isBreak ++ cs.dropWhile isBreak := List.takeWhile_append_dropWhile.symm
  have hgap : ∀ c ∈ cs.takeWhile isBreak, isBreak c = true := fun c hc => List.mem_takeWhile_imp hc
  have hrest : ∀ c ∈ (cs.dropWhile isBreak).head?, isBreak c = false := fun c hc => by
    have hstop := List.head?_dropWhile_not isBreak cs
    rwa [Option.mem_def.mp hc] at hstop
  generalize cs.takeWhile isBreak = gap at *
  generalize cs.dropWhile isBreak = rest at *
  subst hsplit
  by_cases hrestne : rest = []
  · subst hrestne
    rw [List.append_nil] at *
    have hhint : hinted = true := by
      obtain ⟨c, gap, rfl⟩ := List.exists_cons_of_ne_nil hne
      rw [← hhinted]
      simp [hgap c List.mem_cons_self]
    rw [hhint, if_pos rfl, lastEnd_breaks hgap hne, Writer.indented_gap hgap]
    exact lines?_breaks hp hn hgap hne htext hfits
  · refine lines?_text hp hleast hn hgap hrestne hrest htext hfits fun hhint => ?_
    rw [hhint] at hhinted
    cases gap with
    | cons c gap => simp [hgap c List.mem_cons_self] at hhinted
    | nil =>
      refine ⟨rfl, fun c hc => ?_⟩
      have htab' : c ≠ '\t' := fun h => htab (List.mem_of_mem_head? (h ▸ hc))
      rw [List.nil_append, Option.mem_def.mp hc] at hhinted
      simp only [Option.any_some, Writer.isSpace, Bool.or_eq_false_iff, decide_eq_false_iff_not] at hhinted
      simp [isBlank, hhinted.1, htab']

theorem read?_literal (hleast : 1 ≤ least) (hn : n ≤ least) (hne : cs ≠ []) (htab : '\t' ∉ cs)
    (htext : ∀ c ∈ text.head?, isSpacing c = false) :
    read? false least ⟨Writer.literal (least + 1) cs ++ (lastEnd cs ++ (pad n ++ text)), p⟩ =
      some (cs, ⟨text, p.over (Writer.literal (least + 1) cs ++ (lastEnd cs ++ pad n))⟩) := by
  obtain ⟨chomping, hchomp, hfits⟩ := exists_fits hne
  generalize hhinted : (cs.head?.any fun c => Writer.isSpace c || isBreak c) = hinted
  have hliteral : Writer.literal (least + 1) cs = '|' :: ((if hinted then ['2'] else []) ++ chompMark chomping ++
      '\n' :: indented (least + 1) true cs) := by
    rw [Writer.literal, Writer.indentHint, hhinted, hchomp]
    rfl
  have hwidth : (if hinted then some 2 else none).map (fun n => least - 1 + n) =
      if hinted then some (least + 1) else none := by
    cases hinted with
    | true => exact congrArg some (show least - 1 + 2 = least + 1 by omega)
    | false => rfl
  generalize hhints : (if hinted then ['2'] else []) ++ chompMark chomping = hints at hliteral
  have hheader (rest : List Char) (p : Place) : readHeader? ⟨hints ++ '\n' :: rest, p⟩ =
      some (⟨chomping, if hinted then some 2 else none⟩, ⟨rest, p.over (hints ++ ['\n'])⟩) := by
    rw [← hhints]
    exact readHeader?_hints
  have hstart : ((p.after '|').over (hints ++ '\n' :: [])).column = 0 :=
    Place.column_over_break rfl (List.forall_mem_nil _)
  have hlines := lines?_written hstart hleast hn hne htab htext hfits hhinted
  rw [hliteral]
  simp only [read?, Cursor.tail, List.cons_append, List.append_assoc, hheader, hwidth, Option.bind_eq_bind,
    Option.bind_some]
  refine hlines.trans ?_
  simp [Place.over_append]

end Block

end PortLease.Yaml
