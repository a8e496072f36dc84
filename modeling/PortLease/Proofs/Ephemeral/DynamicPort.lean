import PortLease.Proofs.Ephemeral.LabelSearch
import PortLease.Proofs.Text.ByteLines
import PortLease.Proofs.Text.Numeral

namespace PortLease

namespace Ephemeral.DynamicPort

open Text (isBlank isDecimalDigit)

variable {label other line rest text number : List Char} {c : Char} {n s : Nat} {r : PortRange} {search : Search}

def Decimal (digits : List Char) (n : Nat) : Prop :=
  digits ≠ [] ∧ (∀ c ∈ digits, '0' ≤ c ∧ c ≤ '9') ∧
    n = Nat.ofDigits 10 (digits.reverse.map fun c => c.toNat - '0'.toNat)

def CapturesNumber (label : String) (text : List Char) (n : Nat) : Prop :=
  ∃ digits, Captures label.toList text digits ∧ Decimal digits n

structure Spans (r : PortRange) (s n : Nat) : Prop where
  positive : 1 ≤ n
  start : r.start.val = s
  ordered : r.start ≤ r.stop
  bounded : r.stop.val ≤ 65535
  stop : r.stop.val + 1 = s + n
  size : r.size = n

theorem label_start : Label "start port".toList where
  ne_nil := by decide
  begins := by rintro _ ⟨⟩; rfl
  oneLine := by decide
  lower := by decide

theorem label_size : Label "number of ports".toList where
  ne_nil := by decide
  begins := by rintro _ ⟨⟩; rfl
  oneLine := by decide
  lower := by decide

theorem decimal_iff : Text.digits? number = some n ↔ Decimal number n := Text.digits?_eq_some_iff

theorem natBelow?_eq_some_iff (hdigits : ∀ c ∈ number, isDecimalDigit c = true) {bound : Nat} :
    Text.natBelow? bound number = some n ↔ Decimal number n ∧ n < bound := by
  rw [Text.natBelow?_eq_some_iff]
  constructor
  · rintro ⟨digits, rfl | rfl, hne, hall, hn, hlt⟩
    · exact ⟨⟨hne, hall, hn⟩, hlt⟩
    · exact absurd (hdigits '+' List.mem_cons_self) (by decide)
  · rintro ⟨⟨hne, hall, hn⟩, hlt⟩
    exact ⟨number, .inl rfl, hne, hall, hn, hlt⟩

theorem Captures.isDecimalDigit (h : Captures label text number) :
    ∀ c ∈ number, isDecimalDigit c = true := by
  obtain ⟨before, ⟨rest, -, -, hlabels⟩, -⟩ := h
  obtain ⟨gap, phrase, gap', gap'', after, -, -, -, -, -, -, hdigits, -⟩ := hlabels
  exact hdigits

theorem number?_eq_some_iff (hsearch : LeftmostSearch search) {label : String} (hlabel : Label label.toList) :
    number? search label text = some n ↔ CapturesNumber label text n ∧ n < UInt32.size := by
  simp only [number?, Option.bind_eq_some_iff, hsearch.captures_iff hlabel, CapturesNumber]
  constructor
  · rintro ⟨digits, hcaptures, hn⟩
    obtain ⟨hdecimal, hlt⟩ := (natBelow?_eq_some_iff hcaptures.isDecimalDigit).mp hn
    exact ⟨⟨digits, hcaptures, hdecimal⟩, hlt⟩
  · rintro ⟨⟨digits, hcaptures, hdecimal⟩, hlt⟩
    exact ⟨digits, hcaptures, (natBelow?_eq_some_iff hcaptures.isDecimalDigit).mpr ⟨hdecimal, hlt⟩⟩

theorem CapturesNumber.unique {label : String} (hlabel : Label label.toList) {n' : Nat}
    (h : CapturesNumber label text n) (h' : CapturesNumber label text n') : n = n' := by
  obtain ⟨digits, hcaptures, -, -, rfl⟩ := h
  obtain ⟨digits', hcaptures', -, -, rfl⟩ := h'
  rw [hcaptures.unique hlabel hcaptures']

theorem spans_iff : Spans r s n ↔ n ≠ 0 ∧ r.start.val = s ∧ r.stop.val = s + (n - 1) := by
  constructor
  · intro h
    have hpositive := h.positive
    have hstop := h.stop
    exact ⟨by omega, h.start, by omega⟩
  · rintro ⟨hzero, hstart, hstop⟩
    have hordered : r.start ≤ r.stop := by
      rw [Fin.le_def]
      omega
    refine ⟨by omega, hstart, hordered, by omega, by omega, ?_⟩
    rw [PortRange.size, if_neg (Fin.not_lt.mpr hordered)]
    omega

theorem span?_eq_some_iff : span? s n = some r ↔ Spans r s n := by
  rw [spans_iff, span?]
  split
  · rename_i hzero
    exact iff_of_false nofun fun h => h.1 hzero
  · rename_i hzero
    simp only [Option.bind_eq_bind, Option.bind_eq_some_iff, Port.ofNat?_eq_some_iff]
    constructor
    · rintro ⟨first, hfirst, last, hlast, hr⟩
      obtain rfl := Option.some.inj hr
      exact ⟨hzero, hfirst, hlast⟩
    · rintro ⟨-, hfirst, hlast⟩
      exact ⟨r.start, hfirst, r.stop, hlast, rfl⟩

theorem exists_spans (hn : 1 ≤ n) (hs : s + n - 1 ≤ 65535) :
    ∃ r, Spans r s n ∧ r.stop.val = s + n - 1 :=
  ⟨⟨⟨s, by omega⟩, ⟨s + n - 1, by omega⟩⟩, spans_iff.mpr ⟨by omega, rfl, by dsimp only; omega⟩, rfl⟩

theorem Spans.small (h : Spans r s n) : s < UInt32.size ∧ n < UInt32.size := by
  have hbounded := h.bounded
  have hstop := h.stop
  rw [show UInt32.size = 4294967296 from rfl]
  omega

theorem range?_eq_some_iff (hsearch : LeftmostSearch search) : range? search text = some r ↔
    ∃ s n, CapturesNumber "start port" text s ∧ CapturesNumber "number of ports" text n ∧ Spans r s n := by
  simp only [range?, Option.bind_eq_bind, Option.bind_eq_some_iff, number?_eq_some_iff hsearch label_start,
    number?_eq_some_iff hsearch label_size, span?_eq_some_iff]
  constructor
  · rintro ⟨s, ⟨hs, -⟩, n, ⟨hn, -⟩, hspans⟩
    exact ⟨s, n, hs, hn, hspans⟩
  · rintro ⟨s, n, hs, hn, hspans⟩
    exact ⟨s, ⟨hs, hspans.small.1⟩, n, ⟨hn, hspans.small.2⟩, hspans⟩

theorem ofText?_eq_some_iff : ofText? text = some r ↔
    ∃ s n, CapturesNumber "start port" text s ∧ CapturesNumber "number of ports" text n ∧ Spans r s n :=
  range?_eq_some_iff leftmostSearch

def Mentions (label : String) (line : List Char) : Prop := label.toList <:+: line.map foldCase

def Gap (gap : List Char) : Prop := ∀ c ∈ gap, c = ' ' ∨ c = '\t'

/-- A line with the label, in ASCII letters of any case, a colon and the number, and nothing else but spaces
and tabs before them; a carriage return may end it. -/
def NumberLine (label : String) (line : List Char) (n : Nat) : Prop :=
  ∃ gap phrase gap' gap'' digits ending,
    line = gap ++ (phrase ++ (gap' ++ ':' :: (gap'' ++ (digits ++ ending)))) ∧
    Gap gap ∧ Gap gap' ∧ Gap gap'' ∧ phrase.map Char.toLower = label.toList ∧ Decimal digits n ∧
    (ending = [] ∨ ending = ['\r'])

/-- The two labels and their numbers stand on two of the lines, and no other line has one of the labels. -/
structure NumberLines (text : List Char) (s n : Nat) (i j : Nat) : Prop where
  start : ∃ line, (text.splitOn '\n')[i]? = some line ∧ NumberLine "start port" line s
  size : ∃ line, (text.splitOn '\n')[j]? = some line ∧ NumberLine "number of ports" line n
  others : ∀ k line, (text.splitOn '\n')[k]? = some line → k ≠ i → k ≠ j →
    ¬ Mentions "start port" line ∧ ¬ Mentions "number of ports" line

theorem Decimal.isDecimalDigit (h : Decimal number n) : ∀ c ∈ number, isDecimalDigit c = true := by
  intro c hc
  obtain ⟨hlow, hhigh⟩ := h.2.1 c hc
  refine List.any_eq_true.mpr ⟨(0x30, 0x39), List.mem_cons_self, ?_⟩
  rw [Bool.and_eq_true, decide_eq_true_eq, decide_eq_true_eq]
  exact ⟨hlow, hhigh⟩

theorem Gap.isBlank {gap : List Char} (h : Gap gap) : ∀ c ∈ gap, isBlank c = true := by
  intro c hc
  obtain rfl | rfl := h c hc
  · rfl
  · rfl

theorem Label.map_foldCase (hlabel : Label label) {phrase : List Char}
    (h : phrase.map Char.toLower = label) : phrase.map foldCase = label := by
  rw [← h]
  refine List.map_congr_left fun c hc => foldCase_eq ?_
  rintro rfl
  have hs : 'ſ' ∈ label := h ▸ List.mem_map_of_mem hc
  have hlower := List.map_inj_left.mp (hlabel.lower.trans (List.map_id label).symm) 'ſ' hs
  exact absurd hlower (by decide)

theorem NumberLine.labels {label : String} (hlabel : Label label.toList) (h : NumberLine label line n)
    (rest : List Char) (hrest : ∀ c ∈ rest.head?, c = '\n') :
    ∃ digits, Decimal digits n ∧ Labels label.toList (line ++ rest) digits := by
  obtain ⟨gap, phrase, gap', gap'', digits, ending, rfl, hgap, hgap', hgap'', hphrase, hdigits, hending⟩ := h
  refine ⟨digits, hdigits, gap, phrase, gap', gap'', ending ++ rest, by simp, hgap.isBlank, hgap'.isBlank,
    hgap''.isBlank, hlabel.map_foldCase hphrase, hdigits.1, hdigits.isDecimalDigit, ?_⟩
  intro c hc
  obtain rfl | rfl := hending
  · rw [hrest c hc]
    decide
  · obtain rfl := Option.some.inj hc
    decide

theorem foldCase_of_lt (h : c.toNat < 65) : foldCase c = c := by
  have hs : c ≠ 'ſ' := by
    rintro rfl
    exact absurd h (by decide)
  rw [foldCase_eq hs, toLower_eq (.inl h)]

theorem NumberLine.not_mentions {label other : String} (hlabel : Label label.toList)
    (h : NumberLine label line n) (hother : c ∈ other.toList) (hc : c ∉ label.toList) (hletter : 65 ≤ c.toNat) :
    ¬ Mentions other line := by
  intro hmentions
  obtain ⟨d, hd, rfl⟩ := List.mem_map.mp (hmentions.subset hother)
  obtain ⟨gap, phrase, gap', gap'', digits, ending, rfl, hgap, hgap', hgap'', hphrase, hdigits, hending⟩ := h
  have hgaps {g : List Char} (hg : Gap g) (hd : d ∈ g) : d.toNat < 65 := by
    obtain rfl | rfl := hg d hd <;> decide
  have hsmall : d ∈ phrase ∨ d.toNat < 65 := by
    simp only [List.mem_append, List.mem_cons] at hd
    obtain hd | hd | hd | rfl | hd | hd | hd := hd
    · exact .inr (hgaps hgap hd)
    · exact .inl hd
    · exact .inr (hgaps hgap' hd)
    · exact .inr (by decide)
    · exact .inr (hgaps hgap'' hd)
    · have hhigh : d.toNat ≤ 57 := (hdigits.2.1 d hd).2
      omega
    · obtain rfl | rfl := hending
      · cases hd
      · rw [List.mem_singleton.mp hd]
        exact .inr (by decide)
  obtain hd | hd := hsmall
  · exact hc (hlabel.map_foldCase hphrase ▸ List.mem_map_of_mem hd)
  · rw [foldCase_of_lt hd] at hletter
    omega

theorem append_eq_append_cut {before after : List Char} (h : before ++ after = line ++ '\n' :: rest)
    (hbefore : '\n' ∉ before) : ∃ more, line = before ++ more ∧ after = more ++ '\n' :: rest := by
  obtain ⟨more, rfl, hafter⟩ | ⟨more, rfl, hrest⟩ := List.append_eq_append_iff.mp h
  · exact ⟨more, rfl, hafter⟩
  · cases more with
    | nil => exact ⟨[], by simp, hrest.symm⟩
    | cons d more =>
      obtain rfl := (List.cons.inj hrest).1
      simp at hbefore

theorem Labels.skip (hlabel : Label label) (hline : '\n' ∉ line) (hnot : ¬ label <:+: line.map foldCase)
    (h : Labels label (line ++ '\n' :: rest) number) : Labels label rest number := by
  obtain ⟨gap, phrase, gap', gap'', after, hcut, hgap, hgap', hgap'', hphrase, hnumber⟩ := h
  by_cases hfeed : '\n' ∈ gap
  · obtain ⟨first, gap, rfl, hfirst⟩ := List.eq_append_cons_of_mem hfeed
    rw [List.append_assoc] at hcut
    obtain ⟨more, rfl, hmore⟩ := append_eq_append_cut hcut hline
    cases more with
    | nil =>
      refine ⟨gap, phrase, gap', gap'', after, (List.cons.inj hmore).2, fun c hc => hgap c ?_, hgap', hgap'',
        hphrase, hnumber⟩
      exact List.mem_append_right _ (List.mem_cons_of_mem _ hc)
    | cons d more =>
      obtain rfl := (List.cons.inj hmore).1
      simp at hfirst
  · obtain ⟨more, rfl, hmore⟩ := append_eq_append_cut hcut.symm hfeed
    have hphrasefeed : '\n' ∉ phrase := by
      intro hmem
      exact hlabel.oneLine (hphrase ▸ List.mem_map_of_mem (f := foldCase) hmem)
    obtain ⟨more, rfl, -⟩ := append_eq_append_cut hmore hphrasefeed
    refine absurd ⟨gap.map foldCase, more.map foldCase, ?_⟩ hnot
    rw [List.map_append, List.map_append, hphrase, List.append_assoc]

theorem Labels.captures (h : Labels label text number) : Captures label text number :=
  ⟨[], ⟨text, rfl, nofun, h⟩, fun _ _ _ => Nat.zero_le _⟩

theorem begins_behind_line {before : List Char} :
    (∀ c ∈ (line ++ '\n' :: before).getLast?, c = '\n') ↔ ∀ c ∈ before.getLast?, c = '\n' := by
  rw [← beginsBehind_true_iff, ← beginsBehind_true_iff, beginsBehind, List.foldl_append]
  rfl

theorem Captures.behind (hlabel : Label label) (hline : '\n' ∉ line)
    (hnot : ¬ label <:+: line.map foldCase) (h : Captures label rest number) :
    Captures label (line ++ '\n' :: rest) number := by
  by_cases hhere : ∃ number', Labels label (line ++ '\n' :: rest) number'
  · -- the line is blank, and the match begins with it
    obtain ⟨number', hhere⟩ := hhere
    obtain rfl := h.unique hlabel (hhere.skip hlabel hline hnot).captures
    exact hhere.captures
  · obtain ⟨before, ⟨after, rfl, hbegins, hlabels⟩, hleast⟩ := h
    refine ⟨line ++ '\n' :: before, ⟨after, by simp, begins_behind_line.mpr hbegins, hlabels⟩, ?_⟩
    rintro before' number' ⟨after', hcut, hbegins', hlabels'⟩
    by_cases hfeed : '\n' ∈ before'
    · obtain ⟨first, more, rfl, hfirst⟩ := List.eq_append_cons_of_mem hfeed
      rw [List.append_assoc] at hcut
      obtain ⟨ending, rfl, hending⟩ := append_eq_append_cut hcut.symm hfirst
      cases ending with
      | nil =>
        have hmore := hleast more number'
          ⟨after', (List.cons.inj hending).2.symm, begins_behind_line.mp hbegins', hlabels'⟩
        simpa using hmore
      | cons d ending =>
        obtain rfl := (List.cons.inj hending).1
        simp at hline
    · have hempty : before' = [] := by
        rw [← List.getLast?_eq_none_iff, Option.eq_none_iff_forall_ne_some]
        intro c hc
        exact hfeed (hbegins' c hc ▸ List.mem_of_getLast? hc)
      rw [hempty, List.nil_append] at hcut
      exact absurd ⟨number', hcut ▸ hlabels'⟩ hhere

theorem capturesNumber_of_lines {label : String} (hlabel : Label label.toList) {i : Nat}
    (hi : (text.splitOn '\n')[i]? = some line) (hline : NumberLine label line n)
    (hbefore : ∀ k < i, ∀ other, (text.splitOn '\n')[k]? = some other → ¬ Mentions label other) :
    CapturesNumber label text n := by
  induction text using Text.separator_induction '\n' generalizing i with
  | last only honly =>
    rw [List.splitOn_eq_singleton honly] at hi
    cases i with
    | zero =>
      obtain rfl := Option.some.inj hi
      obtain ⟨digits, hdecimal, hlabels⟩ := hline.labels hlabel [] nofun
      rw [List.append_nil] at hlabels
      exact ⟨digits, hlabels.captures, hdecimal⟩
    | succ i => cases hi
  | cut first rest hfirst ih =>
    rw [List.splitOn_append_cons_self_of_not_mem hfirst] at hi hbefore
    cases i with
    | zero =>
      obtain rfl := Option.some.inj hi
      obtain ⟨digits, hdecimal, hlabels⟩ := hline.labels hlabel ('\n' :: rest) (by rintro _ ⟨⟩; rfl)
      exact ⟨digits, hlabels.captures, hdecimal⟩
    | succ i =>
      obtain ⟨digits, hcaptures, hdecimal⟩ := ih hi fun k hk => hbefore (k + 1) (Nat.succ_lt_succ hk)
      exact ⟨digits, hcaptures.behind hlabel hfirst (hbefore 0 (Nat.zero_lt_succ i) first rfl), hdecimal⟩

theorem NumberLines.captures {i j : Nat} (h : NumberLines text s n i j) :
    CapturesNumber "start port" text s ∧ CapturesNumber "number of ports" text n := by
  obtain ⟨first, hi, hfirst⟩ := h.start
  obtain ⟨second, hj, hsecond⟩ := h.size
  have hstart : ¬ Mentions "start port" second :=
    hsecond.not_mentions label_size (c := 'a') (by decide) (by decide) (by decide)
  have hsize : ¬ Mentions "number of ports" first :=
    hfirst.not_mentions label_start (c := 'n') (by decide) (by decide) (by decide)
  constructor
  · refine capturesNumber_of_lines label_start hi hfirst fun k hk other hother => ?_
    by_cases hkj : k = j
    · rw [hkj, hj] at hother
      rwa [← Option.some.inj hother]
    · exact (h.others k other hother hk.ne hkj).1
  · refine capturesNumber_of_lines label_size hj hsecond fun k hk other hother => ?_
    by_cases hki : k = i
    · rw [hki, hi] at hother
      rwa [← Option.some.inj hother]
    · exact (h.others k other hother hki hk.ne).2

structure Reads (text : List Char) : Prop where
  some_iff : ∀ r, ofText? text = some r ↔ ∃ s n, CapturesNumber "start port" text s ∧
    CapturesNumber "number of ports" text n ∧ Spans r s n
  accepted : ∀ s n i j, NumberLines text s n i j → 1 ≤ n → s + n - 1 ≤ 65535 →
    ∃ r, ofText? text = some r ∧ r.start.val = s ∧ r.stop.val = s + n - 1
  rejected : ∀ s n i j, NumberLines text s n i j → n = 0 ∨ 65535 < s + n - 1 → ofText? text = none

theorem CapturesNumber.spans (hs : CapturesNumber "start port" text s)
    (hn : CapturesNumber "number of ports" text n) (h : ofText? text = some r) : Spans r s n := by
  obtain ⟨s', n', hs', hn', hspans⟩ := ofText?_eq_some_iff.mp h
  rwa [hs.unique label_start hs', hn.unique label_size hn']

theorem dynamic_port_range (text : List Char) : Reads text where
  some_iff _ := ofText?_eq_some_iff
  accepted s n i j hlines hn hs := by
    obtain ⟨r, hspans, hstop⟩ := exists_spans hn hs
    have hcaptures := hlines.captures
    exact ⟨r, ofText?_eq_some_iff.mpr ⟨s, n, hcaptures.1, hcaptures.2, hspans⟩, hspans.start, hstop⟩
  rejected s n i j hlines hout := by
    have hcaptures := hlines.captures
    rw [Option.eq_none_iff_forall_ne_some]
    intro r hr
    have hspans := hcaptures.1.spans hcaptures.2 hr
    have hpositive := hspans.positive
    have hbounded := hspans.bounded
    have hstop := hspans.stop
    omega

def sizeFirst : List Char := "Protocol tcp\r\n\tNUMBER of ports : 16384\r\nStart Port:49152".toList

theorem splitOn_sizeFirst : sizeFirst.splitOn '\n' =
    ["Protocol tcp\r".toList, "\tNUMBER of ports : 16384\r".toList, "Start Port:49152".toList] := by
  decide +kernel

theorem numberLines_sizeFirst : NumberLines sizeFirst 49152 16384 2 1 := by
  refine ⟨?start, ?size, ?others⟩ <;> rw [splitOn_sizeFirst]
  case start =>
    exact ⟨_, rfl, [], "Start Port".toList, [], [], "49152".toList, [], by decide +kernel, nofun, nofun, nofun,
      by decide +kernel, decimal_iff.mp (by decide +kernel), .inl rfl⟩
  case size =>
    have htab : Gap ['\t'] := by simp [Gap]
    have hspace : Gap [' '] := by simp [Gap]
    exact ⟨_, rfl, ['\t'], "NUMBER of ports".toList, [' '], [' '], "16384".toList, ['\r'], by decide +kernel,
      htab, hspace, hspace, by decide +kernel, decimal_iff.mp (by decide +kernel), .inr rfl⟩
  case others =>
    rintro (_ | _ | _ | k) line hline hi hj
    · obtain rfl := Option.some.inj hline
      unfold Mentions
      decide +kernel
    · exact absurd rfl hj
    · exact absurd rfl hi
    · cases hline

theorem dynamic_port_range_sizeFirst :
    NumberLines sizeFirst 49152 16384 2 1 ∧ ofText? sizeFirst = some ⟨49152, 65535⟩ := by
  obtain ⟨r, hr, hstart, hstop⟩ := (dynamic_port_range sizeFirst).accepted 49152 16384 2 1
    numberLines_sizeFirst (by decide) (by decide)
  have hrange : r = ⟨49152, 65535⟩ := by
    cases r
    exact PortRange.mk.injEq _ _ _ _ |>.mpr ⟨Fin.ext hstart, Fin.ext hstop⟩
  exact ⟨numberLines_sizeFirst, hrange ▸ hr⟩

end Ephemeral.DynamicPort

end PortLease
