import Mathlib.Data.List.Induction
import Mathlib.Data.List.TakeWhile
import PortLease.Ephemeral.DynamicPort
import PortLease.Proofs.Text.Trim

namespace PortLease

namespace Text

variable {gap cs : List Char} {c : Char}

theorem trimStart_append (hgap : ∀ c ∈ gap, isBlank c = true) (hcs : ∀ c ∈ cs.head?, isBlank c = false) :
    trimStart (gap ++ cs) = cs := by
  rw [trimStart, List.dropWhile_append_of_pos hgap]
  cases cs with
  | nil => rfl
  | cons c cs => rw [List.dropWhile_cons, hcs c rfl]; rfl

theorem exists_gap (cs : List Char) : ∃ gap, cs = gap ++ trimStart cs ∧ ∀ c ∈ gap, isBlank c = true :=
  ⟨cs.takeWhile isBlank, List.takeWhile_append_dropWhile.symm, fun _ => List.mem_takeWhile_imp⟩

theorem isBlank_eq_false_of_isDecimalDigit (h : isDecimalDigit c = true) : isBlank c = false := by
  have hapart : ∀ blank ∈ blankRanges, ∀ digit ∈ decimalDigitRanges,
      blank.2 < digit.1 ∨ digit.2 < blank.1 := by decide +kernel
  obtain ⟨digit, hdigit, hc⟩ := List.any_eq_true.mp h
  rw [isBlank, List.any_eq_false]
  intro blank hblank hc'
  have := hapart blank hblank digit hdigit
  simp only [Bool.and_eq_true, decide_eq_true_eq] at hc hc'
  omega

end Text

namespace Ephemeral.DynamicPort

open Text (isBlank isDecimalDigit trimStart)

variable {label cs rest text number found before : List Char} {c : Char} {lineBegins : Bool}

/-- The text begins with the label in any case, a colon and a number, which ends there. White space may stand
before each of the three. -/
def Labels (label cs number : List Char) : Prop :=
  ∃ gap phrase gap' gap'' after,
    cs = gap ++ (phrase ++ (gap' ++ ':' :: (gap'' ++ (number ++ after)))) ∧
    (∀ c ∈ gap, isBlank c = true) ∧ (∀ c ∈ gap', isBlank c = true) ∧ (∀ c ∈ gap'', isBlank c = true) ∧
    phrase.map foldCase = label ∧ number ≠ [] ∧ (∀ c ∈ number, isDecimalDigit c = true) ∧
    ∀ c ∈ after.head?, isDecimalDigit c = false

/-- The label and the number stand behind this part of the text, at the beginning of a line. -/
def MatchesAfter (label text before number : List Char) : Prop :=
  ∃ rest, text = before ++ rest ∧ (∀ c ∈ before.getLast?, c = '\n') ∧ Labels label rest number

/-- The number of the leftmost match. -/
def Captures (label text number : List Char) : Prop :=
  ∃ before, MatchesAfter label text before number ∧
    ∀ before' number', MatchesAfter label text before' number' → before.length ≤ before'.length

/-- A text that can be searched for as a label: the blanks before it do not run into it, it lies within a line,
and it is in lower case. -/
structure Label (label : List Char) : Prop where
  ne_nil : label ≠ []
  begins : ∀ c ∈ label.head?, isBlank c = false
  oneLine : '\n' ∉ label
  lower : label.map foldCase = label

theorem foldCase_eq (hs : c ≠ 'ſ') : foldCase c = c.toLower := if_neg hs

theorem toLower_eq (h : c.toNat < 65 ∨ 90 < c.toNat) : c.toLower = c := by
  refine Text.toLower_eq_self (decide_eq_false ?_)
  rintro ⟨hlow, hhigh⟩
  have hlow : 65 ≤ c.toNat := hlow
  have hhigh : c.toNat ≤ 90 := hhigh
  omega

theorem foldCase_blank (h : isBlank c = true) : foldCase c = c := by
  have hletters : ∀ blank ∈ Text.blankRanges, blank.2 < 65 ∨ 90 < blank.1 := by decide
  have hs : c ≠ 'ſ' := by
    rintro rfl
    exact absurd h (by decide)
  obtain ⟨blank, hblank, hc⟩ := List.any_eq_true.mp h
  have := hletters blank hblank
  simp only [Bool.and_eq_true, decide_eq_true_eq] at hc
  rw [foldCase_eq hs, toLower_eq (by omega)]

theorem afterLabel_append (phrase rest : List Char) :
    afterLabel (phrase.map foldCase) (phrase ++ rest) = some rest := by
  induction phrase with
  | nil => rfl
  | cons c phrase ih => rwa [List.map_cons, List.cons_append, afterLabel, if_pos rfl]

theorem exists_phrase (h : afterLabel label cs = some rest) :
    ∃ phrase, cs = phrase ++ rest ∧ phrase.map foldCase = label := by
  induction label generalizing cs with
  | nil => exact ⟨[], Option.some.inj h, rfl⟩
  | cons l label ih =>
    cases cs with
    | nil => cases h
    | cons c cs =>
      rw [afterLabel] at h
      split at h
      · rename_i hc
        obtain ⟨phrase, rfl, rfl⟩ := ih h
        exact ⟨c :: phrase, rfl, by rw [List.map_cons, hc]⟩
      · cases h

theorem Label.phrase_begins (hlabel : Label label) {phrase : List Char}
    (hphrase : phrase.map foldCase = label) : ∀ c ∈ (phrase ++ rest).head?, isBlank c = false := by
  subst hphrase
  cases phrase with
  | nil => exact absurd rfl hlabel.ne_nil
  | cons c phrase =>
    intro d hd
    obtain rfl : c = d := Option.some.inj hd
    have hbegins := hlabel.begins (foldCase c) rfl
    cases hblank : isBlank c with
    | false => rfl
    | true => rwa [foldCase_blank hblank, hblank] at hbegins

theorem labels_of_numberHere? (h : numberHere? label cs = some number) : Labels label cs number := by
  unfold numberHere? at h
  obtain ⟨gap, hcs, hgap⟩ := Text.exists_gap cs
  split at h
  · cases h
  rename_i rest hafter
  obtain ⟨phrase, htrim, hphrase⟩ := exists_phrase hafter
  obtain ⟨gap', hrest, hgap'⟩ := Text.exists_gap rest
  split at h
  · rename_i rest' hcolon
    obtain ⟨gap'', hrest', hgap''⟩ := Text.exists_gap rest'
    dsimp only at h
    split at h
    · cases h
    · rename_i hne
      obtain rfl := Option.some.inj h
      refine ⟨gap, phrase, gap', gap'', (trimStart rest').dropWhile isDecimalDigit, ?_, hgap, hgap', hgap'',
        hphrase, ?_, fun _ => List.mem_takeWhile_imp, ?_⟩
      · rw [List.takeWhile_append_dropWhile, ← hrest', ← hcolon, ← hrest, ← htrim, ← hcs]
      · rwa [List.isEmpty_iff] at hne
      · intro c hc
        have hstop := List.head?_dropWhile_not isDecimalDigit (trimStart rest')
        rwa [Option.mem_def.mp hc] at hstop
  · cases h

theorem Labels.numberHere? (hlabel : Label label) (h : Labels label cs number) :
    numberHere? label cs = some number := by
  obtain ⟨gap, phrase, gap', gap'', after, rfl, hgap, hgap', hgap'', hphrase, hne, hdigits, hafter⟩ := h
  have hcolon (rest : List Char) : ∀ c ∈ (':' :: rest).head?, isBlank c = false := by
    rintro _ ⟨⟩
    decide
  have hnumber : ∀ c ∈ (number ++ after).head?, isBlank c = false := by
    obtain ⟨d, digits, rfl⟩ := List.exists_cons_of_ne_nil hne
    intro c hc
    obtain rfl : d = c := Option.some.inj hc
    exact Text.isBlank_eq_false_of_isDecimalDigit (hdigits d List.mem_cons_self)
  have htake : (number ++ after).takeWhile isDecimalDigit = number := by
    rw [List.takeWhile_append_of_pos hdigits]
    cases after with
    | nil => simp
    | cons c after => simp [hafter c rfl]
  rw [DynamicPort.numberHere?, Text.trimStart_append hgap (hlabel.phrase_begins hphrase), ← hphrase,
    afterLabel_append]
  simp only [Text.trimStart_append hgap' (hcolon _), Text.trimStart_append hgap'' hnumber, htake]
  rw [if_neg (by rwa [List.isEmpty_iff])]

theorem numberHere?_eq_some_iff (hlabel : Label label) :
    numberHere? label cs = some number ↔ Labels label cs number :=
  ⟨labels_of_numberHere?, Labels.numberHere? hlabel⟩

def beginsBehind (lineBegins : Bool) (before : List Char) : Bool :=
  before.foldl (fun _ c => c = '\n') lineBegins

theorem beginsBehind_true_iff : beginsBehind true before = true ↔ ∀ c ∈ before.getLast?, c = '\n' := by
  induction before using List.reverseRecOn with
  | nil => simp [beginsBehind]
  | append_singleton before c _ => simp [beginsBehind]

theorem numberHere?_nil (hlabel : Label label) : numberHere? label [] = none := by
  obtain ⟨l, label, rfl⟩ := List.exists_cons_of_ne_nil hlabel.ne_nil
  rfl

def FoundFirst (label : List Char) (lineBegins : Bool) (cs number : List Char) : Prop :=
  ∃ before rest, cs = before ++ rest ∧ beginsBehind lineBegins before = true ∧
    numberHere? label rest = some number ∧
    ∀ before' rest' number', cs = before' ++ rest' → beginsBehind lineBegins before' = true →
      numberHere? label rest' = some number' → before.length ≤ before'.length

theorem not_foundFirst_nil (hlabel : Label label) : ¬ FoundFirst label lineBegins [] number := by
  rintro ⟨before, rest, hcs, -, hnumber, -⟩
  rw [(List.append_eq_nil_iff.mp hcs.symm).2, numberHere?_nil hlabel] at hnumber
  cases hnumber

theorem foundFirst_here (h : numberHere? label cs = some found) :
    FoundFirst label true cs number ↔ found = number := by
  constructor
  · rintro ⟨before, rest, rfl, -, hnumber, hleast⟩
    have hbefore := hleast [] _ found rfl rfl h
    obtain rfl := List.eq_nil_of_length_eq_zero (Nat.le_zero.mp hbefore)
    exact Option.some.inj (h.symm.trans hnumber)
  · rintro rfl
    exact ⟨[], cs, rfl, rfl, h, fun _ _ _ _ _ _ => Nat.zero_le _⟩

theorem foundFirst_behind (h : lineBegins = true → numberHere? label (c :: cs) = none) :
    FoundFirst label lineBegins (c :: cs) number ↔ FoundFirst label (c = '\n') cs number := by
  have hnot {found : List Char} (hbegins : lineBegins = true) :
      numberHere? label (c :: cs) ≠ some found := by
    rw [h hbegins]
    nofun
  constructor
  · rintro ⟨_ | ⟨c', before⟩, rest, hcs, hbegins, hnumber, hleast⟩
    · obtain rfl : c :: cs = rest := hcs
      exact absurd hnumber (hnot hbegins)
    · obtain ⟨rfl, rfl⟩ := List.cons.inj hcs
      refine ⟨before, rest, rfl, hbegins, hnumber, fun before' rest' number' hcs' hbegins' hnumber' => ?_⟩
      exact Nat.le_of_succ_le_succ
        (hleast (c :: before') rest' number' (congrArg (c :: ·) hcs') hbegins' hnumber')
  · rintro ⟨before, rest, rfl, hbegins, hnumber, hleast⟩
    refine ⟨c :: before, rest, rfl, hbegins, hnumber, ?_⟩
    rintro (_ | ⟨c', before'⟩) rest' number' hcs hbegins' hnumber'
    · obtain rfl : c :: (before ++ rest) = rest' := hcs
      exact absurd hnumber' (hnot hbegins')
    · obtain ⟨rfl, htail⟩ := List.cons.inj hcs
      exact Nat.succ_le_succ (hleast before' rest' number' htail hbegins' hnumber')

theorem foundFirst_iff (hlabel : Label label) :
    numberAfter? label lineBegins cs = some number ↔ FoundFirst label lineBegins cs number := by
  induction cs generalizing lineBegins with
  | nil => exact iff_of_false nofun (not_foundFirst_nil hlabel)
  | cons c cs ih =>
    rw [numberAfter?]
    cases hhere : if lineBegins then numberHere? label (c :: cs) else none with
    | some found =>
      obtain ⟨rfl, hhere⟩ := Option.ite_none_right_eq_some.mp hhere
      rw [foundFirst_here hhere]
      exact Option.some_inj
    | none =>
      refine ih.trans (foundFirst_behind fun hbegins => ?_).symm
      rwa [if_pos hbegins] at hhere

theorem search_eq_some_iff (hlabel : Label label) :
    search label text = some number ↔ Captures label text number := by
  simp only [search, foundFirst_iff hlabel, FoundFirst, beginsBehind_true_iff, numberHere?_eq_some_iff hlabel,
    Captures, MatchesAfter]
  constructor
  · rintro ⟨before, rest, hcut, hbegins, hlabels, hleast⟩
    refine ⟨before, ⟨rest, hcut, hbegins, hlabels⟩, ?_⟩
    rintro before' number' ⟨rest', hcut', hbegins', hlabels'⟩
    exact hleast before' rest' number' hcut' hbegins' hlabels'
  · rintro ⟨before, ⟨rest, hcut, hbegins, hlabels⟩, hleast⟩
    exact ⟨before, rest, hcut, hbegins, hlabels, fun before' rest' number' hcut' hbegins' hlabels' =>
      hleast before' number' ⟨rest', hcut', hbegins', hlabels'⟩⟩

/-- What is relied on of a search: it finds the number of the leftmost match, and nothing if there is none. -/
structure LeftmostSearch (search : Search) : Prop where
  captures_iff : ∀ {label : List Char}, Label label →
    ∀ text number, search label text = some number ↔ Captures label text number

theorem leftmostSearch : LeftmostSearch search := ⟨fun hlabel _ _ => search_eq_some_iff hlabel⟩

theorem Captures.unique (hlabel : Label label) {number' : List Char} (h : Captures label text number)
    (h' : Captures label text number') : number = number' := by
  rw [← search_eq_some_iff hlabel] at h h'
  exact Option.some.inj (h.symm.trans h')

end Ephemeral.DynamicPort

end PortLease
