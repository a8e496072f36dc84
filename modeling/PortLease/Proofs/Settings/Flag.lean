import PortLease.Proofs.Settings

namespace PortLease

variable {cs : List Char} {c : Char} {ending : List Char}

def IsYesWord (cs : List Char) : Prop :=
  Text.asciiLower cs ∈ ["true".toList, "1".toList, "yes".toList, "on".toList]

instance (cs : List Char) : Decidable (IsYesWord cs) :=
  inferInstanceAs (Decidable (Text.asciiLower cs ∈ _))

theorem isBlank_letter (hc : c.isAlphanum = true) : Text.isBlank c = false :=
  Text.letter_induction (P := fun c => Text.isBlank c = false) (by decide) hc

theorem readFlag_letters (h : ∀ c ∈ cs, c.isAlphanum = true) : readFlag cs = true ↔ IsYesWord cs := by
  rw [readFlag, Text.trim_eq_self fun c hc => isBlank_letter (h c hc), List.contains_eq_mem, decide_eq_true_eq,
    IsYesWord]
  simp only [yesWords, List.mem_cons, List.not_mem_nil, or_false, ← String.toList_inj, String.toList_ofList]

namespace Settings

def flagLine (cs ending : List Char) : List Char := "disableReleaseCheck".toList ++ ':' :: ' ' :: cs ++ ending

theorem ofNode_word {d : Yaml.Document} {word : String} {node : Yaml.Node}
    (hnode : (Yaml.Outline.mapping [("disableReleaseCheck", .word word)]).Denotes node) :
    ofNode d node =
      StateT.lift ((wordFlag? Yaml.CoreSchema.atom word.toList).map fun b => { disableReleaseCheck := b }) := by
  obtain ⟨_, rfl, value, _, rfl, hvalue, rfl⟩ := hnode
  rw [ofNode, Yaml.Document.members_mapping, pure_bind]
  simp only [List.foldlM_cons, List.foldlM_nil]
  rw [addMember, Yaml.Document.text_scalar, pure_bind, String.ofList_toList]
  simp only [once, flag_word hvalue]
  cases wordFlag? Yaml.CoreSchema.atom word.toList <;> rfl

theorem decode?_line {parse : Yaml.Parser} {print : List (String × Yaml.Outline) → List Char}
    (h : Yaml.RoundTrip parse print) {word : String} (hword : Yaml.Outline.IsWord word)
    (hending : ending = [] ∨ ending = ['\n']) : Yaml.decode? parse ofNode (flagLine word.toList ending) =
      (wordFlag? Yaml.CoreSchema.atom word.toList).map fun b => { disableReleaseCheck := b } := by
  have hkey : Yaml.Outline.IsKey "disableReleaseCheck" := by decide
  obtain ⟨node, hparse, hnode⟩ := h.line hkey hword hending
  exact Yaml.decode?_lift hparse fun d => ofNode_word hnode

theorem ofYaml_flagLine (hne : cs ≠ []) (hletters : ∀ c ∈ cs, c.isAlphanum = true)
    (hending : ending = [] ∨ ending = ['\n']) : ofYaml (flagLine cs ending) =
      (wordFlag? Yaml.CoreSchema.atom cs).elim (.error .yaml) fun b => .ok { disableReleaseCheck := b } := by
  have hcs : (String.ofList cs).toList = cs := String.toList_ofList
  have hword : Yaml.Outline.IsWord (String.ofList cs) := ⟨by rwa [hcs], by rwa [hcs]⟩
  have hdecode := decode?_line Yaml.roundTrip hword hending
  rw [hcs] at hdecode
  have hblank : (Text.trim (flagLine cs ending)).isEmpty = false :=
    List.isEmpty_eq_false_iff.mpr (Text.trim_ne_nil (c := 'd') (by decide))
  rw [ofYaml, hblank, if_neg Bool.false_ne_true, hdecode]
  cases wordFlag? Yaml.CoreSchema.atom cs <;> rfl

theorem isYesWord_digit (hc : Text.isDigit c = true) : IsYesWord (c :: cs) ↔ c :: cs = ['1'] := by
  have hlower : c.toLower = c := by
    have hdigit : c.isDigit = true := hc
    have hletter : c.isAlphanum = true := by rw [Char.isAlphanum, hdigit, Bool.or_true]
    exact Text.letter_induction (P := fun c => Text.isDigit c = true → c.toLower = c) (by decide) hletter hc
  constructor
  · intro h
    rw [IsYesWord, Text.asciiLower, List.map_cons, hlower] at h
    simp only [List.mem_cons, List.not_mem_nil, or_false, String.reduceToList, List.cons.injEq] at h
    obtain ⟨rfl, -⟩ | ⟨rfl, hcs⟩ | ⟨rfl, -⟩ | ⟨rfl, -⟩ := h
    · exact absurd hc (by decide)
    · rw [List.map_eq_nil_iff.mp hcs]
    all_goals exact absurd hc (by decide)
  · rintro h
    rw [h]
    decide

open Yaml.CoreSchema (Atom Numeral Resolution IsRadixOne nullWords trueWords falseWords)

section Resolution

variable {resolve : List Char → Atom} (h : Resolution resolve)

include h

theorem wordFlag?_listed {word : String} (hmem : word ∈ nullWords ++ trueWords ++ falseWords) :
    wordFlag? resolve word.toList = some (readFlag word.toList) := by
  have hnull : ∀ word ∈ nullWords, readFlag word.toList = false := by decide
  have hyes : ∀ word ∈ trueWords, readFlag word.toList = true := by decide
  have hno : ∀ word ∈ falseWords, readFlag word.toList = false := by decide
  simp only [List.mem_append] at hmem
  obtain (hmem | hmem) | hmem := hmem
  · rw [wordFlag?, h.null word hmem, hnull word hmem]
    rfl
  · rw [wordFlag?, h.yes word hmem, hyes word hmem]
    rfl
  · rw [wordFlag?, h.no word hmem, hno word hmem]
    rfl

theorem wordFlag?_letter (hc : c.isAlpha = true) : wordFlag? resolve (c :: cs) = some (readFlag (c :: cs)) := by
  by_cases hmem : String.ofList (c :: cs) ∈ nullWords ++ trueWords ++ falseWords
  · have hlisted := wordFlag?_listed h hmem
    rwa [String.toList_ofList] at hlisted
  · rw [wordFlag?, h.text hc hmem]
    rfl

theorem wordFlag?_int {n : Nat} (hn : Numeral cs n) (hlt : n < Nat.pow 2 64) :
    wordFlag? resolve cs = some (decide (n = 1)) := by
  have hflag : (Int.ofNat n == 1) = decide (n = 1) := by
    rw [Bool.eq_iff_iff]
    simp
  rw [wordFlag?, h.int hn hlt, ← hflag]
  rfl

theorem wordFlag?_wide {n : Nat} (hn : Numeral cs n) (hle : Nat.pow 2 64 ≤ n) (hlt : n < Nat.pow 2 128) :
    wordFlag? resolve cs = none := by
  rw [wordFlag?, h.wide hn hle hlt]
  rfl

theorem wordFlag?_other (hc : Text.isDigit c = true) (hnone : ∀ n < Nat.pow 2 128, ¬ Numeral (c :: cs) n)
    (hno : readFlag (c :: cs) = false) : wordFlag? resolve (c :: cs) = some false := by
  rw [wordFlag?]
  obtain htext | ⟨r, hreal⟩ := h.digit hc hnone
  · rw [htext]
    exact congrArg some hno
  · rw [hreal]
    rfl

theorem wordFlag?_digit (hc : Text.isDigit c = true) (hyes : readFlag (c :: cs) = true ↔ c :: cs = ['1']) :
    (wordFlag? resolve (c :: cs) = some true ↔ Numeral (c :: cs) 1) ∧
    (wordFlag? resolve (c :: cs) = none ↔
      ∃ n, Numeral (c :: cs) n ∧ Nat.pow 2 64 ≤ n ∧ n < Nat.pow 2 128) := by
  have hone : 1 < Nat.pow 2 64 := by decide
  have hone' : 1 < Nat.pow 2 128 := by decide
  by_cases hn : ∃ n < Nat.pow 2 128, Numeral (c :: cs) n
  · obtain ⟨n, hlt, hn⟩ := hn
    by_cases hint : n < Nat.pow 2 64
    · rw [wordFlag?_int h hn hint, Option.some.injEq, decide_eq_true_eq]
      refine ⟨⟨fun h => h ▸ hn, hn.unique⟩, iff_of_false nofun ?_⟩
      rintro ⟨m, hm, hle, -⟩
      exact Nat.not_lt.mpr hle (hn.unique hm ▸ hint)
    · rw [wordFlag?_wide h hn (Nat.not_lt.mp hint) hlt]
      refine ⟨iff_of_false nofun fun hm => hint (hn.unique hm ▸ hone), iff_of_true rfl ?_⟩
      exact ⟨n, hn, Nat.not_lt.mp hint, hlt⟩
  · have hnone : ∀ n < Nat.pow 2 128, ¬ Numeral (c :: cs) n := fun n hlt h => hn ⟨n, hlt, h⟩
    have hno : readFlag (c :: cs) = false := by
      rw [← Bool.not_eq_true, hyes]
      exact fun h => hnone 1 hone' (Yaml.CoreSchema.numeral_one_iff.mpr (.inl h))
    rw [wordFlag?_other h hc hnone hno]
    refine ⟨iff_of_false nofun (hnone 1 hone'), iff_of_false nofun ?_⟩
    rintro ⟨n, h, -, hlt⟩
    exact hnone n hlt h

end Resolution

def FileDisables (cs ending : List Char) : Prop :=
  ∃ s, ofYaml (flagLine cs ending) = .ok s ∧ s.releaseCheckDisabled = true

def EnvironmentDisables (cs : List Char) : Prop :=
  (ofEnvironment (some (Text.Utf8.encode cs))).releaseCheckDisabled = true

theorem environmentDisables_iff : EnvironmentDisables cs ↔ readFlag cs = true := by
  rw [EnvironmentDisables, ofEnvironment, releaseCheckDisabled, withEnvironment, Bool.false_or,
    Variable.says_iff.mp (.text cs)]

theorem fileDisables_iff (hne : cs ≠ []) (hletters : ∀ c ∈ cs, c.isAlphanum = true)
    (hending : ending = [] ∨ ending = ['\n']) :
    FileDisables cs ending ↔ wordFlag? Yaml.CoreSchema.atom cs = some true := by
  rw [FileDisables, ofYaml_flagLine hne hletters hending]
  cases wordFlag? Yaml.CoreSchema.atom cs with
  | none => simp
  | some b => simp [releaseCheckDisabled]

/-- How the two places understand one word. -/
structure Understood (cs ending : List Char) : Prop where
  environment : EnvironmentDisables cs ↔ IsYesWord cs
  file : FileDisables cs ending ↔ IsYesWord cs ∨ Yaml.CoreSchema.IsRadixOne cs
  alike : (FileDisables cs ending ↔ EnvironmentDisables cs) ↔ ¬ Yaml.CoreSchema.IsRadixOne cs
  refused : (∀ s, ofYaml (flagLine cs ending) ≠ .ok s) ↔ Yaml.CoreSchema.whole? cs = some .wide

theorem letter_or_digit (hc : c.isAlphanum = true) : c.isAlpha = true ∨ Text.isDigit c = true :=
  Bool.or_eq_true_iff.mp hc

theorem wordFlag?_eq_true_iff {resolve : List Char → Atom} (h : Resolution resolve) (hne : cs ≠ [])
    (hletters : ∀ c ∈ cs, c.isAlphanum = true) :
    wordFlag? resolve cs = some true ↔ IsYesWord cs ∨ IsRadixOne cs := by
  have hyes := readFlag_letters hletters
  obtain ⟨c, cs, rfl⟩ := List.exists_cons_of_ne_nil hne
  obtain hc | hc := letter_or_digit (hletters c List.mem_cons_self)
  · have hradix : ¬ IsRadixOne (c :: cs) := by
      rintro ⟨mark, -, digits, heq, -⟩
      exact Text.ne_of_test hc rfl (List.cons.inj heq).1
    rw [wordFlag?_letter h hc, Option.some.injEq, hyes, or_iff_left hradix]
  · rw [isYesWord_digit hc] at hyes ⊢
    rw [(wordFlag?_digit h hc hyes).1, Yaml.CoreSchema.numeral_one_iff]

theorem wordFlag?_eq_none_iff {resolve : List Char → Atom} (h : Resolution resolve) (hne : cs ≠ [])
    (hletters : ∀ c ∈ cs, c.isAlphanum = true) :
    wordFlag? resolve cs = none ↔ Yaml.CoreSchema.whole? cs = some .wide := by
  have hyes := readFlag_letters hletters
  obtain ⟨c, cs, rfl⟩ := List.exists_cons_of_ne_nil hne
  obtain hc | hc := letter_or_digit (hletters c List.mem_cons_self)
  · rw [wordFlag?_letter h hc, Yaml.CoreSchema.whole?_letter hc]
    exact ⟨nofun, nofun⟩
  · rw [isYesWord_digit hc] at hyes
    rw [(wordFlag?_digit h hc hyes).2, Yaml.CoreSchema.whole?_wide_iff hc]

theorem not_isYesWord_radixOne (h : Yaml.CoreSchema.IsRadixOne cs) : ¬ IsYesWord cs := by
  obtain ⟨mark, -, digits, rfl, -⟩ := h
  rw [isYesWord_digit (by decide)]
  nofun

theorem word_in_file_and_environment (hne : cs ≠ []) (hletters : ∀ c ∈ cs, c.isAlphanum = true)
    (hending : ending = [] ∨ ending = ['\n']) : Understood cs ending := by
  have henvironment : EnvironmentDisables cs ↔ IsYesWord cs := by
    rw [environmentDisables_iff, readFlag_letters hletters]
  have hfile : FileDisables cs ending ↔ IsYesWord cs ∨ Yaml.CoreSchema.IsRadixOne cs := by
    rw [fileDisables_iff hne hletters hending, wordFlag?_eq_true_iff Yaml.CoreSchema.resolution hne hletters]
  refine ⟨henvironment, hfile, ?_, ?_⟩
  · rw [hfile, henvironment, or_iff_left_iff_imp]
    exact ⟨fun h hone => not_isYesWord_radixOne hone (h hone), fun h hone => absurd hone h⟩
  · rw [ofYaml_flagLine hne hletters hending, ← wordFlag?_eq_none_iff Yaml.CoreSchema.resolution hne hletters]
    cases wordFlag? Yaml.CoreSchema.atom cs <;> simp

theorem word_in_file_and_environment_on :
    ("oN".toList ≠ [] ∧ ∀ c ∈ "oN".toList, c.isAlphanum = true) ∧ Understood "oN".toList ['\n'] :=
  have hletters : ∀ c ∈ "oN".toList, c.isAlphanum = true := List.all_eq_true.mp rfl
  ⟨⟨by decide, hletters⟩, word_in_file_and_environment (by decide) hletters (.inr rfl)⟩

theorem hexadecimal_one_only_in_file : FileDisables "0x1".toList [] ∧ ¬ EnvironmentDisables "0x1".toList ∧
    ¬ IsYesWord "0x1".toList := by
  have hradix : Yaml.CoreSchema.IsRadixOne "0x1".toList := ⟨'x', by decide, ['1'], by decide, 0, rfl⟩
  have hletters : ∀ c ∈ "0x1".toList, c.isAlphanum = true := List.all_eq_true.mp rfl
  refine ⟨?_, ?_, by decide⟩
  · rw [fileDisables_iff (by decide) hletters (.inl rfl),
      wordFlag?_eq_true_iff Yaml.CoreSchema.resolution (by decide) hletters]
    exact .inr hradix
  · rw [environmentDisables_iff]
    decide

end Settings

end PortLease
