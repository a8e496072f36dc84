import Mathlib.Data.List.TakeWhile
import PortLease.Text.Blank

namespace PortLease.Text

variable {text word rest : List Char} {more : List (List Char)} {c : Char}

/-- Behind blanks the text goes on with the word; the rest, if there is any, begins with a blank. -/
structure LeadsWith (text word rest : List Char) : Prop where
  cut : ∃ before, text = before ++ word ++ rest ∧ ∀ c ∈ before, isBlank c = true
  ne_nil : word ≠ []
  unbroken : ∀ c ∈ word, isBlank c = false
  ends : ∀ c ∈ rest.head?, isBlank c = true

theorem foldr_wordsCons (text : List Char) :
    text.foldr wordsCons [[]] = text.splitOnP isBlank := by
  induction text with
  | nil => rfl
  | cons c text ih =>
    obtain ⟨first, others, hsplit⟩ := List.exists_cons_of_ne_nil (List.splitOnP_ne_nil isBlank text)
    rw [List.foldr_cons, ih, List.splitOnP_cons_eq_if_modifyHead, hsplit]
    rfl

theorem words_eq (text : List Char) :
    words text = (text.splitOnP isBlank).filter fun w => !w.isEmpty := by
  rw [words, foldr_wordsCons]

theorem words_blank (h : isBlank c = true) (text : List Char) : words (c :: text) = words text := by
  rw [words_eq, words_eq, List.splitOnP_cons_eq_if_modifyHead, if_pos h]
  rfl

theorem words_blanks {before : List Char} (h : ∀ c ∈ before, isBlank c = true) (text : List Char) :
    words (before ++ text) = words text := by
  induction before with
  | nil => rfl
  | cons c before ih =>
    rw [List.cons_append, words_blank (h c List.mem_cons_self)]
    exact ih fun d hd => h d (List.mem_cons_of_mem c hd)

theorem LeadsWith.words (h : LeadsWith text word rest) : words text = word :: words rest := by
  obtain ⟨⟨before, rfl, hbefore⟩, hne, hunbroken, hends⟩ := h
  rw [List.append_assoc, words_blanks hbefore]
  have hkept (others : List (List Char)) : ((word :: others).filter fun w => !w.isEmpty) =
      word :: others.filter fun w => !w.isEmpty := by
    rw [List.filter_cons, if_pos]
    rwa [Bool.not_eq_true', List.isEmpty_eq_false_iff]
  cases rest with
  | nil =>
    rw [List.append_nil, words_eq, List.splitOnP_eq_singleton hunbroken, hkept]
    rfl
  | cons c rest =>
    have hblank := hends c rfl
    rw [words_blank hblank, words_eq,
      List.splitOnP_append_cons_of_forall_mem hunbroken c hblank, hkept, ← words_eq]

theorem LeadsWith.blank (h : LeadsWith text word rest) (hc : isBlank c = true) :
    LeadsWith (c :: text) word rest := by
  obtain ⟨before, rfl, hbefore⟩ := h.cut
  exact ⟨⟨c :: before, rfl, List.forall_mem_cons.mpr ⟨hc, hbefore⟩⟩, h.ne_nil, h.unbroken, h.ends⟩

theorem exists_leadsWith (h : words text ≠ []) : ∃ word rest, LeadsWith text word rest := by
  induction text with
  | nil => exact absurd rfl h
  | cons c text ih =>
    by_cases hc : isBlank c = true
    · rw [words_blank hc] at h
      obtain ⟨word, rest, hleads⟩ := ih h
      exact ⟨word, rest, hleads.blank hc⟩
    · refine ⟨(c :: text).takeWhile fun d => !isBlank d, (c :: text).dropWhile fun d => !isBlank d,
        ⟨[], by simp, by simp⟩, ?_, ?_, ?_⟩
      · simp [hc]
      · intro d hd
        simpa using List.mem_takeWhile_imp hd
      · intro d hd
        have hstop := List.head?_dropWhile_not (fun d => !isBlank d) (c :: text)
        rw [hd] at hstop
        simpa using hstop

theorem words_eq_cons_iff :
    words text = word :: more ↔ ∃ rest, LeadsWith text word rest ∧ words rest = more := by
  constructor
  · intro h
    have hwords : words text ≠ [] := h ▸ List.cons_ne_nil word more
    obtain ⟨first, rest, hleads⟩ := exists_leadsWith hwords
    have hcons := hleads.words.symm.trans h
    obtain ⟨rfl, hrest⟩ := List.cons.inj hcons
    exact ⟨rest, hleads, hrest⟩
  · rintro ⟨rest, hleads, rfl⟩
    exact hleads.words

def FirstWords (text first second : List Char) : Prop :=
  ∃ rest rest', LeadsWith text first rest ∧ LeadsWith rest second rest'

theorem firstWords_iff {first second : List Char} :
    FirstWords text first second ↔ ∃ more, words text = first :: second :: more := by
  simp only [words_eq_cons_iff, FirstWords]
  constructor
  · rintro ⟨rest, rest', hfirst, hsecond⟩
    exact ⟨words rest', rest, hfirst, rest', hsecond, rfl⟩
  · rintro ⟨more, rest, hfirst, rest', hsecond, -⟩
    exact ⟨rest, rest', hfirst, hsecond⟩

end PortLease.Text
