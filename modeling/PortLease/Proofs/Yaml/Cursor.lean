import Mathlib.Data.List.TakeWhile
import PortLease.Yaml.Cursor

namespace PortLease.Yaml

variable {p : Place} {c : Char} {cs line run rest : List Char} {q : Char → Bool}

def Place.over (p : Place) (cs : List Char) : Place := cs.foldl Place.after p

@[simp] theorem Place.over_nil (p : Place) : p.over [] = p := rfl

@[simp] theorem Place.over_cons (p : Place) (c : Char) (cs : List Char) :
    p.over (c :: cs) = (p.after c).over cs := rfl

theorem Place.over_append (p : Place) (cs rest : List Char) :
    p.over (cs ++ rest) = (p.over cs).over rest := List.foldl_append

theorem Place.over_line (h : ∀ c ∈ line, isBreak c = false) :
    p.over line = ⟨p.index + line.length, p.line, p.column + line.length⟩ := by
  induction line generalizing p with
  | nil => rfl
  | cons c line ih =>
    obtain ⟨hc, hline⟩ := List.forall_mem_cons.mp h
    rw [Place.over_cons, ih hline, Place.after, if_neg (by simp [hc])]
    simp only [List.length_cons, Place.mk.injEq, true_and]
    omega

theorem Place.column_over_line (h : ∀ c ∈ line, isBreak c = false) :
    (p.over line).column = p.column + line.length := by
  rw [Place.over_line h]

theorem Place.column_over_break (hc : isBreak c = true) (h : ∀ c ∈ line, isBreak c = false) :
    (p.over (cs ++ c :: line)).column = line.length := by
  rw [Place.over_append, Place.over_cons, Place.column_over_line h, Place.after, if_pos hc]
  exact Nat.zero_add _

theorem Cursor.span_append (hrun : ∀ c ∈ run, q c = true) (hrest : ∀ c ∈ rest.head?, q c = false) :
    (Cursor.mk (run ++ rest) p).span q = (run, ⟨rest, p.over run⟩) := by
  have htake : rest.takeWhile q = [] := by
    cases rest with
    | nil => rfl
    | cons c rest => rw [List.takeWhile_cons, hrest c rfl]; rfl
  have hdrop : rest.dropWhile q = rest := by
    cases rest with
    | nil => rfl
    | cons c rest => rw [List.dropWhile_cons, hrest c rfl]; rfl
  rw [Cursor.span, List.takeWhile_append_of_pos hrun, List.dropWhile_append_of_pos hrun, htake, hdrop,
    List.append_nil]
  rfl

theorem Cursor.not_atDocumentMark {k : Cursor} (h : k.place.column ≠ 0) : k.atDocumentMark = false := by
  rw [Cursor.atDocumentMark, decide_eq_false h, Bool.false_and]

theorem Cursor.not_atDocumentMark_of_head (hc : c ≠ '-' ∧ c ≠ '.') :
    Cursor.atDocumentMark ⟨c :: rest, p⟩ = false := by
  rw [Cursor.atDocumentMark, Bool.and_eq_false_iff]
  right
  split
  · rename_i h
    exact absurd (List.cons.inj h).1 hc.1
  · rename_i h
    exact absurd (List.cons.inj h).1 hc.2
  · rfl

theorem word_or_gap (q : Char → Bool) (cs : List Char) : (∀ c ∈ cs, q c = false) ∨
    ∃ word gap rest, cs = word ++ (gap ++ rest) ∧ (∀ c ∈ word, q c = false) ∧ gap ≠ [] ∧ (∀ c ∈ gap, q c = true) ∧
      ∀ c ∈ rest.head?, q c = false := by
  have hcs : cs = cs.takeWhile (!q ·) ++ cs.dropWhile (!q ·) := List.takeWhile_append_dropWhile.symm
  have hword : ∀ c ∈ cs.takeWhile (!q ·), q c = false := fun c hc => by simpa using List.mem_takeWhile_imp hc
  cases htail : cs.dropWhile (!q ·) with
  | nil =>
    rw [htail, List.append_nil] at hcs
    rw [hcs]
    exact .inl hword
  | cons c tail =>
    have hc : q c = true := by
      have hstop := List.head?_dropWhile_not (!q ·) cs
      rw [htail] at hstop
      simpa using hstop
    have hsplit : c :: tail = (c :: tail).takeWhile q ++ (c :: tail).dropWhile q :=
      List.takeWhile_append_dropWhile.symm
    refine .inr ⟨_, (c :: tail).takeWhile q, (c :: tail).dropWhile q, ?_, hword, ?_,
      fun d hd => List.mem_takeWhile_imp hd, fun d hd => ?_⟩
    · rw [← hsplit, ← htail]
      exact hcs
    · rw [List.takeWhile_cons, if_pos hc]
      exact List.cons_ne_nil _ _
    · have hstop := List.head?_dropWhile_not q (c :: tail)
      rwa [Option.mem_def.mp hd] at hstop

theorem gap_induction {P : List Char → Prop} (q : Char → Bool)
    (hword : ∀ word, (∀ c ∈ word, q c = false) → P word)
    (hgap : ∀ word gap rest, (∀ c ∈ word, q c = false) → gap ≠ [] → (∀ c ∈ gap, q c = true) →
      (∀ c ∈ rest.head?, q c = false) → P rest → P (word ++ (gap ++ rest))) (cs : List Char) : P cs := by
  -- the rest is shorter by the word and the gap, so the induction is on the length
  induction hn : cs.length using Nat.strong_induction_on generalizing cs with
  | _ n ih =>
    obtain hcs | ⟨word, gap, rest, rfl, hinside, hne, hall, hrest⟩ := word_or_gap q cs
    · exact hword cs hcs
    · have hlength := List.length_pos_iff.mpr hne
      simp only [List.length_append] at hn
      exact hgap word gap rest hinside hne hall hrest (ih rest.length (by omega) rest rfl)

end PortLease.Yaml
