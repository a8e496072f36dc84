import PortLease.Proofs.PortSet

namespace PortLease.PortSet

inductive Change where
  | insert (p : Port)
  | erase (p : Port)
  | save
  | restore (n : Nat)
  deriving DecidableEq, Repr

structure Shelf (α : Type) where
  current : α
  copies : List α := []

namespace Shelf

variable {α β : Type} {R : α → β → Prop} {s : Shelf α} {t : Shelf β}

def save (s : Shelf α) : Shelf α := { s with copies := s.current :: s.copies }

def restore (s : Shelf α) (n : Nat) : Shelf α := { s with current := s.copies[n]?.getD s.current }

def run (step : Shelf α → Change → Option Bool × Shelf α) :
    List Change → Shelf α → List (Option Bool) × Shelf α
  | [], s => ([], s)
  | c :: cs, s =>
    let (answer, s) := step s c
    let (answers, s) := run step cs s
    (answer :: answers, s)

structure Related (R : α → β → Prop) (s : Shelf α) (t : Shelf β) : Prop where
  current : R s.current t.current
  copies : List.Forall₂ R s.copies t.copies

theorem Related.mono {Q : α → β → Prop} (h : s.Related R t) (hRQ : ∀ a b, R a b → Q a b) :
    s.Related Q t := ⟨hRQ _ _ h.current, h.copies.imp hRQ⟩

theorem Related.save (h : s.Related R t) : s.save.Related R t.save :=
  ⟨h.current, .cons h.current h.copies⟩

theorem getD_related {as : List α} {bs : List β} {a : α} {b : β} (h : List.Forall₂ R as bs)
    (hab : R a b) (n : Nat) : R (as[n]?.getD a) (bs[n]?.getD b) := by
  induction h generalizing n with
  | nil => exact hab
  | cons hhead _ ih =>
    cases n with
    | zero => exact hhead
    | succ n => exact ih n

theorem Related.restore (h : s.Related R t) (n : Nat) : (s.restore n).Related R (t.restore n) :=
  ⟨getD_related h.copies h.current n, h.copies⟩

theorem Related.run {f : Shelf α → Change → Option Bool × Shelf α}
    {g : Shelf β → Change → Option Bool × Shelf β}
    (hstep : ∀ s t c, s.Related R t → (f s c).1 = (g t c).1 ∧ (f s c).2.Related R (g t c).2)
    (h : s.Related R t) (cs : List Change) :
    (Shelf.run f cs s).1 = (Shelf.run g cs t).1 ∧ (Shelf.run f cs s).2.Related R (Shelf.run g cs t).2 := by
  induction cs generalizing s t with
  | nil => exact ⟨rfl, h⟩
  | cons c cs ih =>
    obtain ⟨hanswer, hnext⟩ := hstep s t c h
    obtain ⟨hanswers, hlast⟩ := ih hnext
    exact ⟨congrArg₂ List.cons hanswer hanswers, hlast⟩

end Shelf

variable {s : PortSet} {a : Finset Port} {p : Port}

def change (s : Shelf PortSet) : Change → Option Bool × Shelf PortSet
  | .insert p =>
    let next := s.current.insert? p
    (some next.isSome, { s with current := next.getD s.current })
  | .erase p =>
    let next := s.current.erase? p
    (some next.isSome, { s with current := next.getD s.current })
  | .save => (none, s.save)
  | .restore n => (none, s.restore n)

def changeFinite (a : Shelf (Finset Port)) : Change → Option Bool × Shelf (Finset Port)
  | .insert p => (some (decide (p ∉ a.current)), { a with current := Insert.insert p a.current })
  | .erase p => (some (decide (p ∈ a.current)), { a with current := a.current.erase p })
  | .save => (none, a.save)
  | .restore n => (none, a.restore n)

/-- All that can be seen of the set is as with the finite set, and so is what becomes of it. -/
structure Represents (s : PortSet) (a : Finset Port) : Prop where
  contains_iff : ∀ p, s.contains p = true ↔ p ∈ a
  size : s.size = a.card
  listed_iff : ∀ p, p ∈ s.toList ↔ p ∈ a
  ascending : s.toList.Pairwise (· < ·)
  inserts_iff : ∀ p, (s.insert? p).isSome = true ↔ p ∉ a
  inserted : ∀ p t, s.insert? p = some t →
    t.size = s.size + 1 ∧ ∀ q, t.contains q = true ↔ q = p ∨ q ∈ a
  erases_iff : ∀ p, (s.erase? p).isSome = true ↔ p ∈ a
  erased : ∀ p t, s.erase? p = some t →
    t.size + 1 = s.size ∧ ∀ q, t.contains q = true ↔ q ≠ p ∧ q ∈ a

theorem insert?_eq : s.insert? p = if s.contains p then none else some (s.insert p) := by
  unfold insert? insert
  split <;> rfl

theorem erase?_eq : s.erase? p = if s.contains p then some (s.erase p) else none := by
  unfold erase? erase
  split <;> rfl

theorem getD_insert? : (s.insert? p).getD s = s.insert p := by
  rw [insert?_eq]
  unfold insert
  split <;> rfl

theorem getD_erase? : (s.erase? p).getD s = s.erase p := by
  rw [erase?_eq]
  unfold erase
  split <;> rfl

theorem members_insert : (s.insert p).members = Insert.insert p s.members := by
  ext q
  simp [mem_members, contains_insert]

theorem members_erase : (s.erase p).members = s.members.erase p := by
  ext q
  simp [mem_members, contains_erase]

theorem isSome_insert? : (s.insert? p).isSome = decide (p ∉ s.members) := by
  rw [insert?_eq, Bool.eq_iff_iff, decide_eq_true_eq, mem_members]
  cases s.contains p <;> simp

theorem isSome_erase? : (s.erase? p).isSome = decide (p ∈ s.members) := by
  rw [erase?_eq, Bool.eq_iff_iff, decide_eq_true_eq, mem_members]
  cases s.contains p <;> simp

theorem Counted.size_pos (h : s.Counted) (hp : s.contains p = true) : 0 < s.size := by
  rw [h]
  exact Finset.card_pos.mpr ⟨p, mem_members.mpr hp⟩

theorem Counted.represents (h : s.Counted) : s.Represents s.members where
  contains_iff _ := mem_members.symm
  size := h
  listed_iff _ := mem_toList.trans mem_members.symm
  ascending := sorted_toList s
  inserts_iff p := by rw [isSome_insert?, decide_eq_true_eq]
  inserted p t ht := by
    rw [insert?_eq] at ht
    split at ht
    · cases ht
    · rename_i hout
      obtain rfl := Option.some.inj ht
      refine ⟨size_insert (Bool.eq_false_iff.mpr hout), fun q => ?_⟩
      rw [← mem_members, members_insert, Finset.mem_insert]
  erases_iff p := by rw [isSome_erase?, decide_eq_true_eq]
  erased p t ht := by
    rw [erase?_eq] at ht
    split at ht
    · rename_i hin
      obtain rfl := Option.some.inj ht
      refine ⟨?_, fun q => ?_⟩
      · rw [size_erase hin]
        exact Nat.sub_add_cancel (h.size_pos hin)
      · rw [← mem_members, members_erase, Finset.mem_erase]
    · cases ht

def Matches (s : PortSet) (a : Finset Port) : Prop := s.Counted ∧ s.members = a

theorem change_related (s : Shelf PortSet) (a : Shelf (Finset Port)) (c : Change)
    (h : s.Related Matches a) :
    (change s c).1 = (changeFinite a c).1 ∧ (change s c).2.Related Matches (changeFinite a c).2 := by
  obtain ⟨hcounted, hmembers⟩ := h.current
  cases c with
  | insert p =>
    simp only [change, changeFinite, isSome_insert?, getD_insert?, hmembers, true_and]
    exact ⟨⟨hcounted.insert p, by rw [members_insert, hmembers]⟩, h.copies⟩
  | erase p =>
    simp only [change, changeFinite, isSome_erase?, getD_erase?, hmembers, true_and]
    exact ⟨⟨hcounted.erase p, by rw [members_erase, hmembers]⟩, h.copies⟩
  | save => exact ⟨rfl, h.save⟩
  | restore n => exact ⟨rfl, h.restore n⟩

theorem matches_empty : Matches empty ∅ := by
  refine ⟨counted_empty, ?_⟩
  ext p
  simp [mem_members, contains_empty]

theorem refines_finite_set (changes : List Change) :
    (Shelf.run change changes { current := empty }).1 =
        (Shelf.run changeFinite changes { current := ∅ }).1 ∧
      (Shelf.run change changes { current := empty }).2.Related Represents
        (Shelf.run changeFinite changes { current := ∅ }).2 := by
  have hstart : (⟨empty, []⟩ : Shelf PortSet).Related Matches (⟨∅, []⟩ : Shelf (Finset Port)) :=
    ⟨matches_empty, .nil⟩
  obtain ⟨hanswers, hrelated⟩ := hstart.run change_related changes
  refine ⟨hanswers, hrelated.mono ?_⟩
  rintro s a ⟨hcounted, rfl⟩
  exact hcounted.represents

end PortLease.PortSet
