import Mathlib.Data.Fintype.Card
import Mathlib.Data.List.FinRange
import PortLease.PortSet

namespace PortLease.PortSet

theorem wordOf_bitOf {p q : Port} (hw : wordOf p = wordOf q) (hb : bitOf p = bitOf q) : p = q := by
  simp only [wordOf, bitOf, Fin.mk.injEq] at hw hb
  exact Fin.ext (by omega)

theorem bitOf_lt (p : Port) : bitOf p < 64 := Nat.mod_lt _ (by decide)

theorem contains_empty (p : Port) : empty.contains p = false := by
  simp [empty, contains, word]

theorem contains_setBit (s : PortSet) (p q : Port) :
    (s.setBit p).contains q = (decide (q = p) || s.contains q) := by
  simp only [contains, word, setBit]
  by_cases hw : wordOf p = wordOf q
  · by_cases hb : bitOf p = bitOf q
    · obtain rfl := wordOf_bitOf hw hb
      simp [bitOf_lt]
    · have hne : q ≠ p := fun h => hb (h ▸ rfl)
      simp [hw, hb, hne]
  · have hne : q ≠ p := fun h => hw (h ▸ rfl)
    have hv : (wordOf p).val ≠ (wordOf q).val := fun h => hw (Fin.ext h)
    simp [hv, hne]

theorem contains_clearBit (s : PortSet) (p q : Port) :
    (s.clearBit p).contains q = (!decide (q = p) && s.contains q) := by
  simp only [contains, word, clearBit]
  by_cases hw : wordOf p = wordOf q
  · by_cases hb : bitOf p = bitOf q
    · obtain rfl := wordOf_bitOf hw hb
      simp [bitOf_lt]
    · have hne : q ≠ p := fun h => hb (h ▸ rfl)
      have hb' : bitOf q ≠ bitOf p := fun h => hb h.symm
      simp [hw, hb', hne, bitOf_lt]
  · have hne : q ≠ p := fun h => hw (h ▸ rfl)
    have hv : (wordOf p).val ≠ (wordOf q).val := fun h => hw (Fin.ext h)
    simp [hv, hne]

theorem contains_insert (s : PortSet) (p q : Port) :
    (s.insert p).contains q = (decide (q = p) || s.contains q) := by
  unfold insert
  split
  · by_cases hq : q = p
    · subst hq
      simpa
    · simp [hq]
  · exact contains_setBit s p q

theorem contains_erase (s : PortSet) (p q : Port) :
    (s.erase p).contains q = (!decide (q = p) && s.contains q) := by
  unfold erase
  split
  · exact contains_clearBit s p q
  · by_cases hq : q = p
    · subst hq
      simpa using ‹¬s.contains q = true›
    · simp [hq]

theorem size_insert {s : PortSet} {p : Port} (h : s.contains p = false) :
    (s.insert p).size = s.size + 1 := by
  rw [insert, h]
  rfl

theorem size_erase {s : PortSet} {p : Port} (h : s.contains p = true) :
    (s.erase p).size = s.size - 1 := by
  rw [erase, h]
  rfl

def members (s : PortSet) : Finset Port := Finset.univ.filter fun p => s.contains p = true

theorem mem_members {s : PortSet} {p : Port} : p ∈ s.members ↔ s.contains p = true := by
  simp [members]

def Counted (s : PortSet) : Prop := s.size = s.members.card

theorem counted_empty : Counted empty := by
  have h : empty.members = ∅ := by
    ext p
    simp [mem_members, contains_empty]
  rw [Counted, h]
  rfl

theorem members_setBit (s : PortSet) (p : Port) : (s.setBit p).members = Insert.insert p s.members := by
  ext q
  simp [mem_members, contains_setBit]

theorem members_clearBit (s : PortSet) (p : Port) : (s.clearBit p).members = s.members.erase p := by
  ext q
  simp [mem_members, contains_clearBit]

theorem Counted.insert {s : PortSet} (h : s.Counted) (p : Port) : (s.insert p).Counted := by
  unfold PortSet.insert
  split
  · exact h
  · rename_i hp
    have hp' : p ∉ s.members := by rwa [mem_members]
    rw [Counted, members_setBit, Finset.card_insert_of_notMem hp', ← h]
    rfl

theorem Counted.erase {s : PortSet} (h : s.Counted) (p : Port) : (s.erase p).Counted := by
  unfold PortSet.erase
  split
  · rename_i hp
    rw [Counted, members_clearBit, Finset.card_erase_of_mem (mem_members.mpr hp), ← h]
    rfl
  · exact h

theorem eq_of_contains {s t : PortSet} (hs : s.Counted) (ht : t.Counted)
    (h : ∀ p, s.contains p = t.contains p) : s = t := by
  have hmembers : s.members = t.members := by
    ext p
    rw [mem_members, mem_members, h]
  have hwords : s.words = t.words := by
    refine Vector.ext fun w hw => BitVec.eq_of_getLsbD_eq fun b hb => ?_
    have hword : wordOf ⟨w * 64 + b, by omega⟩ = ⟨w, hw⟩ := Fin.ext (by simp [wordOf]; omega)
    have hbit : bitOf ⟨w * 64 + b, by omega⟩ = b := by simp [bitOf]; omega
    have hport := h ⟨w * 64 + b, by omega⟩
    simp only [contains, word, hword, hbit] at hport
    exact hport
  have hsize : s.size = t.size := by rw [hs, ht, hmembers]
  cases s
  cases t
  subst hwords hsize
  rfl

theorem mem_membersOfWord {s : PortSet} {w : Fin 1024} {p : Port} :
    p ∈ s.membersOfWord w ↔ wordOf p = w ∧ s.contains p = true := by
  have hbit : p ∈ ((List.finRange 64).filterMap fun b =>
      if s.words[w].getLsbD b.val then some (⟨w.val * 64 + b.val, by omega⟩ : Port) else none) ↔
      wordOf p = w ∧ s.contains p = true := by
    simp only [List.mem_filterMap, List.mem_finRange, true_and, Option.ite_none_right_eq_some,
      Option.some.injEq]
    constructor
    · rintro ⟨b, hb, rfl⟩
      have hw : wordOf ⟨w.val * 64 + b.val, by omega⟩ = w := Fin.ext (by simp [wordOf]; omega)
      have hbit : bitOf ⟨w.val * 64 + b.val, by omega⟩ = b.val := by simp [bitOf]
      exact ⟨hw, by simpa only [contains, word, hw, hbit] using hb⟩
    · rintro ⟨rfl, hp⟩
      refine ⟨⟨bitOf p, bitOf_lt p⟩, hp, Fin.ext ?_⟩
      simp only [wordOf, bitOf]
      omega
  unfold membersOfWord
  split
  · rename_i hz
    simp only [List.not_mem_nil, false_iff, not_and]
    rintro rfl
    simp [contains, word, hz]
  · exact hbit

theorem mem_toList {s : PortSet} {p : Port} : p ∈ s.toList ↔ s.contains p = true := by
  simp [toList, mem_membersOfWord]

theorem sorted_membersOfWord (s : PortSet) (w : Fin 1024) :
    (s.membersOfWord w).Pairwise (· < ·) := by
  unfold membersOfWord
  split
  · exact .nil
  · refine List.pairwise_filterMap.mpr ((List.pairwise_lt_finRange 64).imp ?_)
    intro a b hab p hp q hq
    simp only [Option.ite_none_right_eq_some, Option.some.injEq] at hp hq
    obtain ⟨-, rfl⟩ := hp
    obtain ⟨-, rfl⟩ := hq
    simpa using hab

theorem sorted_toList (s : PortSet) : s.toList.Pairwise (· < ·) := by
  unfold toList
  refine List.pairwise_flatMap.mpr ⟨fun w _ => sorted_membersOfWord s w, ?_⟩
  refine (List.pairwise_lt_finRange 1024).imp ?_
  intro v w hvw p hp q hq
  have hv := (mem_membersOfWord.mp hp).1
  have hw := (mem_membersOfWord.mp hq).1
  subst hv hw
  simp only [wordOf, Fin.lt_def] at hvw ⊢
  omega

theorem Counted.length_toList {s : PortSet} (h : s.Counted) : s.toList.length = s.size := by
  have hnodup : s.toList.Nodup := (sorted_toList s).imp fun hpq => hpq.ne
  have hset : s.toList.toFinset = s.members := by
    ext p
    simp [mem_toList, mem_members]
  rw [h, ← hset, List.toFinset_card_of_nodup hnodup]

end PortLease.PortSet
