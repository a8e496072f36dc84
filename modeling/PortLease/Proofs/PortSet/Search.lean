import PortLease.Proofs.PortSet

namespace PortLease

namespace Port

def round : Nat → Port → List Port
  | 0, _ => []
  | n + 1, p => p :: round n (p + 1)

def ahead (start p : Port) : Nat := (p - start).val

structure First (start : Port) (good : Port → Prop) (p : Port) : Prop where
  here : good p
  before : ∀ q, ahead start q < ahead start p → ¬ good q

variable {n i : Nat} {p q start : Port} {good : Port → Bool}

theorem add_ofNat (p : Port) (i j : Nat) :
    p + Fin.ofNat 65536 i + Fin.ofNat 65536 j = p + Fin.ofNat 65536 (i + j) := by
  apply Fin.ext
  simp only [Fin.val_add, Fin.val_ofNat]
  omega

theorem add_ahead (start p : Port) : start + Fin.ofNat 65536 (ahead start p) = p := by
  apply Fin.ext
  simp only [ahead, Fin.val_add, Fin.val_ofNat, Fin.sub_def]
  omega

theorem ahead_add (start : Port) (hi : i < 65536) : ahead start (start + Fin.ofNat 65536 i) = i := by
  simp only [ahead, Fin.sub_def, Fin.val_add, Fin.val_ofNat]
  omega

theorem ahead_sub {k : Nat} (h : k ≤ ahead start q) :
    ahead (start + Fin.ofNat 65536 k) q = ahead start q - k := by
  simp only [ahead, Fin.sub_def, Fin.val_add, Fin.val_ofNat] at h ⊢
  omega

theorem ahead_inj (h : ahead start p = ahead start q) : p = q := by
  rw [← add_ahead start p, h, add_ahead]

theorem First.unique {good : Port → Prop} (hp : First start good p) (hq : First start good q) :
    p = q := by
  obtain hlt | heq | hlt := Nat.lt_trichotomy (ahead start p) (ahead start q)
  · exact absurd hp.here (hq.before p hlt)
  · exact ahead_inj heq
  · exact absurd hq.here (hp.before q hlt)

theorem length_round : (round n p).length = n := by
  induction n generalizing p with
  | zero => rfl
  | succ n ih => rw [round, List.length_cons, ih]

theorem getElem_round (hi : i < (round n p).length) : (round n p)[i] = p + Fin.ofNat 65536 i := by
  induction n generalizing p i with
  | zero => cases hi
  | succ n ih =>
    cases i with
    | zero =>
      apply Fin.ext
      simp [round]
    | succ i =>
      simp only [round, List.getElem_cons_succ, ih]
      rw [Nat.add_comm i]
      exact add_ofNat p 1 i

theorem round_add (m n : Nat) (p : Port) :
    round (m + n) p = round m p ++ round n (p + Fin.ofNat 65536 m) := by
  apply List.ext_getElem
  · simp [length_round]
  · intro i _ _
    rw [List.getElem_append]
    split
    · rw [getElem_round, getElem_round]
    · rename_i hle
      rw [length_round, Nat.not_lt] at hle
      rw [getElem_round, getElem_round, add_ofNat, length_round, Nat.add_sub_cancel' hle]

theorem mem_round : q ∈ round count start := by
  have hq : ahead start q < (round count start).length := by
    rw [length_round]
    exact (q - start).isLt
  rw [← add_ahead start q, ← getElem_round hq]
  exact List.getElem_mem hq

theorem find?_round_eq_none_iff : (round count start).find? good = none ↔ ∀ q, good q = false := by
  simp [List.find?_eq_none, mem_round]

theorem find?_round_eq_some_iff :
    (round count start).find? good = some p ↔ First start (fun q => good q = true) p := by
  rw [List.find?_eq_some_iff_getElem]
  constructor
  · rintro ⟨hgood, i, hi, hp, hbefore⟩
    refine ⟨hgood, fun q hq => ?_⟩
    rw [getElem_round] at hp
    rw [length_round] at hi
    rw [← hp, ahead_add start hi] at hq
    have hskipped := hbefore (ahead start q) hq
    rw [getElem_round, add_ahead] at hskipped
    simpa using hskipped
  · rintro ⟨hgood, hbefore⟩
    have hp : ahead start p < (round count start).length := by
      rw [length_round]
      exact (p - start).isLt
    refine ⟨hgood, ahead start p, hp, by rw [getElem_round, add_ahead], fun j hj => ?_⟩
    rw [getElem_round]
    have hskipped := hbefore (start + Fin.ofNat 65536 j)
      (by rwa [ahead_add start (hj.trans (p - start).isLt)])
    simpa using hskipped

end Port

namespace PortSet

variable {s : PortSet} {eligible : Port → Bool} {left : Nat} {p start : Port}

def isOpen (s : PortSet) (eligible : Port → Bool) (p : Port) : Bool := !s.contains p && eligible p

theorem isOpen_iff : s.isOpen eligible p = true ↔ s.contains p = false ∧ eligible p = true := by
  simp [isOpen]

theorem isOpen_eq_false_iff :
    s.isOpen eligible p = false ↔ s.contains p = true ∨ eligible p = false := by
  cases hp : s.contains p <;> simp [isOpen, hp]

theorem contains_of_full (hbit : bitOf p = 0) (hfull : s.word p = BitVec.allOnes 64) {n : Nat}
    (hn : n ≤ 64) {q : Port} (hq : q ∈ Port.round n p) : s.contains q = true := by
  obtain ⟨i, hi, rfl⟩ := List.mem_iff_getElem.mp hq
  rw [Port.length_round] at hi
  rw [Port.getElem_round]
  have hword : wordOf (p + Fin.ofNat 65536 i) = wordOf p := by
    simp only [wordOf, bitOf, Fin.mk.injEq, Fin.val_add, Fin.val_ofNat] at hbit ⊢
    omega
  have hsame : s.word (p + Fin.ofNat 65536 i) = BitVec.allOnes 64 := by
    rw [← hfull]
    simp only [word, hword]
  rw [contains, hsame, BitVec.getLsbD_allOnes]
  exact decide_eq_true (bitOf_lt _)

theorem findFrom?_eq_round :
    s.findFrom? eligible left start = (Port.round left start).find? (s.isOpen eligible) := by
  fun_induction findFrom? s eligible left start with
  | case1 => rfl
  | case2 left p _ hfull ih =>
    have hskip (n : Nat) (hn : n ≤ 64) : (Port.round n p).find? (s.isOpen eligible) = none := by
      apply List.find?_eq_none.mpr
      intro q hq
      simp [isOpen, contains_of_full hfull.1 hfull.2 hn hq]
    rw [ih]
    -- The last step may lead past the end of the round.
    by_cases hle : left ≤ 64
    · rw [hskip left hle, Nat.sub_eq_zero_of_le hle]
      rfl
    · have hsplit := Port.round_add 64 (left - 64) p
      rw [Nat.add_sub_cancel' (Nat.le_of_not_le hle)] at hsplit
      rw [hsplit, List.find?_append, hskip 64 (Nat.le_refl _)]
      rfl
  | case3 left p hleft _ hopen =>
    have hopen : s.isOpen eligible p = true := hopen
    obtain ⟨left, rfl⟩ := Nat.exists_eq_succ_of_ne_zero hleft
    rw [Port.round, List.find?_cons_of_pos hopen]
  | case4 left p hleft _ hshut ih =>
    have hshut : ¬ s.isOpen eligible p = true := hshut
    obtain ⟨left, rfl⟩ := Nat.exists_eq_succ_of_ne_zero hleft
    rw [ih, Port.round, List.find?_cons_of_neg hshut]
    rfl

theorem find?_eq_round :
    s.find? start eligible = (Port.round Port.count start).find? (s.isOpen eligible) :=
  findFrom?_eq_round

theorem find?_eq_some_iff :
    s.find? start eligible = some p ↔ Port.First start (fun q => s.isOpen eligible q = true) p := by
  rw [find?_eq_round, Port.find?_round_eq_some_iff]

theorem find?_none_iff :
    s.find? start eligible = none ↔ ∀ p, s.contains p = true ∨ eligible p = false := by
  rw [find?_eq_round, Port.find?_round_eq_none_iff]
  exact forall_congr' fun p => isOpen_eq_false_iff

theorem find?_some (h : s.find? start eligible = some p) :
    s.contains p = false ∧ eligible p = true :=
  isOpen_iff.mp (find?_eq_some_iff.mp h).here

theorem search_finds_first_open (s : PortSet) (start : Port) (eligible : Port → Bool) :
    s.find? start eligible =
        (Port.round Port.count start).find? (fun p => !s.contains p && eligible p) ∧
      (∀ p, s.find? start eligible = some p ↔
        s.contains p = false ∧ eligible p = true ∧
          ∀ q, Port.ahead start q < Port.ahead start p →
            s.contains q = true ∨ eligible q = false) ∧
      (s.find? start eligible = none ↔ ∀ p, ¬ (s.contains p = false ∧ eligible p = true)) := by
  refine ⟨find?_eq_round, fun p => ?_, ?_⟩
  · rw [find?_eq_some_iff, ← and_assoc, ← isOpen_iff]
    constructor
    · intro h
      exact ⟨h.here, fun q hq => isOpen_eq_false_iff.mp (Bool.not_eq_true _ ▸ h.before q hq)⟩
    · rintro ⟨hgood, hbefore⟩
      refine ⟨hgood, fun q hq => ?_⟩
      rw [isOpen_eq_false_iff.mpr (hbefore q hq)]
      exact Bool.false_ne_true
  · rw [find?_none_iff]
    apply forall_congr'
    intro p
    rw [← isOpen_iff, ← isOpen_eq_false_iff, Bool.not_eq_true]

end PortSet

end PortLease
