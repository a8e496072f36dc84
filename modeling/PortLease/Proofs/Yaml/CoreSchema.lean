import PortLease.Proofs.Text.Numeral
import PortLease.Proofs.Text.Trim
import PortLease.Proofs.Yaml.Resolution

namespace PortLease.Yaml.CoreSchema

variable {cs : List Char} {c : Char} {n : Nat}

theorem isDigit_toDigits (hc : c ∈ Nat.toDigits 10 n) : Text.isDigit c = true := by
  have hdigit := Nat.isDigit_of_mem_toDigits (by decide) (by decide) hc
  exact hdigit

theorem digits?_toDigits (n : Nat) : Text.digits? (Nat.toDigits 10 n) = some n := by
  have hvalue : Text.digitsValue (Nat.toDigits 10 n) = n := Nat.ofDigitChars_ten_toDigits
  rw [Text.digits?, if_neg (by simp [Nat.toDigits_ne_nil]),
    if_pos (List.all_eq_true.mpr fun c hc => isDigit_toDigits hc), hvalue]

theorem head?_toDigits (hn : 0 < n) : (Nat.toDigits 10 n).head? ≠ some '0' := by
  induction n using Nat.base_induction 10 (by decide) with
  | single n hlt =>
    rw [Nat.toDigits_of_lt_base hlt]
    have hall : ∀ d : Fin 10, 0 < d.val → [Nat.digitChar d.val].head? ≠ some '0' := by decide
    exact hall ⟨n, hlt⟩ hn
  | digit m k hk hm ih =>
    obtain ⟨c, cs, hcs⟩ := List.exists_cons_of_ne_nil (Nat.toDigits_ne_nil (n := m) (b := 10))
    rw [← Nat.toDigits_append_toDigits (by decide) hm hk, hcs]
    rw [hcs] at ih
    exact ih hm

theorem sign_cons (hminus : c ≠ '-') (hplus : c ≠ '+') :
    dropMinus? (c :: cs) = none ∧ dropPlus (c :: cs) = c :: cs := by
  constructor
  · unfold dropMinus?
    split
    · rename_i heq
      exact absurd (List.cons.inj heq).1 hminus
    · rfl
  · unfold dropPlus
    split
    · rename_i heq
      exact absurd (List.cons.inj heq).1 hplus
    · rfl

theorem sign_digits (hdigits : Text.digits? cs = some n) : dropMinus? cs = none ∧ dropPlus cs = cs := by
  have hall := (Text.digits?_eq_some_iff.mp hdigits).2.1
  cases cs with
  | nil => exact ⟨rfl, rfl⟩
  | cons c cs =>
    have hc := hall c List.mem_cons_self
    refine sign_cons ?_ ?_
    all_goals
      rintro rfl
      exact absurd hc (by decide)

theorem magnitude?_digits (hdigits : Text.digits? cs = some n) (hzero : hasLeadingZero cs = false) :
    magnitude? cs = some n := by
  have hall := (Text.digits?_eq_some_iff.mp hdigits).2.1
  unfold magnitude?
  split
  · exact absurd (hall 'x' (by simp)) (by decide)
  · exact absurd (hall 'o' (by simp)) (by decide)
  · exact absurd (hall 'b' (by simp)) (by decide)
  · rw [hzero, if_neg Bool.false_ne_true, hdigits]

theorem hasLeadingZero_iff (hdigits : Text.digits? cs = some n) :
    hasLeadingZero cs = false ↔ (cs.head? = some '0' → cs = ['0']) := by
  have hall := (Text.digits?_eq_some_iff.mp hdigits).2.1
  rw [hasLeadingZero, (sign_digits hdigits).1, (sign_digits hdigits).2, Option.getD_none]
  split
  · rename_i c cs
    have hmore : (c :: cs).all Text.isDigit = true := by
      refine List.all_eq_true.mpr fun d hd => ?_
      obtain ⟨hlow, hhigh⟩ := hall d (List.mem_cons_of_mem _ hd)
      rw [Text.isDigit, decide_eq_true hlow, decide_eq_true hhigh, Bool.and_true]
    simp [hmore]
  · rename_i hno
    refine iff_of_true rfl fun hhead => ?_
    obtain ⟨cs, rfl⟩ := List.head?_eq_some_iff.mp hhead
    cases cs with
    | nil => rfl
    | cons c cs => exact absurd rfl (hno c cs)

theorem hasLeadingZero_toDigits (n : Nat) : hasLeadingZero (Nat.toDigits 10 n) = false := by
  refine (hasLeadingZero_iff (digits?_toDigits n)).mpr fun hhead => ?_
  cases n with
  | zero => rfl
  | succ n => exact absurd hhead (head?_toDigits (Nat.succ_pos n))

theorem nat?_toString (n : Nat) : nat? (toString n).toList = some n := by
  have hdigits := digits?_toDigits n
  have htext : (toString n).toList = Nat.toDigits 10 n := Nat.toList_repr
  rw [htext, nat?, (sign_digits hdigits).2, magnitude?_digits hdigits (hasLeadingZero_toDigits n)]

theorem hexValue?_eq_iff {d : Nat} (hd : d < 10) : hexValue? c = some d ↔ c.toNat = 48 + d := by
  have hdigit : ('0' ≤ c ↔ 48 ≤ c.toNat) ∧ (c ≤ '9' ↔ c.toNat ≤ 57) := ⟨Iff.rfl, Iff.rfl⟩
  have hsmall : ('a' ≤ c ↔ 97 ≤ c.toNat) ∧ (c ≤ 'f' ↔ c.toNat ≤ 102) := ⟨Iff.rfl, Iff.rfl⟩
  have hlarge : ('A' ≤ c ↔ 65 ≤ c.toNat) ∧ (c ≤ 'F' ↔ c.toNat ≤ 70) := ⟨Iff.rfl, Iff.rfl⟩
  simp only [hexValue?, Bool.and_eq_true, decide_eq_true_eq, hdigit, hsmall, hlarge, Char.reduceToNat]
  split_ifs
  all_goals
    simp only [Option.some.injEq, false_iff]
    omega

theorem hexValue?_eq_zero_iff : hexValue? c = some 0 ↔ c = '0' := by
  rw [hexValue?_eq_iff (by decide), ← Char.toNat_inj]
  rfl

theorem hexValue?_eq_one_iff : hexValue? c = some 1 ↔ c = '1' := by
  rw [hexValue?_eq_iff (by decide), ← Char.toNat_inj]
  rfl

def digitStep (radix n : Nat) (c : Char) : Option Nat :=
  (hexValue? c).bind fun d => if d < radix then some (n * radix + d) else none

theorem digitsIn?_eq (radix : Nat) (cs : List Char) :
    digitsIn? radix cs = if cs.isEmpty then none else cs.foldlM (digitStep radix) 0 := rfl

theorem digitStep_eq_some_iff {radix m : Nat} :
    digitStep radix n c = some m ↔ ∃ d < radix, hexValue? c = some d ∧ m = n * radix + d := by
  rw [digitStep, Option.bind_eq_some_iff]
  constructor
  · rintro ⟨d, hd, hm⟩
    split at hm
    · rename_i hlt
      exact ⟨d, hlt, hd, (Option.some.inj hm).symm⟩
    · cases hm
  · rintro ⟨d, hlt, hd, rfl⟩
    exact ⟨d, hd, if_pos hlt⟩

theorem digits_eq_some_iff {radix m : Nat} : cs.foldlM (digitStep radix) m = some n ↔
    ∃ ds : List Nat, List.Forall₂ (fun c d => hexValue? c = some d ∧ d < radix) cs ds ∧
      n = ds.foldl (fun n d => d + radix * n) m := by
  induction cs generalizing m with
  | nil =>
    constructor
    · intro h
      exact ⟨[], .nil, (Option.some.inj h).symm⟩
    · rintro ⟨_, ⟨⟩, rfl⟩
      rfl
  | cons c cs ih =>
    rw [List.foldlM_cons, Option.bind_eq_bind, Option.bind_eq_some_iff]
    constructor
    · rintro ⟨more, hmore, hrest⟩
      obtain ⟨d, hlt, hd, rfl⟩ := digitStep_eq_some_iff.mp hmore
      obtain ⟨ds, hds, rfl⟩ := ih.mp hrest
      exact ⟨d :: ds, .cons ⟨hd, hlt⟩ hds, by rw [List.foldl_cons, Nat.mul_comm, Nat.add_comm]⟩
    · rintro ⟨_, _ | ⟨⟨hd, hlt⟩, hds⟩, rfl⟩
      refine ⟨_, digitStep_eq_some_iff.mpr ⟨_, hlt, hd, rfl⟩, ih.mpr ⟨_, hds, ?_⟩⟩
      rw [List.foldl_cons, Nat.mul_comm, Nat.add_comm]

theorem digitsIn?_eq_some_iff {radix : Nat} : digitsIn? radix cs = some n ↔ Digits radix cs n := by
  have hvalue (ds : List Nat) : ds.foldl (fun n d => d + radix * n) 0 = Nat.ofDigits radix ds.reverse := by
    rw [Nat.ofDigits_eq_foldr, List.foldr_reverse]
    rfl
  rw [digitsIn?_eq, Option.ite_none_left_eq_some, List.isEmpty_iff, digits_eq_some_iff]
  simp only [Digits, hvalue]
  exact exists_and_left.symm

def EndsZeros (cs : List Char) : Prop := ∃ zeros, cs = List.replicate zeros '0' ++ ['1']

theorem endsZeros_cons : EndsZeros (c :: cs) ↔ c = '0' ∧ EndsZeros cs ∨ c = '1' ∧ cs = [] := by
  constructor
  · rintro ⟨zeros, hzeros⟩
    cases zeros with
    | zero => exact .inr (List.cons.inj hzeros)
    | succ zeros =>
      obtain ⟨hc, hcs⟩ := List.cons.inj hzeros
      exact .inl ⟨hc, zeros, hcs⟩
  · rintro (⟨rfl, zeros, rfl⟩ | ⟨rfl, rfl⟩)
    · exact ⟨zeros + 1, rfl⟩
    · exact ⟨0, rfl⟩

theorem le_of_digits {radix m : Nat} (hradix : 1 < radix) (h : cs.foldlM (digitStep radix) n = some m) : n ≤ m := by
  induction cs generalizing n with
  | nil => exact (Option.some.inj h).le
  | cons c cs ih =>
    rw [List.foldlM_cons, Option.bind_eq_bind, Option.bind_eq_some_iff] at h
    obtain ⟨more, hmore, hm⟩ := h
    obtain ⟨d, -, -, rfl⟩ := digitStep_eq_some_iff.mp hmore
    have := Nat.le_mul_of_pos_right n (Nat.zero_lt_of_lt hradix)
    have := ih hm
    omega

theorem digits_eq_one_iff {radix : Nat} (hradix : 1 < radix) :
    cs.foldlM (digitStep radix) 0 = some 1 ↔ EndsZeros cs := by
  induction cs with
  | nil => simp [EndsZeros]
  | cons c cs ih =>
    rw [List.foldlM_cons, Option.bind_eq_bind, Option.bind_eq_some_iff, endsZeros_cons, ← ih,
      ← hexValue?_eq_zero_iff, ← hexValue?_eq_one_iff]
    constructor
    · rintro ⟨m, hm, hrest⟩
      obtain ⟨d, -, hd, rfl⟩ := digitStep_eq_some_iff.mp hm
      rw [Nat.zero_mul, Nat.zero_add] at hrest
      have hle : d ≤ 1 := le_of_digits hradix hrest
      obtain rfl | rfl : d = 0 ∨ d = 1 := by omega
      · exact .inl ⟨hd, hrest⟩
      · refine .inr ⟨hd, ?_⟩
        -- another digit would make at least `radix` of the 1
        cases cs with
        | nil => rfl
        | cons e cs =>
          rw [List.foldlM_cons, Option.bind_eq_bind, Option.bind_eq_some_iff] at hrest
          obtain ⟨more, hmore, hone⟩ := hrest
          obtain ⟨_, -, -, rfl⟩ := digitStep_eq_some_iff.mp hmore
          have := le_of_digits hradix hone
          omega
    · rintro (⟨hd, hrest⟩ | ⟨hd, rfl⟩)
      · exact ⟨0, digitStep_eq_some_iff.mpr ⟨0, Nat.zero_lt_of_lt hradix, hd, by simp⟩, hrest⟩
      · exact ⟨1, digitStep_eq_some_iff.mpr ⟨1, hradix, hd, by simp⟩, rfl⟩

theorem digits_one_iff {radix : Nat} (hradix : 1 < radix) : Digits radix cs 1 ↔ EndsZeros cs := by
  rw [← digitsIn?_eq_some_iff, digitsIn?_eq, ← digits_eq_one_iff hradix]
  cases cs with
  | nil => simp
  | cons c cs => simp

theorem digitsIn?_of_digits? (h : Text.digits? cs = some n) : digitsIn? 10 cs = some n := by
  obtain ⟨hne, hall, hn⟩ := Text.digits?_eq_some_iff.mp h
  have hfold : ∀ m, cs.foldlM (digitStep 10) m = some (cs.foldl (fun n c => 10 * n + Text.digitValue c) m) := by
    clear h hn hne
    induction cs with
    | nil => exact fun m => rfl
    | cons c cs ih =>
      intro m
      obtain ⟨hc, hall⟩ := List.forall_mem_cons.mp hall
      have hlow : 48 ≤ c.toNat := hc.1
      have hhigh : c.toNat ≤ 57 := hc.2
      have hvalue : Text.digitValue c = c.toNat - 48 := rfl
      have hstep : digitStep 10 m c = some (10 * m + Text.digitValue c) := digitStep_eq_some_iff.mpr
        ⟨Text.digitValue c, by omega, (hexValue?_eq_iff (by omega)).mpr (by omega), by omega⟩
      rw [List.foldlM_cons, hstep, Option.bind_eq_bind, Option.bind_some, ih hall, List.foldl_cons]
  rw [digitsIn?_eq, if_neg (by simpa using hne), hfold 0, hn, ← Text.digitsValue_eq, Text.digitsValue]

theorem decimal_of_digits {ds : List Nat} (h : List.Forall₂ (fun c d => hexValue? c = some d ∧ d < 10) cs ds) :
    ∀ c ∈ cs, '0' ≤ c ∧ c ≤ '9' := by
  induction h with
  | nil => nofun
  | @cons c _ _ _ hd _ ih =>
    have hvalue := (hexValue?_eq_iff hd.2).mp hd.1
    have hlt := hd.2
    have hlow : 48 ≤ c.toNat := by omega
    have hhigh : c.toNat ≤ 57 := by omega
    exact List.forall_mem_cons.mpr ⟨⟨hlow, hhigh⟩, ih⟩

theorem digits?_of_digits (h : Digits 10 cs n) : Text.digits? cs = some n := by
  have ⟨ds, hne, hds, _⟩ := h
  have hdigits := Text.digits?_eq_some_iff.mpr ⟨hne, decimal_of_digits hds, rfl⟩
  have hsame := digitsIn?_of_digits? hdigits
  rw [digitsIn?_eq_some_iff.mpr h] at hsame
  rw [hdigits, hsame]

/-- The number 1 in hexadecimal, octal or binary digits. -/
def IsRadixOne (cs : List Char) : Prop :=
  ∃ mark ∈ ['x', 'o', 'b'], ∃ digits, cs = '0' :: mark :: digits ∧ EndsZeros digits

theorem magnitude?_eq_some_iff : magnitude? cs = some n ↔ Numeral cs n := by
  constructor
  · intro h
    unfold magnitude? at h
    split at h
    · exact .marked (by simp) (digitsIn?_eq_some_iff.mp h)
    · exact .marked (by simp) (digitsIn?_eq_some_iff.mp h)
    · exact .marked (by simp) (digitsIn?_eq_some_iff.mp h)
    · split at h
      · cases h
      · rename_i hzero
        rw [Bool.not_eq_true] at hzero
        exact .decimal (digitsIn?_eq_some_iff.mp (digitsIn?_of_digits? h)) ((hasLeadingZero_iff h).mp hzero)
  · rintro (⟨h, hzero⟩ | ⟨hmark, h⟩)
    · have hdigits := digits?_of_digits h
      exact magnitude?_digits hdigits ((hasLeadingZero_iff hdigits).mpr hzero)
    · rw [← digitsIn?_eq_some_iff] at h
      simp only [List.mem_cons, List.not_mem_nil, or_false, Prod.mk.injEq] at hmark
      obtain ⟨rfl, rfl⟩ | ⟨rfl, rfl⟩ | ⟨rfl, rfl⟩ := hmark
      all_goals exact h

theorem Numeral.unique {m : Nat} (h : Numeral cs n) (h' : Numeral cs m) : n = m :=
  Option.some.inj ((magnitude?_eq_some_iff.mpr h).symm.trans (magnitude?_eq_some_iff.mpr h'))

theorem numeral_one_iff : Numeral cs 1 ↔ cs = ['1'] ∨ IsRadixOne cs := by
  constructor
  · rintro (⟨h, hzero⟩ | ⟨hmark, h⟩)
    · obtain ⟨zeros, rfl⟩ := (digits_one_iff (by decide)).mp h
      cases zeros with
      | zero => exact .inl rfl
      | succ zeros =>
        have hnone := (List.cons.inj (hzero rfl)).2
        simp at hnone
    · have hmarks : ∀ pair ∈ [('x', 16), ('o', 8), ('b', 2)], pair.1 ∈ ['x', 'o', 'b'] ∧ 1 < pair.2 := by decide
      obtain ⟨hmark, hradix⟩ := hmarks _ hmark
      exact .inr ⟨_, hmark, _, rfl, (digits_one_iff hradix).mp h⟩
  · rintro (rfl | ⟨mark, hmark, digits, rfl, hdigits⟩)
    · exact .decimal ((digits_one_iff (by decide)).mpr ⟨0, rfl⟩) (by decide)
    · have hmarks : ∀ mark ∈ ['x', 'o', 'b'], ∃ radix, 1 < radix ∧ (mark, radix) ∈ [('x', 16), ('o', 8), ('b', 2)] := by
        simp
      obtain ⟨radix, hradix, hmark⟩ := hmarks mark hmark
      exact .marked hmark ((digits_one_iff hradix).mpr hdigits)

def sized (n : Int) : Option Atom :=
  if -Nat.pow 2 63 ≤ n ∧ n < Nat.pow 2 64 then some (.int n)
  else if -Nat.pow 2 127 ≤ n ∧ n < Nat.pow 2 128 then some .wide
  else none

theorem whole?_eq (cs : List Char) : whole? cs = (int? cs).bind sized := rfl

theorem sized_ofNat (n : Nat) : sized (Int.ofNat n) =
    if n < Nat.pow 2 64 then some (.int (Int.ofNat n)) else if n < Nat.pow 2 128 then some .wide else none := by
  have hlow (k : Nat) : -(k : Int) ≤ Int.ofNat n :=
    Int.le_trans (Int.neg_nonpos_of_nonneg (Int.natCast_nonneg k)) (Int.natCast_nonneg n)
  have hhigh (k : Nat) : Int.ofNat n < (k : Int) ↔ n < k := Int.ofNat_lt
  simp only [sized, hlow, hhigh, true_and]

theorem int?_cons (hminus : c ≠ '-') (hplus : c ≠ '+') :
    int? (c :: cs) = (magnitude? (c :: cs)).map Int.ofNat := by
  obtain ⟨hnone, hself⟩ : dropMinus? (c :: cs) = none ∧ dropPlus (c :: cs) = c :: cs := sign_cons hminus hplus
  rw [int?, hnone, nat?, hself]

theorem not_contains_of_head {q : Char → Bool} {words : List String}
    (hwords : words.all (fun word => !word.toList.head?.any q) = true) (hc : q c = true) :
    words.contains (String.ofList (c :: cs)) = false := by
  rw [List.contains_eq_mem, decide_eq_false_iff_not]
  intro hmem
  have hhead := List.all_eq_true.mp hwords _ hmem
  rw [String.toList_ofList, List.head?_cons, Option.any_some, hc] at hhead
  cases hhead

section Letter

variable (hc : c.isAlpha = true)

include hc

theorem not_isDigit_letter : Text.isDigit c = false := by
  refine Text.letter_induction (P := fun c => c.isAlpha = true → Text.isDigit c = false) (by decide) ?_ hc
  rw [Char.isAlphanum, hc, Bool.true_or]

theorem magnitude?_letter : magnitude? (c :: cs) = none := by
  have hzero : c ≠ '0' := Text.ne_of_test hc rfl
  have hdigits : Text.digits? (c :: cs) = none := by simp [Text.digits?, not_isDigit_letter hc]
  unfold magnitude?
  split
  case h_4 =>
    rw [hdigits]
    split <;> rfl
  all_goals
    rename_i heq
    exact absurd (List.cons.inj heq).1 hzero

theorem decimal?_letter : decimal? (c :: cs) = none := by
  have hpoint : c ≠ '.' := Text.ne_of_test hc rfl
  have hsplit : splitFraction (c :: cs) = ([], [], c :: cs) := by
    rw [splitFraction, List.takeWhile_cons, List.dropWhile_cons, not_isDigit_letter hc]
    split
    · rename_i heq
      exact absurd (List.cons.inj heq).1 hpoint
    · rfl
  rw [decimal?, hsplit]
  rfl

theorem real?_letter : real? (c :: cs) = none := by
  obtain ⟨hnone, hself⟩ : dropMinus? (c :: cs) = none ∧ dropPlus (c :: cs) = c :: cs :=
    sign_cons (Text.ne_of_test hc rfl) (Text.ne_of_test hc rfl)
  rw [real?, hself, hnone, decimal?_letter hc, not_contains_of_head (q := Char.isAlpha) (by decide) hc,
    not_contains_of_head (q := Char.isAlpha) (by decide) hc]
  rfl

theorem whole?_letter : whole? (c :: cs) = none := by
  have hminus : c ≠ '-' := Text.ne_of_test hc rfl
  have hplus : c ≠ '+' := Text.ne_of_test hc rfl
  rw [whole?_eq, int?_cons hminus hplus, magnitude?_letter hc]
  rfl

theorem atom_letter : atom (c :: cs) =
    if isNull (c :: cs) then .null else (bool? (c :: cs)).elim .text .bool := by
  rw [atom, whole?_letter hc, real?_letter hc]
  cases isNull (c :: cs) <;> cases bool? (c :: cs) <;> simp

end Letter

theorem whole?_digit (hc : Text.isDigit c = true) :
    whole? (c :: cs) = (magnitude? (c :: cs)).bind fun n => sized (Int.ofNat n) := by
  have hminus : c ≠ '-' := by
    rintro rfl
    exact absurd hc (by decide)
  have hplus : c ≠ '+' := by
    rintro rfl
    exact absurd hc (by decide)
  rw [whole?_eq, int?_cons hminus hplus, Option.bind_map, Function.comp_def]

theorem sized_wide_iff : sized (Int.ofNat n) = some .wide ↔ Nat.pow 2 64 ≤ n ∧ n < Nat.pow 2 128 := by
  rw [sized_ofNat, ← Nat.not_lt]
  split
  · rename_i hint
    exact iff_of_false (by simp) fun h => h.1 hint
  · rename_i hint
    rw [and_iff_right hint]
    exact Option.ite_none_right_eq_some.trans (and_iff_left rfl)

theorem whole?_wide_iff (hc : Text.isDigit c = true) : whole? (c :: cs) = some .wide ↔
    ∃ n, Numeral (c :: cs) n ∧ Nat.pow 2 64 ≤ n ∧ n < Nat.pow 2 128 := by
  rw [whole?_digit hc, Option.bind_eq_some_iff]
  exact exists_congr fun n => and_congr magnitude?_eq_some_iff sized_wide_iff

theorem atom_digit (hc : Text.isDigit c = true) : atom (c :: cs) =
    (whole? (c :: cs)).getD
      (if hasLeadingZero (c :: cs) then .text else (real? (c :: cs)).elim .text fun r => .real r.normal) := by
  have hnull : isNull (c :: cs) = false := not_contains_of_head (q := Text.isDigit) (by decide) hc
  have hbool : bool? (c :: cs) = none := by
    rw [bool?, not_contains_of_head (q := Text.isDigit) (by decide) hc,
      not_contains_of_head (q := Text.isDigit) (by decide) hc]
    rfl
  rw [atom, hnull, hbool]
  cases whole? (c :: cs) <;> cases real? (c :: cs) <;> simp

theorem Numeral.digit (h : Numeral cs n) : ∃ c rest, cs = c :: rest ∧ Text.isDigit c = true := by
  obtain ⟨h, -⟩ | ⟨-, -⟩ := h
  · obtain ⟨hne, hall, -⟩ := Text.digits?_eq_some_iff.mp (digits?_of_digits h)
    obtain ⟨c, rest, rfl⟩ := List.exists_cons_of_ne_nil hne
    obtain ⟨hlow, hhigh⟩ := hall c List.mem_cons_self
    refine ⟨c, rest, rfl, ?_⟩
    rw [Text.isDigit, decide_eq_true hlow, decide_eq_true hhigh, Bool.and_true]
  · exact ⟨'0', _, rfl, rfl⟩

theorem atom_numeral (h : Numeral cs n) (hlt : n < Nat.pow 2 128) :
    atom cs = if n < Nat.pow 2 64 then .int (Int.ofNat n) else .wide := by
  obtain ⟨c, rest, rfl, hc⟩ := h.digit
  rw [atom_digit hc, whole?_digit hc, magnitude?_eq_some_iff.mpr h, Option.bind_some, sized_ofNat,
    if_pos hlt]
  split <;> rfl

theorem resolution : Resolution atom where
  null := by decide
  yes := by decide
  no := by decide
  text {c cs} hc hnone := by
    simp only [List.mem_append, not_or] at hnone
    have hnull : isNull (c :: cs) = false := by
      rw [isNull, List.contains_eq_mem, decide_eq_false_iff_not]
      intro hmem
      obtain hmem | hmem := List.mem_append.mp (show _ ∈ nullWords ++ ["~"] from hmem)
      · exact hnone.1.1 hmem
      · have htilde := congrArg String.toList (List.mem_singleton.mp hmem)
        rw [String.toList_ofList] at htilde
        exact Text.ne_of_test hc rfl (List.cons.inj htilde).1
    have hyes : trueWords.contains (String.ofList (c :: cs)) = false := by simpa using hnone.1.2
    have hno : falseWords.contains (String.ofList (c :: cs)) = false := by simpa using hnone.2
    have hbool : bool? (c :: cs) = none :=
      (if_neg (Bool.eq_false_iff.mp hyes)).trans (if_neg (Bool.eq_false_iff.mp hno))
    rw [atom_letter hc, hnull, hbool]
    rfl
  int h hlt := by
    have hle : Nat.pow 2 64 ≤ Nat.pow 2 128 := Nat.pow_le_pow_right (by decide) (by decide)
    rw [atom_numeral h (Nat.lt_of_lt_of_le hlt hle), if_pos hlt]
  wide h hle hlt := by rw [atom_numeral h hlt, if_neg (Nat.not_lt.mpr hle)]
  digit {c cs} hc hnone := by
    have hwhole : whole? (c :: cs) = none := by
      rw [whole?_digit hc, Option.bind_eq_none_iff]
      intro n hn
      have hlarge : ¬ n < Nat.pow 2 128 := fun hlt => hnone n hlt (magnitude?_eq_some_iff.mp hn)
      have hle : Nat.pow 2 64 ≤ Nat.pow 2 128 := Nat.pow_le_pow_right (by decide) (by decide)
      rw [sized_ofNat, if_neg fun hlt => hlarge (Nat.lt_of_lt_of_le hlt hle), if_neg hlarge]
    rw [atom_digit hc, hwhole, Option.getD_none]
    split
    · exact .inl rfl
    · cases real? (c :: cs) with
      | none => exact .inl rfl
      | some r => exact .inr ⟨r.normal, rfl⟩

end PortLease.Yaml.CoreSchema
