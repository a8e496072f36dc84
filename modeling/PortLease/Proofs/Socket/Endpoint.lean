import PortLease.Socket.FieldLines

namespace PortLease.FieldLines

variable {name endpoint address port : List Char}

def CutAtArrow (name endpoint : List Char) : Option (List Char) → Prop
  | some remote => name = endpoint ++ '-' :: '>' :: remote ∧ ¬ ['-', '>'] <:+: endpoint
  | none => name = endpoint ∧ ¬ ['-', '>'] <:+: name

def CutAtLastColon (endpoint address port : List Char) : Prop :=
  endpoint = address ++ ':' :: port ∧ ':' ∉ port

theorem cutAtArrow_cons {c : Char} {rest : List Char} {remote : Option (List Char)}
    (hc : ∀ tail, c = '-' → rest = '>' :: tail → False) :
    CutAtArrow (c :: rest) endpoint remote ↔
      ∃ before, endpoint = c :: before ∧ CutAtArrow rest before remote := by
  have hinside (before : List Char) (hbegins : before <+: rest) :
      ['-', '>'] <:+: c :: before ↔ ['-', '>'] <:+: before := by
    rw [List.infix_cons_iff, or_iff_right]
    rintro ⟨tail, htail⟩
    obtain ⟨rfl, rfl⟩ := List.cons.inj htail
    obtain ⟨after, rfl⟩ := hbegins
    exact hc (tail ++ after) rfl rfl
  cases remote with
  | none =>
    simp only [CutAtArrow]
    rw [hinside rest (List.prefix_refl rest)]
    constructor
    · rintro ⟨rfl, h⟩
      exact ⟨rest, rfl, rfl, h⟩
    · rintro ⟨before, rfl, rfl, h⟩
      exact ⟨rfl, h⟩
  | some remote =>
    simp only [CutAtArrow]
    constructor
    · rintro ⟨h, hno⟩
      cases endpoint with
      | nil =>
        obtain ⟨rfl, hrest⟩ := List.cons.inj h
        exact (hc remote rfl hrest).elim
      | cons d before =>
        obtain ⟨rfl, rfl⟩ := List.cons.inj h
        rw [hinside before (List.prefix_append _ _)] at hno
        exact ⟨before, rfl, rfl, hno⟩
    · rintro ⟨before, rfl, rfl, hno⟩
      rw [hinside before (List.prefix_append _ _)]
      exact ⟨rfl, hno⟩

theorem splitArrow_eq_iff {remote : Option (List Char)} :
    splitArrow name = (endpoint, remote) ↔ CutAtArrow name endpoint remote := by
  fun_induction splitArrow name generalizing endpoint remote with
  | case1 =>
    cases remote with
    | none =>
      simp only [CutAtArrow, Prod.mk.injEq, and_true]
      constructor
      · rintro rfl
        exact ⟨rfl, fun h => by cases List.eq_nil_of_infix_nil h⟩
      · exact fun h => h.1
    | some remote => simp [CutAtArrow]
  | case2 rest =>
    cases remote with
    | none =>
      simp only [CutAtArrow, Prod.mk.injEq, reduceCtorEq, and_false, false_iff, not_and]
      exact fun _ hno => hno ⟨[], rest, rfl⟩
    | some remote =>
      simp only [CutAtArrow, Prod.mk.injEq, Option.some.injEq]
      constructor
      · rintro ⟨rfl, rfl⟩
        exact ⟨rfl, fun h => by cases List.eq_nil_of_infix_nil h⟩
      · rintro ⟨h, hno⟩
        rcases endpoint with _ | ⟨d, _ | ⟨e, before⟩⟩
        · simpa using h
        · simp at h
        · simp only [List.cons_append, List.cons.injEq] at h
          obtain ⟨rfl, rfl, -⟩ := h
          exact absurd ⟨[], before, rfl⟩ hno
  | case3 c rest hc before after hsplit ih =>
    rw [cutAtArrow_cons hc]
    simp only [← ih, hsplit, Prod.mk.injEq]
    constructor
    · rintro ⟨rfl, rfl⟩
      exact ⟨before, rfl, rfl, rfl⟩
    · rintro ⟨_, rfl, rfl, rfl⟩
      exact ⟨rfl, rfl⟩

theorem splitLastColon_eq_none_iff : splitLastColon endpoint = none ↔ ':' ∉ endpoint := by
  induction endpoint with
  | nil => simp [splitLastColon]
  | cons c rest ih =>
    rw [splitLastColon, List.mem_cons, not_or, ← ih]
    cases hrest : splitLastColon rest with
    | some cut => simp
    | none =>
      by_cases hc : c = ':'
      · simp [hc]
      · simp [hc, Ne.symm hc]

theorem splitLastColon_eq_some_iff :
    splitLastColon endpoint = some (address, port) ↔ CutAtLastColon endpoint address port := by
  unfold CutAtLastColon
  induction endpoint generalizing address with
  | nil => simp [splitLastColon]
  | cons c rest ih =>
    rw [splitLastColon]
    cases hrest : splitLastColon rest with
    | some cut =>
      obtain ⟨before, after⟩ := cut
      have hcolon : ':' ∈ rest := Classical.byContradiction fun h => by
        rw [splitLastColon_eq_none_iff.mpr h] at hrest
        cases hrest
      rw [hrest] at ih
      cases address with
      | nil =>
        simp only [Option.some.injEq, Prod.mk.injEq, reduceCtorEq, false_and, List.nil_append,
          List.cons.injEq, false_iff, not_and]
        rintro ⟨-, rfl⟩ hno
        exact hno hcolon
      | cons d address =>
        have hih := @ih address
        simp only [Option.some.injEq, Prod.mk.injEq, List.cons_append, List.cons.injEq] at hih ⊢
        rw [and_assoc, hih, and_assoc]
    | none =>
      have hno := splitLastColon_eq_none_iff.mp hrest
      have hlater (d : Char) (address : List Char) : c :: rest ≠ d :: address ++ ':' :: port := by
        intro h
        obtain ⟨-, rfl⟩ := List.cons.inj h
        exact hno (List.mem_append_right _ List.mem_cons_self)
      by_cases hc : c = ':'
      · simp only [hc, if_true, Option.some.injEq, Prod.mk.injEq]
        constructor
        · rintro ⟨rfl, rfl⟩
          exact ⟨rfl, hno⟩
        · rintro ⟨h, -⟩
          cases address with
          | nil => exact ⟨rfl, (List.cons.inj h).2⟩
          | cons d address => exact absurd (hc ▸ h) (hlater d address)
      · simp only [hc, if_false, reduceCtorEq, false_iff, not_and]
        intro h
        cases address with
        | nil => exact absurd (List.cons.inj h).1 hc
        | cons d address => exact absurd h (hlater d address)

end PortLease.FieldLines
