namespace PortLease

abbrev Port := Fin 65536

namespace Port

instance neZero : @NeZero Nat Zero.ofOfNat0 65536 := ⟨by decide⟩

def lowest : Port := 1024

def highest : Port := 65535

def count : Nat := 65536

def ofNat? (n : Nat) : Option Port :=
  if h : n < 65536 then some ⟨n, h⟩ else none

def ofInt? : Int → Option Port
  | .ofNat n => ofNat? n
  | .negSucc _ => none

theorem ofNat?_val (p : Port) : ofNat? p.val = some p := by
  simp [ofNat?, p.isLt]

theorem ofNat?_eq_some_iff {n : Nat} {p : Port} : ofNat? n = some p ↔ p.val = n := by
  constructor
  · intro h
    by_cases hn : n < 65536
    · simp only [ofNat?, hn, dite_true, Option.some.injEq] at h
      exact h ▸ rfl
    · simp [ofNat?, hn] at h
  · rintro rfl
    exact ofNat?_val p

theorem ofInt?_eq_some_iff {number : Int} {p : Port} : ofInt? number = some p ↔ number = p.val := by
  cases number with
  | ofNat n =>
    rw [ofInt?, ofNat?_eq_some_iff, Int.ofNat_eq_natCast, Int.natCast_inj]
    exact eq_comm
  | negSucc n => simp [ofInt?]

end Port

end PortLease
