import Mathlib.Data.Set.Card
import Mathlib.Order.Interval.Finset.Fin
import PortLease.Policy

namespace PortLease

theorem Port.number_injective : Function.Injective fun p : Port => (p.val : Int) :=
  fun _ _ h => Fin.ext (Int.ofNat.inj h)

theorem PortRange.card_ports (r : PortRange) :
    (Finset.univ.filter fun p => r.contains p = true).card = r.size := by
  have hports : (Finset.univ.filter fun p => r.contains p = true) = Finset.Icc r.start r.stop := by
    ext p
    simp [PortRange.contains_iff]
  rw [hports, Fin.card_Icc, PortRange.size]
  split
  · rename_i h
    rw [Fin.lt_def] at h
    omega
  · rename_i h
    rw [Fin.lt_def] at h
    omega

theorem PortRange.contains_meet (r s : PortRange) (p : Port) :
    (r.meet s).contains p = (r.contains p && s.contains p) := by
  rw [Bool.eq_iff_iff, Bool.and_eq_true]
  simp only [contains_iff, meet]
  constructor
  · rintro ⟨hlow, hhigh⟩
    split at hlow <;> split at hhigh <;> simp only [Fin.lt_def, Fin.le_def] at * <;> omega
  · rintro ⟨⟨hr, hr'⟩, hs, hs'⟩
    constructor <;> split <;> assumption

theorem PortRange.size_meet_le (r s : PortRange) : (r.meet s).size ≤ s.size := by
  rw [← card_ports, ← card_ports]
  apply Finset.card_le_card
  intro p hp
  rw [Finset.mem_filter_univ, contains_meet, Bool.and_eq_true] at hp
  rw [Finset.mem_filter_univ]
  exact hp.2

def Policy.candidates (policy : Policy) : Finset Port :=
  Finset.univ.filter fun p => policy.isCandidate p = true

theorem Policy.card_candidates (policy : Policy) : policy.candidates.card = policy.capacity := by
  have huser (p : Port) : PortRange.userSpace.contains p = true ↔ Port.lowest ≤ p := by
    have hhigh : p ≤ Port.highest := Nat.le_of_lt_succ p.isLt
    rw [PortRange.contains_iff]
    exact and_iff_left hhigh
  have hsplit := Finset.card_filter_add_card_filter_not
    (s := Finset.univ.filter fun p => PortRange.userSpace.contains p = true)
    (fun p => policy.excluded.contains p = true)
  rw [PortRange.card_ports, Finset.filter_filter, Finset.filter_filter] at hsplit
  have hout : (Finset.univ.filter fun p => PortRange.userSpace.contains p = true ∧
      policy.excluded.contains p = true).card = (policy.excluded.meet .userSpace).size := by
    rw [← PortRange.card_ports]
    apply congrArg Finset.card
    apply Finset.filter_congr
    intro p _
    rw [PortRange.contains_meet, Bool.and_eq_true, and_comm]
  have hin : (Finset.univ.filter fun p => PortRange.userSpace.contains p = true ∧
      ¬policy.excluded.contains p = true) = policy.candidates := by
    apply Finset.filter_congr
    intro p _
    simp [isCandidate, huser]
  rw [hout, hin] at hsplit
  rw [capacity]
  omega

namespace Policy

variable {policy : Policy} {number : Int} {p : Port}

theorem isCandidate_iff : policy.isCandidate p = true ↔
    Port.lowest ≤ p ∧ policy.excluded.contains p = false := by
  simp [isCandidate]

theorem check_ok_iff : policy.check number = .ok p ↔ number = p.val ∧ policy.isCandidate p = true := by
  rw [← Port.ofInt?_eq_some_iff, isCandidate_iff]
  unfold check
  split
  · rename_i hlow
    simp only [reduceCtorEq, false_iff, not_and, Port.ofInt?_eq_some_iff]
    rintro rfl hlowest
    have hzero : p.val = 0 := by omega
    rw [Fin.le_def, hzero] at hlowest
    cases hlowest
  · cases hport : Port.ofInt? number with
    | none => simp
    | some q =>
      simp only [Option.some.injEq]
      split
      · rename_i hsystem
        simp only [reduceCtorEq, false_iff, not_and]
        rintro rfl hlowest
        exact absurd hlowest (Fin.not_le.mpr hsystem)
      · rename_i huser
        split
        · rename_i hin
          simp only [reduceCtorEq, false_iff, not_and]
          rintro rfl -
          simp [hin]
        · rename_i hout
          simp only [Except.ok.injEq]
          constructor
          · rintro rfl
            exact ⟨rfl, Fin.not_lt.mp huser, Bool.eq_false_iff.mpr hout⟩
          · exact fun h => h.1

theorem isLeasable_iff : policy.isLeasable number = true ↔
    ∃ p : Port, number = p.val ∧ policy.isCandidate p = true := by
  simp only [← check_ok_iff]
  unfold isLeasable
  cases hcheck : policy.check number with
  | error refusal => simp
  | ok q => simp

theorem isLeasable_val : policy.isLeasable p.val = policy.isCandidate p := by
  rw [Bool.eq_iff_iff, isLeasable_iff]
  constructor
  · rintro ⟨q, hq, hcandidate⟩
    obtain rfl : p = q := Port.number_injective hq
    exact hcandidate
  · exact fun h => ⟨p, rfl, h⟩

theorem isLeasable_eq_false_iff : policy.isLeasable number = false ↔
    number < 1024 ∨ 65535 < number ∨
      policy.excluded.start.val ≤ number ∧ number ≤ policy.excluded.stop.val := by
  have hport (p : Port) : policy.isCandidate p = true ↔ 1024 ≤ p.val ∧
      ¬ (policy.excluded.start.val ≤ p.val ∧ p.val ≤ policy.excluded.stop.val) := by
    rw [isCandidate_iff, ← Bool.not_eq_true, PortRange.contains_iff]
    rfl
  rw [← Bool.not_eq_true, isLeasable_iff]
  constructor
  · intro hnone
    by_contra hin
    obtain ⟨n, rfl⟩ := Int.eq_ofNat_of_zero_le (by omega : 0 ≤ number)
    refine hnone ⟨⟨n, by omega⟩, rfl, (hport _).mpr ?_⟩
    dsimp only
    omega
  · rintro hout ⟨p, rfl, hp⟩
    have hlt := p.isLt
    rw [hport] at hp
    omega

theorem encard_leasable (policy : Policy) :
    {number : Int | policy.isLeasable number = true}.encard = policy.capacity := by
  have hset : {number : Int | policy.isLeasable number = true} =
      (policy.candidates.image fun p : Port => (p.val : Int) : Finset Int) := by
    ext number
    simp only [Set.mem_ofPred_eq, isLeasable_iff, Finset.coe_image, Set.mem_image, Finset.mem_coe,
      candidates, Finset.mem_filter_univ]
    constructor
    · rintro ⟨p, rfl, hp⟩
      exact ⟨p, hp, rfl⟩
    · rintro ⟨p, hp, rfl⟩
      exact ⟨p, rfl, hp⟩
  rw [hset, Set.encard_coe_eq_coe_finsetCard, Finset.card_image_of_injective _ Port.number_injective,
    policy.card_candidates]

end Policy

end PortLease
