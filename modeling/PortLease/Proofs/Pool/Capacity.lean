import PortLease.Proofs.Pool.ScanOrder

namespace PortLease

namespace Pool

variable {η : Type} {policy : Policy} {world : World} {pool : Pool η} {c : Course η} {p : Port}
  {before : Nat}

def Course.reserveEach (policy : Policy) (world : World) :
    (count : Nat) → Course η → List (Except Exhausted LeaseId)
  | 0, _ => []
  | count + 1, course =>
    let (answer, course) := course.reserveAny policy world
    answer :: reserveEach policy world count course

def answerAfter (policy : Policy) (before : Nat) : Except Exhausted LeaseId :=
  if before < policy.capacity then .ok (before + 1) else .error ⟨0⟩

/-- So many have asked, and none of the leases they got is over. -/
structure AllKept (policy : Policy) (pool : Pool η) (before : Nat) : Prop where
  sound : pool.Sound policy
  nextId : pool.nextId = pool.takenCount + 1
  taken : pool.takenCount = min before policy.capacity

theorem takenCount_lend (hfree : pool.taken.contains p = false) :
    (pool.lend p).2.takenCount = pool.takenCount + 1 :=
  PortSet.size_insert hfree

theorem AllKept.empty : AllKept policy (Pool.empty : Pool η) 0 where
  sound := sound_empty
  nextId := rfl
  taken := (Nat.zero_min _).symm

theorem AllKept.full (h : AllKept policy pool before)
    (hfull : pool.takenCount = policy.capacity) :
    AllKept policy pool (before + 1) ∧ answerAfter policy before = .error ⟨0⟩ := by
  have hle : policy.capacity ≤ before := by
    have htaken := h.taken
    omega
  refine ⟨⟨h.sound, h.nextId, ?_⟩, if_neg (Nat.not_lt.mpr hle)⟩
  rw [hfull, Nat.min_eq_right (Nat.le_succ_of_le hle)]

theorem AllKept.lend (h : AllKept policy pool before)
    (hfree : pool.takenCount ≠ policy.capacity) (hp : pool.taken.contains p = false)
    (hcandidate : policy.isCandidate p = true) :
    AllKept policy (pool.lend p).2 (before + 1) ∧
      answerAfter policy before = .ok pool.nextId := by
  have htaken := h.taken
  have hlt : before < policy.capacity := by omega
  have hbefore : pool.takenCount = before := by omega
  refine ⟨⟨h.sound.lend hp hcandidate, ?_, ?_⟩, ?_⟩
  · rw [nextId_lend, h.nextId, takenCount_lend hp]
  · rw [takenCount_lend hp, hbefore, Nat.min_eq_left hlt]
  · rw [answerAfter, if_pos hlt, h.nextId, hbefore]

theorem AllKept.reserveEach (hprobe : policy.probeBind = false)
    (h : AllKept policy c.pool before) (count : Nat) :
    c.reserveEach policy world count = (List.range' before count).map (answerAfter policy) := by
  induction count generalizing c before with
  | zero => rfl
  | succ count ih =>
    rw [List.range'_succ, List.map_cons, Course.reserveEach]
    by_cases hfull : c.pool.takenCount = policy.capacity
    · obtain ⟨hkept, hanswer⟩ := h.full hfull
      rw [reserveAny_full h.sound hfull, hanswer]
      exact congrArg (List.cons _) (ih hkept)
    · obtain ⟨p, hp, hcandidate, hany⟩ := @reserveAny_free η policy world c hprobe h.sound hfull
      obtain ⟨hkept, hanswer⟩ := h.lend hfull hp hcandidate
      rw [hany, hanswer]
      exact congrArg (List.cons _) (ih hkept)

end Pool

structure Policy.CapacityCounts (policy : Policy) : Prop where
  numbers : {number : Int | policy.isLeasable number = true}.encard = policy.capacity
  candidates : (Finset.univ.filter fun p => policy.isCandidate p = true).card = policy.capacity
  agree : ∀ p : Port, policy.isLeasable p.val = policy.isCandidate p
  exact : policy.capacity + (policy.excluded.meet .userSpace).size = PortRange.userSpace.size
  ranges : ∀ r : PortRange, (Finset.univ.filter fun p => r.contains p = true).card = r.size
  leases : policy.probeBind = false → ∀ (η : Type) (world : Pool.World) (count : Nat),
    Pool.Course.fresh.reserveEach (η := η) policy world count =
      (List.range count).map fun before =>
        if before < policy.capacity then .ok (before + 1) else .error ⟨0⟩

theorem Policy.capacity_counts (policy : Policy) : policy.CapacityCounts where
  numbers := policy.encard_leasable
  candidates := policy.card_candidates
  agree _ := isLeasable_val
  exact := Nat.sub_add_cancel (PortRange.size_meet_le _ _)
  ranges := PortRange.card_ports
  leases hprobe η world count := by
    have hfresh : Pool.AllKept policy (Pool.Course.fresh : Pool.Course η).pool 0 := .empty
    rw [hfresh.reserveEach hprobe, List.range_eq_range']
    rfl

theorem Policy.capacity_counts_threePorts :
    Pool.Course.fresh.reserveEach (η := Unit) ⟨⟨1027, 65535⟩, false, true⟩
        ⟨fun _ => 1025, fun _ _ => true⟩ 5 =
      [.ok 1, .ok 2, .ok 3, .error ⟨0⟩, .error ⟨0⟩] :=
  (Policy.capacity_counts ⟨⟨1027, 65535⟩, false, true⟩).leases rfl _ _ _

end PortLease
