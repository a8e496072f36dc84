import PortLease.Proofs.Pool.FirstFree

namespace PortLease.Pool

variable {η : Type} {policy : Policy} {scanStart : Nat → Port} {bindable : Port → Bool}
  {pool pool' : Pool η} {course : Course η} {ids : List LeaseId} {p : Port}

theorem Grants.isUsable (hs : pool.Sound policy) (h : Grants policy pool pool' ids)
    (hp : pool'.isUsable policy bindable p = true) : pool.isUsable policy bindable p = true := by
  simp only [Pool.isUsable, Bool.and_eq_true, isFree_iff] at hp ⊢
  obtain ⟨⟨hcandidate, hclear⟩, hbindable⟩ := hp
  refine ⟨⟨hcandidate, Bool.eq_false_iff.mpr fun htaken => ?_⟩, hbindable⟩
  rw [(h.contains_iff hs).mpr (.inl htaken)] at hclear
  cases hclear

def OnUsable (policy : Policy) (bindable : Port → Bool) (pool pool' : Pool η) (ids : List LeaseId) :
    Prop :=
  ∀ id ∈ ids, ∃ p, pool'.lease? id = some { port := p } ∧ pool.isUsable policy bindable p = true

inductive BatchEnds (policy : Policy) (bindable : Port → Bool) (pool now : Pool η) (claimed left : Nat) :
    Except Exhausted (List LeaseId) → Pool η → Prop
  | granted {ids : List LeaseId} {after : Pool η}
      (hroom : left ≤ (now.usablePorts policy bindable).card)
      (hlength : ids.length = claimed + left) (hon : OnUsable policy bindable pool after ids) :
      BatchEnds policy bindable pool now claimed left (.ok ids) after
  | exhausted {e : Exhausted} {after : Pool η}
      (hroom : (now.usablePorts policy bindable).card < left)
      (hbusy : e.busy = (now.blockedPorts policy bindable).card) :
      BatchEnds policy bindable pool now claimed left (.error e) after

theorem BatchEnds.more {now next : Pool η} {claimed left : Nat} {id : LeaseId}
    {result : Except Exhausted (List LeaseId)} {after : Pool η}
    (h : BatchEnds policy bindable pool next (claimed + 1) left result after)
    (hadds : Adds policy now next [(p, id)]) (hp : now.isUsable policy bindable p = true) :
    BatchEnds policy bindable pool now claimed (left + 1) result after := by
  have hmem : p ∈ now.usablePorts policy bindable := mem_usablePorts.mpr hp
  have hroom : (next.usablePorts policy bindable).card + 1 =
      (now.usablePorts policy bindable).card := by
    rw [hadds.usablePorts, Finset.card_erase_add_one hmem]
  cases h with
  | granted hle hlength hon => exact .granted (by omega) (by omega) hon
  | exhausted hlt hbusy =>
    refine .exhausted (by omega) ?_
    rw [hbusy, blockedPorts, blockedPorts, hadds.freePorts, hadds.usablePorts]
    apply congrArg Finset.card
    ext q
    simp only [Finset.mem_sdiff, Finset.mem_erase]
    constructor
    · rintro ⟨⟨hne, hq⟩, hnot⟩
      exact ⟨hq, fun husable => hnot ⟨hne, husable⟩⟩
    · rintro ⟨hq, hnot⟩
      exact ⟨⟨fun heq => hnot (heq ▸ hmem), hq⟩, fun husable => hnot husable.2⟩

theorem reserveMore_ends (hs : pool.Sound policy) (left : Nat)
    (hg : Grants policy pool course.pool ids) (hon : OnUsable policy bindable pool course.pool ids) :
    BatchEnds policy bindable pool course.pool ids.length left
      (course.reserveMore policy (.steady scanStart bindable) left ids).1
      (course.reserveMore policy (.steady scanStart bindable) left ids).2.pool := by
  induction left generalizing course ids with
  | zero =>
    refine .granted (Nat.zero_le _) List.length_reverse fun id hid => ?_
    exact hon id (List.mem_reverse.mp hid)
  | succ left ih =>
    have hends := @reserveAny_ends η policy scanStart bindable course hg.sound
    unfold Course.reserveMore
    rcases hany : course.reserveAny policy (.steady scanStart bindable) with ⟨_ | id, after⟩
    · rw [hany] at hends
      cases hends with
      | exhausted hnone hbusy =>
        have hempty : course.pool.usablePorts policy bindable = ∅ := by
          ext q
          simp [mem_usablePorts, hnone q]
        refine .exhausted ?_ ?_
        · rw [hempty]
          exact Nat.succ_pos left
        · rw [hbusy, blockedPorts, hempty, Finset.sdiff_empty]
    · rw [hany] at hends
      cases hends with
      | @found p _ _ hfirst _ hlease =>
        have hadds := reserveAny_adds hg.sound hany hlease
        have hgrown : Grants policy pool after.pool (id :: ids) := by
          have hgrants := @reserveAny_grants η policy pool ids (.steady scanStart bindable) course hg
          rwa [hany] at hgrants
        have hon' : OnUsable policy bindable pool after.pool (id :: ids) := by
          refine List.forall_mem_cons.mpr ⟨⟨p, hlease, hg.isUsable hs hfirst.here⟩, fun x hx => ?_⟩
          obtain ⟨-, port, hl⟩ := hg.granted x hx
          rw [hadds.leases x (lease?_lt hl)]
          exact hon x hx
        exact (ih hgrown hon').more hadds hfirst.here

theorem reserveMore_rollsBack {world : World} {e : Exhausted} {after : Course η} (left : Nat)
    (hg : Grants policy pool course.pool ids)
    (h : course.reserveMore policy world left ids = (.error e, after)) :
    ∃ claimed before, Grants policy pool before.pool claimed ∧
      after = claimed.foldl Course.discard before := by
  induction left generalizing course ids with
  | zero => cases h
  | succ left ih =>
    have hany : Grants policy pool (course.reserveAny policy world).2.pool _ := reserveAny_grants hg
    unfold Course.reserveMore at h
    split at h
    · rename_i id course' heq
      rw [heq] at hany
      exact ih hany h
    · rename_i e' course' heq
      rw [heq] at hany
      obtain ⟨-, rfl⟩ := Prod.mk.inj h
      exact ⟨ids.reverse, course'.note (.rollingBack ids.length (e'.toError policy)),
        hany.perm ids.reverse_perm.symm, rfl⟩

end PortLease.Pool
