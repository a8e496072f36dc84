import PortLease.Proofs.Policy
import PortLease.Proofs.Pool

namespace PortLease.Pool

variable {η : Type} {policy : Policy} {pool pool' : Pool η} {ids ids' : List LeaseId} {id : Nat}

structure Grants (policy : Policy) (pool pool' : Pool η) (ids : List LeaseId) : Prop where
  sound : pool'.Sound policy
  old : ∀ id : Nat, id < pool.nextId → pool'.lease? id = pool.lease? id
  granted : ∀ id : Nat, id ∈ ids → pool.nextId ≤ id ∧ ∃ port, pool'.lease? id = some { port }
  givenUp : ∀ (id : Nat) l, pool.nextId ≤ id → id ∉ ids → pool'.lease? id = some l →
    l.state = .closed ∧ l.hooks = [] ∧ l.holders = 0
  nodup : ids.Nodup

theorem lease?_of_le (h : pool.nextId ≤ id) : pool.lease? id = none := by
  cases hl : pool.lease? id with
  | none => rfl
  | some l => exact absurd (lease?_lt hl) (Nat.not_lt.mpr h)

theorem Grants.refl (hs : pool.Sound policy) : Grants policy pool pool [] where
  sound := hs
  old _ _ := rfl
  granted _ h := by cases h
  givenUp id l hid _ hl := by rw [lease?_of_le hid] at hl; cases hl
  nodup := .nil

theorem Grants.perm (h : Grants policy pool pool' ids) (hp : ids.Perm ids') :
    Grants policy pool pool' ids' where
  sound := h.sound
  old := h.old
  granted id hid := h.granted id (hp.mem_iff.mpr hid)
  givenUp id l hle hid := h.givenUp id l hle (fun hi => hid (hp.mem_iff.mp hi))
  nodup := hp.nodup_iff.mp h.nodup

theorem Grants.nextId_le (h : Grants policy pool pool' ids) : pool.nextId ≤ pool'.nextId := by
  refine Nat.le_of_not_lt fun hlt => ?_
  have hlast : pool'.lease? pool'.nextId = pool.lease? pool'.nextId := h.old _ hlt
  rw [lease?_nextId] at hlast
  have hin : pool'.leases.size < pool.leases.size := Nat.lt_of_succ_lt_succ hlt
  simp [lease?, nextId, Array.getElem?_eq_getElem hin] at hlast

theorem Grants.lend (h : Grants policy pool pool' ids) {port : Port}
    (hfree : pool'.taken.contains port = false) (hport : policy.isCandidate port = true) :
    Grants policy pool (pool'.lend port).2 (pool'.nextId :: ids) := by
  have hle := h.nextId_le
  constructor
  · exact h.sound.lend hfree hport
  · intro id hid
    rw [lease?_lend, if_neg (Nat.ne_of_lt (Nat.lt_of_lt_of_le hid hle))]
    exact h.old id hid
  · intro id hid
    rw [lease?_lend]
    split
    · rename_i hi
      exact ⟨hi ▸ hle, port, rfl⟩
    · rename_i hi
      exact h.granted id ((List.mem_cons.mp hid).resolve_left hi)
  · intro id l hid hnot hl
    simp only [List.mem_cons, not_or] at hnot
    rw [lease?_lend, if_neg hnot.1] at hl
    exact h.givenUp id l hid hnot.2 hl
  · refine List.nodup_cons.mpr ⟨?_, h.nodup⟩
    intro hmem
    obtain ⟨-, port', hl⟩ := h.granted _ hmem
    rw [lease?_nextId] at hl
    cases hl

def giveUp (pool : Pool η) (id : LeaseId) : Pool η := ((pool.close id).2.letGo id).2

theorem pool_discard (course : Course η) (id : LeaseId) :
    (course.discard id).pool = course.pool.giveUp id := rfl

theorem lease?_ended {l : Lease η} (h : pool.lease? id = some l) (f : Lease η → Lease η) :
    ((pool.update id f).release id l.port).lease? id = some (f l) := by
  simp [lease?_update, h]

theorem giveUp_eq {l : Lease η} (hl : pool.lease? id = some l) (hheld : l.state = .held) :
    pool.giveUp id =
      ((pool.update id (finished .closed)).release id l.port).update id lessHeld := by
  rw [giveUp, close_held hl hheld, letGo_more (lease?_ended hl _) (by simp [finished])]

theorem discard_held {course : Course η} {l : Lease η} (hl : course.pool.lease? id = some l)
    (hheld : l.state = .held) : course.discard id =
      ⟨course.pool.giveUp id, course.asked, .released l.port id :: course.log⟩ := by
  obtain ⟨pool, asked, log⟩ := course
  simp only [Course.discard, giveUp, close_held hl hheld]

theorem nextId_giveUp {l : Lease η} (hl : pool.lease? id = some l) (hheld : l.state = .held) :
    (pool.giveUp id).nextId = pool.nextId := by
  rw [giveUp_eq hl hheld, nextId_update, nextId_release, nextId_update]

theorem lease?_giveUp {l : Lease η} {id' : Nat} (h : pool.lease? id = some l)
    (hl : l.state = .held) : (pool.giveUp id).lease? id' =
      if id' = id then some (lessHeld (finished .closed l)) else pool.lease? id' := by
  rw [giveUp_eq h hl, lease?_update, lease?_ended h]
  by_cases hi : id' = id
  · simp [hi]
  · simp [hi, lease?_update]

theorem Sound.giveUp {l : Lease η} (hs : pool.Sound policy) (h : pool.lease? id = some l)
    (hl : l.state = .held) : (pool.giveUp id).Sound policy := by
  have hsound : ((pool.update id (finished .closed)).release id l.port).Sound policy :=
    hs.endLease h hl (by simp [finished])
  rw [giveUp_eq h hl]
  refine hsound.update (fun _ => rfl) (fun _ => rfl) ?_
  intro k hk hheld
  rw [lease?_ended h] at hk
  obtain rfl := Option.some.inj hk
  simp [finished] at hheld

theorem Grants.giveUp (h : Grants policy pool pool' ids) (hid : id ∈ ids) :
    Grants policy pool (pool'.giveUp id) (ids.erase id) := by
  obtain ⟨hle, port, hl⟩ := h.granted id hid
  constructor
  · exact h.sound.giveUp hl rfl
  · intro id' hlt
    rw [lease?_giveUp hl rfl, if_neg (Nat.ne_of_lt (Nat.lt_of_lt_of_le hlt hle))]
    exact h.old id' hlt
  · intro id' hid'
    have hne : id' ≠ id := fun hi => h.nodup.not_mem_erase (hi ▸ hid')
    rw [lease?_giveUp hl rfl, if_neg hne]
    exact h.granted id' (List.mem_of_mem_erase hid')
  · intro id' k hle' hnot hk
    rw [lease?_giveUp hl rfl] at hk
    split at hk
    · obtain rfl := Option.some.inj hk
      simp [finished, lessHeld]
    · rename_i hne
      exact h.givenUp id' k hle' (fun hi => hnot ((List.mem_erase_of_ne hne).mpr hi)) hk
  · exact h.nodup.erase id

theorem Grants.giveUp_head (h : Grants policy pool pool' (id :: ids)) :
    Grants policy pool (pool'.giveUp id) ids := by
  have hgive := h.giveUp List.mem_cons_self
  rwa [List.erase_cons_head] at hgive

variable {world : World} {course : Course η}

theorem scan_grants (tries : Nat) (busy : PortSet) (start : Port)
    (h : Grants policy pool course.pool ids) :
    Grants policy pool (course.scan policy world tries busy start).2.pool
      ((course.scan policy world tries busy start).1.toOption.toList ++ ids) := by
  induction tries generalizing busy start course with
  | zero => exact h
  | succ tries ih =>
    obtain ⟨pool₁, asked, log⟩ := course
    unfold Course.scan
    split
    · exact h
    · rename_i port hfind
      obtain ⟨hfree, hport⟩ := PortSet.find?_some hfind
      simp only [Bool.and_eq_true] at hport
      have hlend := h.lend hfree hport.1
      simp only [lend_fst]
      split
      · split
        · exact hlend
        · apply ih
          rw [pool_discard]
          exact hlend.giveUp_head
      · exact hlend

theorem reserveAny_grants (h : Grants policy pool course.pool ids) :
    Grants policy pool (course.reserveAny policy world).2.pool
      ((course.reserveAny policy world).1.toOption.toList ++ ids) :=
  scan_grants _ _ _ h

theorem discardAll_grants (h : Grants policy pool course.pool ids) :
    Grants policy pool (ids.foldl Course.discard course).pool [] := by
  induction ids generalizing course with
  | nil => exact h
  | cons id ids ih =>
    apply ih
    rw [pool_discard]
    exact h.giveUp_head

theorem reserveMore_grants (left : Nat) (h : Grants policy pool course.pool ids) :
    Grants policy pool (course.reserveMore policy world left ids).2.pool
      ((course.reserveMore policy world left ids).1.toOption.getD []) := by
  induction left generalizing course ids with
  | zero => exact h.perm ids.reverse_perm.symm
  | succ left ih =>
    have hany : Grants policy pool (course.reserveAny policy world).2.pool _ := reserveAny_grants h
    unfold Course.reserveMore
    split
    · rename_i id course' heq
      rw [heq] at hany
      exact ih hany
    · rename_i e course' heq
      rw [heq] at hany
      exact discardAll_grants (hany.perm ids.reverse_perm.symm)

theorem reserve_grants (hs : pool.Sound policy) {number : Int} {lease : Option LeaseId}
    {record : LogRecord} (h : pool.reserve policy number = .ok (lease, pool', record)) :
    Grants policy pool pool' lease.toList := by
  unfold reserve at h
  split at h
  · cases h
  · rename_i port hcheck
    split at h
    · simp only [Except.ok.injEq, Prod.mk.injEq] at h
      obtain ⟨rfl, rfl, -⟩ := h
      exact .refl hs
    · rename_i hfree
      simp only [Except.ok.injEq, Prod.mk.injEq] at h
      obtain ⟨rfl, rfl, -⟩ := h
      exact (Grants.refl hs).lend (by simpa using hfree) (Policy.check_ok_iff.mp hcheck).2

end PortLease.Pool
