import PortLease.Proofs.Pool.Grant

namespace PortLease

namespace LogRecord

def lease? : LogRecord → Option (Port × LeaseId)
  | .reserved port id | .reservedFree port id | .released port id | .reclaiming port id =>
    some (port, id)
  | _ => none

def adds (record : LogRecord) : Bool :=
  record.message == "Reserved port" || record.message == "Reserved free port"

def removes (record : LogRecord) : Bool :=
  record.message == "Released port" ||
    record.message == "Port reservation dropped without close, reclaiming"

def added? (record : LogRecord) : Option (Port × LeaseId) :=
  if record.adds then record.lease? else none

def replay (entered : Finset (Port × LeaseId)) (record : LogRecord) : Finset (Port × LeaseId) :=
  match record.lease? with
  | none => entered
  | some entry =>
    if record.adds then insert entry entered
    else if record.removes then entered.erase entry
    else entered

theorem fields_lease? {record : LogRecord} {port : Port} {id : LeaseId}
    (h : record.lease? = some (port, id)) :
    record.fields = [("port", toString port.val), ("id", toString id)] := by
  cases record <;> cases h <;> rfl

theorem replay_none {record : LogRecord} (h : record.lease? = none)
    (entered : Finset (Port × LeaseId)) : replay entered record = entered := by
  rw [replay, h]

theorem added?_none {record : LogRecord} (h : record.lease? = none) : record.added? = none := by
  rw [added?, h, ite_self]

inductive Enters (port : Port) (id : LeaseId) : LogRecord → Prop
  | reserved : Enters port id (.reserved port id)
  | reservedFree : Enters port id (.reservedFree port id)

inductive Strikes (port : Port) (id : LeaseId) : LogRecord → Prop
  | released : Strikes port id (.released port id)
  | reclaiming : Strikes port id (.reclaiming port id)

theorem Enters.replay {record : LogRecord} {port : Port} {id : LeaseId} (h : Enters port id record)
    (entered : Finset (Port × LeaseId)) :
    LogRecord.replay entered record = insert (port, id) entered := by
  cases h <;> rfl

theorem Enters.added? {record : LogRecord} {port : Port} {id : LeaseId} (h : Enters port id record) :
    record.added? = some (port, id) := by
  cases h <;> rfl

theorem Strikes.replay {record : LogRecord} {port : Port} {id : LeaseId} (h : Strikes port id record)
    (entered : Finset (Port × LeaseId)) :
    LogRecord.replay entered record = entered.erase (port, id) := by
  cases h <;> rfl

theorem Strikes.added? {record : LogRecord} {port : Port} {id : LeaseId}
    (h : Strikes port id record) : record.added? = none := by
  cases h <;> rfl

def entered (log : List LogRecord) : Finset (Port × LeaseId) :=
  log.foldr (fun record held => replay held record) ∅

def additions (log : List LogRecord) : List LeaseId := (log.filterMap added?).map Prod.snd

end LogRecord

namespace Pool

open LogRecord (entered additions)

variable {η : Type} {policy : Policy} {world : World} {start pool pool' : Pool η} {id : LeaseId}
  {port : Port} {record : LogRecord} {log : List LogRecord}

structure Booked (pool : Pool η) (log : List LogRecord) : Prop where
  entered : ∀ p x, (p, x) ∈ entered log ↔ pool.registry[p]? = some x
  older : ∀ x ∈ additions log, x < pool.nextId
  once : (additions log).Nodup

theorem booked_empty : Booked (empty : Pool η) [] where
  entered p x := by simp [LogRecord.entered, empty]
  older x h := by cases h
  once := .nil

theorem Booked.same (h : Booked pool log) (hregistry : pool'.registry = pool.registry)
    (hnext : pool'.nextId = pool.nextId) : Booked pool' log where
  entered p x := by rw [hregistry, h.entered]
  older x hx := by rw [hnext]; exact h.older x hx
  once := h.once

theorem Booked.skip (h : Booked pool log) (hrecord : record.lease? = none) :
    Booked pool (record :: log) := by
  have hentered : LogRecord.entered (record :: log) = LogRecord.entered log :=
    LogRecord.replay_none hrecord _
  have hadditions : additions (record :: log) = additions log := by
    rw [additions, List.filterMap_cons_none (LogRecord.added?_none hrecord), additions]
  exact ⟨hentered ▸ h.entered, hadditions ▸ h.older, hadditions ▸ h.once⟩

theorem Booked.skipAll {records : List LogRecord} (h : Booked pool log)
    (hrecords : ∀ record ∈ records, record.lease? = none) : Booked pool (records ++ log) := by
  induction records with
  | nil => exact h
  | cons record records ih =>
    apply Booked.skip
    · exact ih fun r hr => hrecords r (List.mem_cons_of_mem _ hr)
    · exact hrecords record List.mem_cons_self

theorem Sound.unregistered (hs : pool.Sound policy) (hfree : pool.taken.contains port = false) :
    pool.registry[port]? = none := by
  cases hnamed : pool.registry[port]? with
  | none => rfl
  | some id =>
    rw [(hs.taken_iff port).mpr ⟨id, hnamed⟩] at hfree
    cases hfree

theorem Booked.enter (h : Booked pool log) (hs : pool.Sound policy)
    (hfree : pool.taken.contains port = false) (hrecord : record.Enters port pool.nextId) :
    Booked (pool.lend port).2 (record :: log) := by
  have hentered : LogRecord.entered (record :: log) =
      insert (port, pool.nextId) (LogRecord.entered log) := hrecord.replay _
  have hadditions : additions (record :: log) = pool.nextId :: additions log := by
    rw [additions, List.filterMap_cons_some hrecord.added?, List.map_cons, additions]
  constructor
  · intro p x
    rw [hentered, Finset.mem_insert, Prod.mk.injEq, h.entered, registry_lend]
    by_cases hp : port = p
    · subst hp
      simp [hs.unregistered hfree, eq_comm]
    · simp [hp, Ne.symm hp]
  · intro x hx
    rw [nextId_lend]
    rw [hadditions] at hx
    obtain rfl | hx := List.mem_cons.mp hx
    · exact Nat.lt_succ_self _
    · exact Nat.lt_succ_of_lt (h.older x hx)
  · rw [hadditions]
    refine List.nodup_cons.mpr ⟨?_, h.once⟩
    intro hmem
    exact Nat.lt_irrefl _ (h.older _ hmem)

theorem Booked.strike (h : Booked pool log) (hrecord : record.Strikes port id)
    (hregistry : ∀ p x, pool'.registry[p]? = some x ↔
      pool.registry[p]? = some x ∧ (p, x) ≠ (port, id))
    (hnext : pool'.nextId = pool.nextId) : Booked pool' (record :: log) := by
  have hentered : LogRecord.entered (record :: log) = (LogRecord.entered log).erase (port, id) :=
    hrecord.replay _
  have hadditions : additions (record :: log) = additions log := by
    rw [additions, List.filterMap_cons_none hrecord.added?, additions]
  constructor
  · intro p x
    rw [hentered, Finset.mem_erase, h.entered, hregistry, and_comm]
  · rw [hadditions, hnext]
    exact h.older
  · rw [hadditions]
    exact h.once

theorem registry_release_iff (hnamed : pool.registry[port]? = some id) (p : Port) (x : LeaseId) :
    (pool.release id port).registry[p]? = some x ↔
      pool.registry[p]? = some x ∧ (p, x) ≠ (port, id) := by
  rw [registry_release]
  by_cases hp : port = p
  · subst hp
    simp [hnamed, eq_comm]
  · simp [hp, Ne.symm hp]

theorem Booked.release (h : Booked pool log) (hnamed : pool.registry[port]? = some id)
    (hrecord : record.Strikes port id) : Booked (pool.release id port) (record :: log) :=
  h.strike hrecord (registry_release_iff hnamed) nextId_release

theorem registry_giveUp_iff (hs : pool.Sound policy) {l : Lease η} (hl : pool.lease? id = some l)
    (hheld : l.state = .held) (p : Port) (x : LeaseId) :
    (pool.giveUp id).registry[p]? = some x ↔
      pool.registry[p]? = some x ∧ (p, x) ≠ (l.port, id) := by
  have hnamed : (pool.update id (finished .closed)).registry[l.port]? = some id := by
    rw [registry_update]
    exact (hs.registry_iff _ _).mpr ⟨l, hl, hheld, rfl⟩
  rw [giveUp_eq hl hheld, registry_update, registry_release_iff hnamed, registry_update]

theorem Booked.discard {course : Course η} {old : List LogRecord}
    (h : Booked course.pool (course.log ++ old)) (hs : course.pool.Sound policy) {l : Lease η}
    (hl : course.pool.lease? id = some l) (hheld : l.state = .held) :
    Booked (course.discard id).pool ((course.discard id).log ++ old) := by
  rw [discard_held hl hheld]
  exact h.strike .released (registry_giveUp_iff hs hl hheld) (nextId_giveUp hl hheld)

theorem Booked.passOver (h : Booked pool log) (hs : pool.Sound policy)
    (hfree : pool.taken.contains port = false) (hport : policy.isCandidate port = true) :
    Booked ((pool.lend port).2.giveUp pool.nextId) (.released port pool.nextId :: log) := by
  have hl : (pool.lend port).2.lease? pool.nextId = some { port } := by
    rw [lease?_lend, if_pos rfl]
  have hnext := nextId_giveUp hl rfl
  rw [nextId_lend] at hnext
  have hbooked : Booked pool (.released port pool.nextId :: log) := by
    apply h.strike .released
    · intro p x
      rw [iff_self_and]
      rintro hnamed heq
      cases heq
      rw [hs.unregistered hfree] at hnamed
      cases hnamed
    · rfl
  constructor
  · intro p x
    rw [hbooked.entered, registry_giveUp_iff (hs.lend hfree hport) hl rfl, registry_lend]
    by_cases hp : port = p
    · subst hp
      simp [hs.unregistered hfree, eq_comm]
    · simp [hp, Ne.symm hp]
  · intro x hx
    rw [hnext]
    exact Nat.lt_succ_of_lt (hbooked.older x hx)
  · exact hbooked.once

variable {course : Course η} {old : List LogRecord} {ids : List LeaseId}

theorem scan_booked (tries : Nat) (busy : PortSet) (start : Port) (hs : course.pool.Sound policy)
    (h : Booked course.pool (course.log ++ old)) :
    Booked (course.scan policy world tries busy start).2.pool
      ((course.scan policy world tries busy start).2.log ++ old) := by
  induction tries generalizing busy start course with
  | zero => exact h
  | succ tries ih =>
    obtain ⟨pool, asked, log⟩ := course
    unfold Course.scan
    split
    · exact h
    · rename_i port hfind
      obtain ⟨hfree, hport⟩ := PortSet.find?_some hfind
      simp only [Bool.and_eq_true] at hport
      have henter : Booked (pool.lend port).2 (.reservedFree port pool.nextId :: (log ++ old)) :=
        h.enter hs hfree .reservedFree
      simp only [lend_fst]
      split
      · split
        · exact henter
        · have hl : (pool.lend port).2.lease? pool.nextId = some { port } := by
            rw [lease?_lend, if_pos rfl]
          have hnoted : Booked pool (.boundElsewhere port :: (log ++ old)) := h.skip rfl
          apply ih
          · rw [pool_discard]
            exact (hs.lend hfree hport.1).giveUp hl rfl
          · rw [discard_held hl rfl]
            exact hnoted.passOver hs hfree hport.1
      · exact henter

theorem reserveAny_booked (hs : course.pool.Sound policy)
    (h : Booked course.pool (course.log ++ old)) :
    Booked (course.reserveAny policy world).2.pool
      ((course.reserveAny policy world).2.log ++ old) := by
  unfold Course.reserveAny
  exact scan_booked _ _ _ hs h

theorem discardAll_booked (hg : Grants policy start course.pool ids)
    (h : Booked course.pool (course.log ++ old)) :
    Booked (ids.foldl Course.discard course).pool
      ((ids.foldl Course.discard course).log ++ old) := by
  induction ids generalizing course with
  | nil => exact h
  | cons id ids ih =>
    obtain ⟨-, port, hl⟩ := hg.granted id List.mem_cons_self
    have hgive := hg.giveUp List.mem_cons_self
    rw [List.erase_cons_head] at hgive
    apply ih
    · rw [pool_discard]
      exact hgive
    · exact h.discard hg.sound hl rfl

theorem reserveMore_booked (left : Nat) (hg : Grants policy start course.pool ids)
    (h : Booked course.pool (course.log ++ old)) :
    Booked (course.reserveMore policy world left ids).2.pool
      ((course.reserveMore policy world left ids).2.log ++ old) := by
  induction left generalizing course ids with
  | zero => exact h
  | succ left ih =>
    have hany : Grants policy start (course.reserveAny policy world).2.pool _ := reserveAny_grants hg
    have hbooked : Booked (course.reserveAny policy world).2.pool _ := reserveAny_booked hg.sound h
    unfold Course.reserveMore
    split
    · rename_i id course' heq
      rw [heq] at hany hbooked
      exact ih hany hbooked
    · rename_i e course' heq
      rw [heq] at hany hbooked
      have hgrants : Grants policy start
          (course'.note (.rollingBack ids.length (e.toError policy))).pool ids.reverse :=
        hany.perm ids.reverse_perm.symm
      exact discardAll_booked hgrants (hbooked.skip rfl)

theorem reserve_booked (hs : pool.Sound policy) (h : Booked pool log) {number : Int}
    {lease : Option LeaseId} (hr : pool.reserve policy number = .ok (lease, pool', record)) :
    Booked pool' (record :: log) := by
  unfold reserve at hr
  split at hr
  · cases hr
  · split at hr
    · cases hr
      exact h.skip rfl
    · rename_i hfree
      cases hr
      exact h.enter hs (by simpa using hfree) .reserved

end Pool

end PortLease
