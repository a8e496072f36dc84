import PortLease.Proofs.Pool.Audit
import PortLease.Proofs.Script.Occupancy

/-!
The log of a run is a faithful audit trail. Whoever reads its records in order, and enters each lease that
is reserved and strikes out each that is released or reclaimed, has at every moment the leases that the
registry names, with their ports; and no lease is entered twice.
-/

namespace PortLease.Script

open LogRecord (entered additions)

variable {setting : Setting} {policy : Policy} {m m' : Machine} {id : LeaseId}

def Event.record? : Event → Option LogRecord
  | .log record => some record
  | _ => none

namespace Machine

def records (m : Machine) : List LogRecord := m.trace.filterMap Event.record?

theorem records_logAll (records : List LogRecord) :
    (m.logAll records).records = records.reverse ++ m.records := by
  have hrecords : (records.map Event.log).filterMap Event.record? = records := by
    rw [List.filterMap_map]
    exact List.filterMap_some
  rw [logAll_eq, Machine.records, Machine.records, List.filterMap_append, List.filterMap_reverse,
    hrecords]

def Booked (m : Machine) : Prop := m.pool.Booked m.records

theorem Booked.emit {event : Event} (h : m.Booked) (he : event.record? = none) :
    (m.emit event).Booked := by
  have hrecords : (m.emit event).records = m.records := List.filterMap_cons_none he
  rw [Booked, hrecords]
  exact h

theorem Booked.logAll {records : List LogRecord} (h : m.Booked)
    (hrecords : ∀ record ∈ records, record.lease? = none) : (m.logAll records).Booked := by
  have hpool : (m.logAll records).pool = m.pool := by rw [logAll_eq]
  rw [Booked, records_logAll, hpool]
  apply Pool.Booked.skipAll h
  intro record hmem
  exact hrecords record (List.mem_reverse.mp hmem)

theorem Booked.join {course : Pool.Course Hook}
    (h : course.pool.Booked (course.log ++ m.records)) : (m.join course).Booked := by
  have hpool : (m.join course).pool = course.pool := by rw [join_eq]
  rw [Booked, hpool, Machine.join, records_logAll, List.reverse_reverse]
  exact h

theorem Booked.raise (h : m.Booked) (failure : Failure) : (m.raise failure).Booked := by
  unfold Machine.raise
  split <;> exact h

theorem Booked.settle (h : m.Booked) (port : Port) (failures : List String) :
    (m.settle port failures).Booked := by
  unfold Machine.settle
  split
  · exact h
  · exact h.raise _

theorem Booked.retain (h : m.Booked) (id : LeaseId) :
    ({ m with pool := m.pool.retain id } : Machine).Booked := by
  apply Pool.Booked.same h
  · rw [Pool.retain_eq, Pool.registry_update]
  · rw [Pool.retain_eq, Pool.nextId_update]

theorem Booked.update (h : m.Booked) (id : LeaseId) (f : Lease Hook → Lease Hook) :
    ({ m with pool := m.pool.update id f } : Machine).Booked :=
  Pool.Booked.same h (Pool.registry_update f) (Pool.nextId_update f)

theorem Booked.ended (h : m.Booked) (hs : m.pool.Sound policy) {l : Lease Hook}
    (hl : m.pool.lease? id = some l) (hheld : l.state = .held) (f : Lease Hook → Lease Hook)
    {record : LogRecord} (hrecord : record.Strikes l.port id) :
    (({ m with pool := (m.pool.update id f).release id l.port } : Machine).log record).Booked := by
  have hnamed : (m.pool.update id f).registry[l.port]? = some id := by
    rw [Pool.registry_update]
    exact (hs.registry_iff _ _).mpr ⟨l, hl, hheld, rfl⟩
  have hupdate : (m.pool.update id f).Booked m.records := h.update id f
  exact hupdate.release hnamed hrecord

theorem Booked.letGo (h : m.Booked) (hs : m.pool.Sound policy) (id : LeaseId) :
    (m.letGo id).Booked := by
  unfold Machine.letGo
  cases hl : m.pool.lease? id with
  | none =>
    rw [Pool.letGo, hl]
    exact h
  | some l =>
    by_cases hlast : l.state = .held ∧ l.holders ≤ 1
    · rw [Pool.letGo_last hl hlast.1 hlast.2]
      exact h.ended hs hl hlast.1 _ .reclaiming
    · have hmore : l.state = .held → 1 < l.holders := by
        intro hheld
        exact Nat.lt_of_not_le fun hle => hlast ⟨hheld, hle⟩
      rw [Pool.letGo_more hl hmore]
      exact h.update id _

theorem Booked.close (h : m.Booked) (hs : m.pool.Sound policy) (id : LeaseId) (verify : Bool) :
    (m.close id verify).Booked := by
  unfold Machine.close
  cases hl : m.pool.lease? id with
  | none =>
    rw [Pool.close, Pool.finish, hl]
    exact h
  | some l =>
    by_cases hheld : l.state = .held
    · rw [Pool.close_held hl hheld]
      exact h.ended hs hl hheld _ .released
    · rw [Pool.close_over hl hheld]
      exact h

theorem Booked.onClose (h : m.Booked) (id : LeaseId) (name : String) (body : List Action) :
    (m.onClose id name body).Booked := by
  simp only [Machine.onClose]
  cases hl : m.pool.lease? id with
  | none =>
    rw [Pool.addHook, hl]
    simp only [hl]
    exact h
  | some l =>
    by_cases hheld : l.state = .held
    · rw [Pool.addHook_held hl hheld]
      exact h.update id _
    · rw [Pool.addHook_over hl hheld]
      simp only [hl]
      exact h

theorem Booked.store (h : m.Booked) (hs : m.pool.Sound policy) (slot : Option Slot) (id : LeaseId) :
    (m.store slot id).Booked := by
  cases slot with
  | none => exact h.letGo hs id
  | some slot =>
    have hstored : ({ m with slots := m.slots.insert slot id } : Machine).Booked := h
    simp only [Machine.store]
    split
    · exact hstored
    · exact hstored.letGo hs _

theorem Booked.withSlot (h : m.Booked) {slot : Slot} {act : Machine → LeaseId → Machine}
    (hact : ∀ id, (act m id).Booked) : (m.withSlot slot act).Booked := by
  unfold Machine.withSlot
  split
  · exact h.emit rfl
  · exact hact _

theorem Booked.reserve (h : m.Booked) (hs : m.pool.Sound policy) (number : Int)
    (slot : Option Slot) : (m.reserve policy number slot).Booked := by
  unfold Machine.reserve
  split
  · exact h.raise _
  · rename_i lease pool record heq
    have hlogged : (({ m with pool } : Machine).log record).Booked := Pool.reserve_booked hs h heq
    cases lease <;> exact hlogged.emit rfl

theorem Booked.reserveAny (h : m.Booked) (hs : m.pool.Sound setting.policy) (slot : Option Slot) :
    (m.reserveAny setting slot).Booked := by
  have hjoin : (m.join (m.course.reserveAny setting.policy setting.world).2).Booked :=
    .join (Pool.reserveAny_booked hs h)
  unfold Machine.reserveAny
  generalize m.course.reserveAny setting.policy setting.world = answer at hjoin ⊢
  obtain ⟨result, course⟩ := answer
  cases result with
  | error e => exact hjoin.raise _
  | ok id =>
    simp only
    split
    · exact hjoin
    · exact hjoin.emit rfl

theorem Booked.reserveMany (h : m.Booked) (hs : m.pool.Sound setting.policy) (count : Int)
    (slot : Option Slot) : (m.reserveMany setting count slot).Booked := by
  unfold Machine.reserveMany
  split
  · exact h.raise _
  · rename_i count _
    have hgrants : Pool.Grants setting.policy m.pool m.course.pool [] := .refl hs
    have hjoin : (m.join (m.course.reserveMore setting.policy setting.world count []).2).Booked :=
      .join (Pool.reserveMore_booked count hgrants h)
    generalize m.course.reserveMore setting.policy setting.world count [] = answer at hjoin ⊢
    obtain ⟨result, course⟩ := answer
    cases result with
    | error e => exact hjoin.raise _
    | ok ids => exact hjoin.emit rfl

theorem Booked.find (h : m.Booked) (number : Int) (slot : Option Slot) :
    (m.find number slot).Booked := by
  unfold Machine.find
  simp only
  split
  · exact h.emit rfl
  · rename_i id _
    have hfound (lease : Option LeaseId) : (m.emit (.found lease)).Booked := h.emit rfl
    exact (hfound _).retain id

theorem Booked.perform (h : m.Booked) (hs : m.pool.Sound setting.policy) (current : Option LeaseId)
    (action : Action) : (m.perform setting current action).Booked := by
  cases action with
  | reserve number slot => exact h.reserve hs number slot
  | reserveAny slot => exact h.reserveAny hs slot
  | reserveMany count slot => exact h.reserveMany hs count slot
  | find number slot => exact h.find number slot
  | clone slot into => exact h.withSlot fun id => h.retain id
  | keep slot =>
    cases current with
    | none => exact h
    | some id => exact h.retain id
  | drop slot =>
    have herased : ({ m with slots := m.slots.erase slot } : Machine).Booked := h
    exact h.withSlot fun id => herased.letGo hs id
  | close slot verify => exact h.withSlot fun id => h.close hs id verify
  | closeCurrent verify =>
    cases current with
    | none => exact h
    | some id => exact h.close hs id verify
  | onClose slot name body => exact h.withSlot fun id => h.onClose id name body
  | fail failure => exact h.raise failure

theorem Booked.finishHooks (h : m.Booked) (port : Port) (failures : List String)
    (occasion : Occasion) : (m.finishHooks setting port failures occasion).Booked := by
  have hfailures (f : String → LogRecord) (hf : ∀ s, (f s).lease? = none) :
      (m.logAll (failures.map f)).Booked := by
    apply h.logAll
    intro record hmem
    obtain ⟨failure, -, rfl⟩ := List.mem_map.mp hmem
    exact hf failure
  cases occasion with
  | reclaim => exact hfailures _ fun _ => rfl
  | late => exact hfailures _ fun _ => rfl
  | close verify =>
    simp only [Machine.finishHooks]
    split
    · have hqueried : ({ m with queries := m.queries + 1 } : Machine).Booked := h
      exact hqueried.emit rfl
    · exact h.settle port failures

theorem Booked.startHook (h : m.Booked) (lease : LeaseId) (port : Port) (hook : Hook) :
    (m.startHook lease port hook).Booked := by
  have hstarted : (m.emit (.hookStarted lease hook.number hook.name port (m.pool.current? port)
      m.pool.takenCount)).Booked := h.emit rfl
  unfold Machine.startHook
  cases m.pool.current? port with
  | none => exact hstarted
  | some id => exact hstarted.retain id

theorem Booked.endBody (h : m.Booked) (failure : Option Failure) : (m.endBody failure).Booked := by
  unfold Machine.endBody
  split
  · exact h.emit rfl
  · exact h
  · exact h

theorem lease?_verdict (port : Port) (conclusive : Bool) (answer : Except PortError (List Socket)) :
    ∀ record ∈ verdict port conclusive answer, record.lease? = none := by
  intro record hmem
  unfold verdict at hmem
  split at hmem
  · obtain rfl := List.mem_singleton.mp hmem
    rfl
  · split at hmem <;> obtain rfl := List.mem_singleton.mp hmem <;> rfl
  · split at hmem
    · obtain rfl := List.mem_singleton.mp hmem
      rfl
    · obtain ⟨socket, -, rfl⟩ := List.mem_map.mp hmem
      rfl

end Machine

/-- The port table logs nothing in the name of the pool. -/
def Setting.TableApart (setting : Setting) : Prop :=
  ∀ query port, ∀ record ∈ ((setting.table query).query port).log, record.lease? = none

theorem lease?_ofTool (host : Host) (program : String) (port : Option Port) :
    ∀ record ∈ ((PortTable.ofTool host program).query port).log, record.lease? = none := by
  intro record hmem
  simp only [PortTable.ofTool] at hmem
  split at hmem
  · cases hmem
  · unfold PortTable.ofOutput at hmem
    split at hmem
    · split at hmem
      · cases hmem
      · obtain rfl := List.mem_singleton.mp hmem
        rfl
    · split at hmem <;> cases hmem

namespace Machine

theorem Booked.step (h : m.Booked) (hs : m.pool.Sound setting.policy) (ht : setting.TableApart) :
    (m.step setting).Booked := by
  unfold Machine.step
  split
  · exact h
  · rename_i frame rest _
    have hbelow : ({ m with stack := rest } : Machine).Booked := h
    split
    · exact hbelow
    · rename_i action todo current _
      have hpushed : (({ m with stack := rest } : Machine).push (.body todo current)).Booked := h
      exact hpushed.perform hs current action
    · rename_i id failure _
      have hpushed : (({ m with stack := rest } : Machine).push (.ending none failure)).Booked := h
      exact hpushed.letGo hs id
    · exact hbelow.endBody _
    · exact hbelow.finishHooks _ _ _
    · rename_i lease port running hook todo failures occasion _
      have hpushed : (({ m with stack := rest } : Machine).push
        (.hooks lease port hook.number todo failures occasion)).Booked := h
      exact hpushed.startHook lease port hook
    · apply Booked.settle
      apply Booked.logAll
      · exact hbelow.logAll (ht _ _)
      · exact lease?_verdict _ _ _
    · exact hbelow
    · rename_i slot id todo _
      have hpushed : (({ m with stack := rest } : Machine).push (.handOver todo)).Booked := h
      exact hpushed.store hs slot id

theorem Booked.redirect (h : m.Booked) (todo : List Action) : (m.redirect todo).Booked := by
  have hrecords : (m.redirect todo).records = m.records := by
    rw [Machine.records, redirect_trace, Machine.records]
  rw [Booked, redirect_pool, hrecords]
  exact h

def debugLog (m : Machine) : List LogRecord :=
  m.records.reverse.filter fun record => record.level.rank ≤ Level.debug.rank

theorem debugLog_eq (m : Machine) : m.debugLog = m.records.reverse := by
  apply List.filter_eq_self.mpr
  intro record _
  apply decide_eq_true
  cases record.level <;> decide

structure AuditTrail (m : Machine) : Prop where
  entered_iff : ∀ p id, (p, id) ∈ m.debugLog.foldl LogRecord.replay ∅ ↔
    m.pool.registry[p]? = some id ∧ m.Live id p
  once : (additions m.debugLog).Nodup

end Machine

theorem Reachable.booked (h : Reachable setting m) (ht : setting.TableApart) : m.Booked := by
  induction h with
  | refl => exact Pool.booked_empty
  | tail hreach hmove ih =>
    cases hmove with
    | step => exact ih.step (Reachable.sound hreach).pool ht
    | redirect todo => exact ih.redirect todo

theorem log_is_audit_trail (h : Reachable setting m) (ht : setting.TableApart) : m.AuditTrail := by
  have hbooked := h.booked ht
  constructor
  · intro p id
    have hlive : m.pool.registry[p]? = some id → m.Live id p := by
      intro hnamed
      exact h.sound.holds_iff.mp ((h.sound.pool.registry_iff p id).mp hnamed)
    rw [Machine.debugLog_eq, List.foldl_reverse, and_iff_left_of_imp hlive]
    exact hbooked.entered p id
  · rw [Machine.debugLog_eq, additions, List.filterMap_reverse, List.map_reverse,
      List.nodup_reverse]
    exact hbooked.once

def Machine.audited : Machine :=
  (({} : Machine).start [.reserve 5000 (some "a"), .reserve 6000 (some "b"),
    .onClose "b" "again" [.reserve 6000 (some "c")], .close "a" false, .drop "b"]).run .lone 12

theorem log_is_audit_trail_audited :
    Reachable .lone .audited ∧ Setting.lone.TableApart ∧ Machine.audited.AuditTrail ∧
      Machine.audited.debugLog =
        [.reserved 5000 1, .reserved 6000 2, .released 5000 1, .reclaiming 6000 2,
          .reserved 6000 3] ∧
      Machine.audited.debugLog.foldl LogRecord.replay ∅ = {(6000, 3)} := by
  have h : Reachable .lone .audited := (Reachable.fresh.start rfl _).run 12
  have ht : Setting.lone.TableApart := fun _ _ _ hmem => absurd hmem List.not_mem_nil
  exact ⟨h, ht, log_is_audit_trail h ht, by decide +kernel, by decide +kernel⟩

end PortLease.Script
