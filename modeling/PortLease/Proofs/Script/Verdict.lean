import PortLease.Proofs.Script.Run

namespace PortLease

def LogRecord.isVerdict : LogRecord → Bool
  | .checkInconclusive .. | .checkClear _ | .checkUnavailable _ | .notListening ..
  | .stillListening .. => true
  | _ => false

namespace Pool

variable {η : Type} {policy : Policy} {world : World}

theorem Course.isVerdict_discard (course : Course η) (id : LeaseId) :
    (course.discard id).log.filter LogRecord.isVerdict = course.log.filter LogRecord.isVerdict := by
  obtain ⟨pool, asked, log⟩ := course
  simp only [discard]
  rcases pool.close id with ⟨_ | l, pool⟩ <;> rfl

theorem Course.isVerdict_scan (tries : Nat) (busy : PortSet) (start : Port) (course : Course η) :
    (course.scan policy world tries busy start).2.log.filter LogRecord.isVerdict =
      course.log.filter LogRecord.isVerdict := by
  induction tries generalizing busy start course with
  | zero => rfl
  | succ tries ih =>
    rcases course with ⟨pool, asked, log⟩
    unfold scan
    split
    · rfl
    · simp only
      split
      · split
        · rfl
        · rw [ih, isVerdict_discard]
          rfl
      · rfl

theorem Course.isVerdict_reserveAny (course : Course η) :
    (course.reserveAny policy world).2.log.filter LogRecord.isVerdict =
      course.log.filter LogRecord.isVerdict :=
  isVerdict_scan _ _ _ _

theorem Course.isVerdict_discards (ids : List LeaseId) (course : Course η) :
    (ids.foldl discard course).log.filter LogRecord.isVerdict =
      course.log.filter LogRecord.isVerdict := by
  induction ids generalizing course with
  | nil => rfl
  | cons id ids ih => rw [List.foldl_cons, ih, isVerdict_discard]

theorem Course.isVerdict_reserveMore (left : Nat) (claimed : List LeaseId) (course : Course η) :
    (course.reserveMore policy world left claimed).2.log.filter LogRecord.isVerdict =
      course.log.filter LogRecord.isVerdict := by
  induction left generalizing claimed course with
  | zero => rfl
  | succ left ih =>
    have hany : (course.reserveAny policy world).2.log.filter LogRecord.isVerdict =
        course.log.filter LogRecord.isVerdict := isVerdict_reserveAny course
    unfold reserveMore
    split
    · rename_i heq
      rw [heq] at hany
      rw [ih, hany]
    · rename_i heq
      rw [heq] at hany
      rw [isVerdict_discards, ← hany]
      rfl

end Pool

namespace Script

variable {setting : Setting} {m : Machine}

def Event.verdict? : Event → Option LogRecord
  | .log record => if record.isVerdict then some record else none
  | _ => none

namespace Machine

def verdicts (m : Machine) : List LogRecord := m.trace.filterMap Event.verdict?

theorem verdicts_emit {event : Event} (h : event.verdict? = none) :
    (m.emit event).verdicts = m.verdicts := List.filterMap_cons_none h

theorem verdicts_log {record : LogRecord} (h : record.isVerdict = false) :
    (m.log record).verdicts = m.verdicts := by
  apply verdicts_emit
  simp [Event.verdict?, h]

theorem verdicts_logAll (records : List LogRecord) :
    (m.logAll records).verdicts = (records.filter LogRecord.isVerdict).reverse ++ m.verdicts := by
  have hrecords : (records.map Event.log).filterMap Event.verdict? =
      records.filter LogRecord.isVerdict := by
    rw [List.filterMap_map, ← List.filterMap_eq_filter]
    rfl
  rw [logAll_eq, verdicts, verdicts, List.filterMap_append, List.filterMap_reverse, hrecords]

theorem verdicts_join {course : Pool.Course Hook}
    (h : course.log.filter LogRecord.isVerdict = []) : (m.join course).verdicts = m.verdicts := by
  rw [join, verdicts_logAll, List.filter_reverse, h]
  rfl

theorem verdicts_raise (failure : Failure) : (m.raise failure).verdicts = m.verdicts := by
  unfold raise
  split <;> rfl

theorem verdicts_settle (port : Port) (failures : List String) :
    (m.settle port failures).verdicts = m.verdicts := by
  unfold settle
  split
  · rfl
  · exact verdicts_raise _

theorem verdicts_letGo (id : LeaseId) : (m.letGo id).verdicts = m.verdicts := by
  unfold letGo
  rcases m.pool.letGo id with ⟨_ | l, pool⟩ <;> rfl

theorem verdicts_close (id : LeaseId) (verify : Bool) : (m.close id verify).verdicts = m.verdicts := by
  unfold close
  rcases m.pool.close id with ⟨_ | l, pool⟩ <;> rfl

theorem verdicts_onClose (id : LeaseId) (name : String) (body : List Action) :
    (m.onClose id name body).verdicts = m.verdicts := by
  simp only [onClose]
  split
  · rfl
  · split <;> rfl

theorem verdicts_store (slot : Option Slot) (id : LeaseId) :
    (m.store slot id).verdicts = m.verdicts := by
  unfold store
  split
  · exact verdicts_letGo id
  · simp only
    split
    · rfl
    · exact verdicts_letGo _

theorem verdicts_withSlot {slot : Slot} {act : Machine → LeaseId → Machine}
    (h : ∀ id, (act m id).verdicts = m.verdicts) : (m.withSlot slot act).verdicts = m.verdicts := by
  unfold withSlot
  split
  · rfl
  · exact h _

theorem verdicts_reserve (policy : Policy) (number : Int) (slot : Option Slot) :
    (m.reserve policy number slot).verdicts = m.verdicts := by
  have hrecord {lease : Option LeaseId} {pool : Pool Hook} {record : LogRecord}
      (h : m.pool.reserve policy number = .ok (lease, pool, record)) : record.isVerdict = false := by
    unfold Pool.reserve at h
    split at h
    · cases h
    · split at h <;> cases h <;> rfl
  unfold reserve
  split
  · exact verdicts_raise _
  · rename_i lease pool record heq
    cases lease <;> exact (verdicts_emit rfl).trans (verdicts_log (hrecord heq))

theorem verdicts_reserveAny (slot : Option Slot) :
    (m.reserveAny setting slot).verdicts = m.verdicts := by
  have hjoin : (m.join (m.course.reserveAny setting.policy setting.world).2).verdicts = m.verdicts :=
    verdicts_join (Pool.Course.isVerdict_reserveAny _)
  unfold reserveAny
  generalize m.course.reserveAny setting.policy setting.world = answer at hjoin ⊢
  rcases answer with ⟨_ | id, course⟩
  · exact (verdicts_raise _).trans hjoin
  · simp only
    split
    · exact hjoin
    · exact hjoin

theorem verdicts_reserveMany (count : Int) (slot : Option Slot) :
    (m.reserveMany setting count slot).verdicts = m.verdicts := by
  unfold reserveMany
  split
  · exact verdicts_raise _
  · rename_i count _
    have hjoin : (m.join
        (m.course.reserveMore setting.policy setting.world count []).2).verdicts = m.verdicts :=
      verdicts_join (Pool.Course.isVerdict_reserveMore _ _ _)
    generalize m.course.reserveMore setting.policy setting.world count [] = answer at hjoin ⊢
    rcases answer with ⟨_ | ids, course⟩
    · exact (verdicts_raise _).trans hjoin
    · exact hjoin

theorem verdicts_find (number : Int) (slot : Option Slot) :
    (m.find number slot).verdicts = m.verdicts := by
  unfold find
  simp only
  split <;> rfl

theorem verdicts_perform (current : Option LeaseId) (action : Action) :
    (m.perform setting current action).verdicts = m.verdicts := by
  cases action with
  | reserve => exact verdicts_reserve _ _ _
  | reserveAny => exact verdicts_reserveAny _
  | reserveMany => exact verdicts_reserveMany _ _
  | find => exact verdicts_find _ _
  | clone => exact verdicts_withSlot fun _ => rfl
  | keep => cases current <;> rfl
  | drop => exact verdicts_withSlot fun id => verdicts_letGo id
  | close => exact verdicts_withSlot fun id => verdicts_close id _
  | closeCurrent verify =>
    cases current with
    | none => rfl
    | some id => exact verdicts_close id verify
  | onClose => exact verdicts_withSlot fun id => verdicts_onClose id _ _
  | fail => exact verdicts_raise _

theorem verdicts_finishHooks (port : Port) (failures : List String) (occasion : Occasion) :
    (m.finishHooks setting port failures occasion).verdicts = m.verdicts := by
  have hquiet {f : String → LogRecord} (hf : ∀ s, (f s).isVerdict = false) :
      (m.logAll (failures.map f)).verdicts = m.verdicts := by
    rw [verdicts_logAll, List.filter_eq_nil_iff.mpr]
    · rfl
    · intro record hmem
      obtain ⟨s, -, rfl⟩ := List.mem_map.mp hmem
      rw [hf s]
      exact Bool.false_ne_true
  cases occasion with
  | reclaim => exact hquiet fun _ => rfl
  | late => exact hquiet fun _ => rfl
  | close verify =>
    simp only [finishHooks]
    split
    · rfl
    · exact verdicts_settle _ _

theorem verdicts_startHook (lease : LeaseId) (port : Port) (hook : Hook) :
    (m.startHook lease port hook).verdicts = m.verdicts := by
  unfold startHook
  cases m.pool.current? port <;> rfl

theorem verdicts_endBody (failure : Option Failure) : (m.endBody failure).verdicts = m.verdicts := by
  unfold endBody
  split <;> rfl

theorem verdicts_step
    (h : ∀ port query failures rest, m.stack ≠ .check port query failures :: rest) :
    (m.step setting).verdicts = m.verdicts := by
  unfold step
  split
  · rfl
  · rename_i frame rest hs
    cases frame with
    | body todo current =>
      cases todo with
      | nil => rfl
      | cons action todo => exact verdicts_perform _ _
    | ending current failure =>
      cases current with
      | none => exact verdicts_endBody _
      | some id => exact verdicts_letGo id
    | hooks lease port running todo failures occasion =>
      cases todo with
      | nil => exact verdicts_finishHooks _ _ _
      | cons hook todo => exact verdicts_startHook _ _ _
    | check port query failures => exact absurd hs (h port query failures rest)
    | handOver todo =>
      cases todo with
      | nil => rfl
      | cons pair todo => exact verdicts_store _ _

end Machine

def listening : Except PortError (List Socket) → List Socket
  | .error _ => []
  | .ok sockets => sockets.filter Socket.isListening

inductive Excuses (port : Port) (conclusive : Bool) :
    Except PortError (List Socket) → LogRecord → Prop
  | inconclusive (e : PortError) : Excuses port conclusive (.error e) (.checkInconclusive port e)
  | clear (h : conclusive = true) : Excuses port conclusive (.ok []) (.checkClear port)
  | unavailable (h : conclusive = false) : Excuses port conclusive (.ok []) (.checkUnavailable port)
  | notListening {sockets : List Socket} (h : sockets ≠ []) :
      Excuses port conclusive (.ok sockets) (.notListening port sockets.length)

/-- What is logged for an answer of the port table: an error for each socket that listens, in the order of
the table; without one, a single record that says what the answer was instead. -/
structure Reports (port : Port) (conclusive : Bool) (answer : Except PortError (List Socket))
    (records : List LogRecord) : Prop where
  errors : records.filter (fun record => record.level = .error) =
    (listening answer).map (.stillListening port)
  only : listening answer ≠ [] → ∀ record ∈ records, record.level = .error
  otherwise : listening answer = [] →
    ∃ record, records = [record] ∧ record.level = .debug ∧ Excuses port conclusive answer record

theorem reports_verdict (port : Port) (conclusive : Bool) (answer : Except PortError (List Socket)) :
    Reports port conclusive answer (verdict port conclusive answer) := by
  have hsingle {record : LogRecord} (hnone : listening answer = []) (hlevel : record.level = .debug)
      (hexcuses : Excuses port conclusive answer record) : Reports port conclusive answer [record] := by
    refine ⟨?_, fun hsome => absurd hnone hsome, fun _ => ⟨record, rfl, hlevel, hexcuses⟩⟩
    rw [hnone, List.filter_cons_of_neg (by simp [hlevel])]
    rfl
  unfold verdict
  split
  · exact hsingle rfl rfl (.inconclusive _)
  · cases conclusive with
    | true => exact hsingle rfl rfl (.clear rfl)
    | false => exact hsingle rfl rfl (.unavailable rfl)
  · rename_i sockets hne
    split
    · rename_i hnone
      exact hsingle hnone rfl (.notListening hne)
    · rename_i _ hsome
      have hlevel : ∀ record ∈ (sockets.filter Socket.isListening).map (LogRecord.stillListening port),
          record.level = .error := by
        intro record hmem
        obtain ⟨socket, -, rfl⟩ := List.mem_map.mp hmem
        rfl
      refine ⟨?_, fun _ => hlevel, fun hnone => absurd hnone hsome⟩
      rw [List.filter_eq_self.mpr]
      · rfl
      · simpa using hlevel

end Script

end PortLease
