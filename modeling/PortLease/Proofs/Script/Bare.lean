import PortLease.Proofs.Pool.Map
import PortLease.Proofs.Script.Run

/-!
Machines without what verification adds: the verify flags of closes, the queries and the log. Whatever a
machine does, the bare machine does as well, as long as no port table is asked.
-/

namespace PortLease.Script

mutual

def Action.bare : Action → Action
  | .close slot _ => .close slot false
  | .closeCurrent _ => .closeCurrent false
  | .onClose slot name body => .onClose slot name (bareAll body)
  | action => action

def bareAll : List Action → List Action
  | [] => []
  | action :: actions => action.bare :: bareAll actions

end

mutual

theorem Action.bare_bare (action : Action) : action.bare.bare = action.bare := by
  match action with
  | .onClose slot name body => simp only [Action.bare, bareAll_bareAll body]
  | .reserve .. | .reserveAny .. | .reserveMany .. | .find .. | .clone .. | .keep .. | .drop ..
  | .close .. | .closeCurrent .. | .fail .. => rfl

theorem bareAll_bareAll (actions : List Action) : bareAll (bareAll actions) = bareAll actions := by
  match actions with
  | [] => rfl
  | action :: actions => simp only [bareAll, Action.bare_bare action, bareAll_bareAll actions]

end

def Hook.bare (hook : Hook) : Hook := { hook with body := bareAll hook.body }

@[simp] theorem Hook.bare_bare (hook : Hook) : hook.bare.bare = hook.bare := by
  simp [bare, bareAll_bareAll]

@[simp] theorem Hook.bare_comp_bare : Hook.bare ∘ Hook.bare = Hook.bare := funext Hook.bare_bare

def Occasion.bare : Occasion → Occasion
  | .close _ => .close false
  | occasion => occasion

@[simp] theorem Occasion.bare_bare (occasion : Occasion) : occasion.bare.bare = occasion.bare := by
  cases occasion <;> rfl

def Frame.bare : Frame → Frame
  | .body todo current => .body (bareAll todo) current
  | .ending current failure => .ending current failure
  | .hooks lease port running todo failures occasion =>
    .hooks lease port running (todo.map Hook.bare) failures occasion.bare
  | .check port _ failures => .check port 0 failures
  | .handOver todo => .handOver todo

@[simp] theorem Frame.bare_bare (f : Frame) : f.bare.bare = f.bare := by
  cases f <;> simp [bare, bareAll_bareAll]

@[simp] theorem Frame.bare_comp_bare : Frame.bare ∘ Frame.bare = Frame.bare := funext Frame.bare_bare

@[simp] theorem map_bare_bare (pool : Pool Hook) :
    (pool.map Hook.bare).map Hook.bare = pool.map Hook.bare := Pool.map_map Hook.bare_bare pool

def Event.isVisible : Event → Bool
  | .log _ | .queried _ => false
  | .hookStarted .. | .hookEnded .. | .granted .. | .grantedAny .. | .grantedMany _ | .found _
  | .missing _ => true

@[simp] theorem filter_isVisible_filter (trace : List Event) :
    (trace.filter Event.isVisible).filter Event.isVisible = trace.filter Event.isVisible := by
  simp [List.filter_filter]

namespace Machine

def plain (m : Machine) : Machine :=
  { m with
    pool := m.pool.map Hook.bare, stack := m.stack.map Frame.bare, queries := 0
    trace := m.trace.filter Event.isVisible }

variable {m : Machine}

@[simp] theorem plain_plain (m : Machine) : m.plain.plain = m.plain := by
  simp [plain]

@[simp] theorem plain_pool (m : Machine) : m.plain.pool = m.pool.map Hook.bare := rfl

@[simp] theorem plain_slots (m : Machine) : m.plain.slots = m.slots := rfl

@[simp] theorem plain_stack (m : Machine) : m.plain.stack = m.stack.map Frame.bare := rfl

@[simp] theorem plain_asked (m : Machine) : m.plain.asked = m.asked := rfl

@[simp] theorem plain_hooks (m : Machine) : m.plain.hooks = m.hooks := rfl

@[simp] theorem plain_mk (pool : Pool Hook) (slots : Std.TreeMap Slot LeaseId) (stack : List Frame)
    (asked : Pool.Asked) (queries hooks : Nat) (outcome : Option Failure) (trace : List Event) :
    plain ⟨pool, slots, stack, asked, queries, hooks, outcome, trace⟩ =
      ⟨pool.map Hook.bare, slots, stack.map Frame.bare, asked, 0, hooks, outcome,
        trace.filter Event.isVisible⟩ := rfl

@[simp] theorem plain_trace (m : Machine) : m.plain.trace = m.trace.filter Event.isVisible := rfl

@[simp] theorem plain_outcome (m : Machine) : m.plain.outcome = m.outcome := rfl

@[simp] theorem plain_emit (m : Machine) (e : Event) :
    (m.emit e).plain = if e.isVisible then m.plain.emit e else m.plain := by
  by_cases he : e.isVisible <;> simp [plain, emit, he]

@[simp] theorem plain_log (m : Machine) (record : LogRecord) : (m.log record).plain = m.plain := rfl

@[simp] theorem plain_logAll (m : Machine) (records : List LogRecord) :
    (m.logAll records).plain = m.plain := by
  have hnone : ((records.map Event.log).reverse ++ m.trace).filter Event.isVisible =
      m.trace.filter Event.isVisible := by
    rw [List.filter_append, List.append_left_eq_self, List.filter_eq_nil_iff]
    simp [Event.isVisible]
  simp [plain, logAll_eq, hnone]

@[simp] theorem plain_push (m : Machine) (f : Frame) : (m.push f).plain = m.plain.push f.bare := rfl

@[simp] theorem plain_raise (m : Machine) (failure : Failure) :
    (m.raise failure).plain = m.plain.raise failure := by
  obtain ⟨pool, slots, stack, asked, queries, hooks, outcome, trace⟩ := m
  unfold raise
  cases stack with
  | nil => rfl
  | cons f rest => cases f <;> rfl

@[simp] theorem plain_settle (m : Machine) (port : Port) (failures : List String) :
    (m.settle port failures).plain = m.plain.settle port failures := by
  unfold settle
  split
  · rfl
  · exact plain_raise m _

@[simp] theorem plain_join (m : Machine) (course : Pool.Course Hook) :
    (m.join course).plain =
      { m.plain with pool := course.pool.map Hook.bare, asked := course.asked } := by
  rw [join, plain_logAll]
  rfl

theorem plain_letGo (m : Machine) (id : LeaseId) : (m.letGo id).plain = (m.plain.letGo id).plain := by
  unfold letGo
  rw [plain_pool, Pool.letGo_map]
  rcases m.pool.letGo id with ⟨_ | l, pool⟩
  · simp
  · simp [Frame.bare, Lease.map]

theorem plain_close (m : Machine) (id : LeaseId) (verify : Bool) :
    (m.close id verify).plain = (m.plain.close id false).plain := by
  unfold close
  rw [plain_pool, Pool.close_map]
  rcases m.pool.close id with ⟨_ | l, pool⟩
  · simp
  · simp [Frame.bare, Occasion.bare, Lease.map]

theorem plain_onClose (m : Machine) (id : LeaseId) (name : String) (body : List Action) :
    (m.onClose id name body).plain = (m.plain.onClose id name (bareAll body)).plain := by
  have hhook : (⟨m.hooks, name, bareAll body⟩ : Hook) = Hook.bare ⟨m.hooks, name, body⟩ := rfl
  simp only [onClose, plain_pool, plain_hooks]
  rw [hhook, Pool.addHook_map]
  rcases m.pool.addHook id ⟨m.hooks, name, body⟩ with ⟨_ | _, pool⟩
  · simp only [Pool.lease?_map]
    cases pool.lease? id with
    | none => simp
    | some l => simp [Frame.bare, Lease.map]
  · simp

theorem plain_store (m : Machine) (slot : Option Slot) (id : LeaseId) :
    (m.store slot id).plain = (m.plain.store slot id).plain := by
  cases slot with
  | none => exact plain_letGo m id
  | some slot =>
    simp only [store, plain_slots]
    split
    · simp
    · rename_i old _
      have hleft := plain_letGo { m with slots := m.slots.insert slot id } old
      have hright := plain_letGo { m.plain with slots := m.slots.insert slot id } old
      rw [hleft, hright]
      simp

theorem plain_copy (m : Machine) (id : LeaseId) (slot : Slot) :
    (m.copy id slot).plain = (m.plain.copy id slot).plain := by
  simp [copy, Frame.bare]

theorem plain_find (m : Machine) (number : Int) (slot : Option Slot) :
    (m.find number slot).plain = (m.plain.find number slot).plain := by
  simp only [find, plain_pool, Pool.find?_map]
  split
  · simp [-List.filter_filter, Event.isVisible]
  · simp [-List.filter_filter, emit, Event.isVisible, Frame.bare, List.filter_cons]

theorem plain_reserve (m : Machine) (policy : Policy) (number : Int) (slot : Option Slot) :
    (m.reserve policy number slot).plain = (m.plain.reserve policy number slot).plain := by
  simp only [reserve, plain_pool, Pool.reserve_map]
  rcases m.pool.reserve policy number with refusal | ⟨lease, pool, record⟩
  · simp [Except.map]
  · cases lease with
    | none => simp [-List.filter_filter, Except.map, Event.isVisible]
    | some id => simp [-List.filter_filter, Except.map, Event.isVisible, Frame.bare]

theorem plain_reserveAny (m : Machine) (setting : Setting) (slot : Option Slot) :
    (m.reserveAny setting slot).plain = (m.plain.reserveAny setting slot).plain := by
  have hcourse : m.plain.course = m.course.map Hook.bare := rfl
  simp only [reserveAny, hcourse, Pool.Course.reserveAny_map]
  rcases m.course.reserveAny setting.policy setting.world with ⟨e | id, course⟩
  · simp [Pool.Course.map]
  · simp only [Pool.Course.map, join_eq, Pool.lease?_map]
    cases course.pool.lease? id with
    | none => simp
    | some l => simp [-List.filter_filter, Event.isVisible, Frame.bare, Lease.map]

theorem ports_congr {m m' : Machine} (h : ∀ id, (m'.pool.lease? id).map Lease.port =
    (m.pool.lease? id).map Lease.port) (ids : List LeaseId) : m'.ports ids = m.ports ids := by
  unfold ports
  congr 1
  funext id
  have hid := h id
  cases hl : m.pool.lease? id <;> cases hl' : m'.pool.lease? id <;> simp_all

theorem plain_reserveMany (m : Machine) (setting : Setting) (count : Int) (slot : Option Slot) :
    (m.reserveMany setting count slot).plain = (m.plain.reserveMany setting count slot).plain := by
  have hcourse : m.plain.course = m.course.map Hook.bare := rfl
  simp only [reserveMany]
  split
  · simp
  · rename_i left _
    simp only [hcourse, Pool.Course.reserveMore_map]
    rcases m.course.reserveMore setting.policy setting.world left [] with ⟨e | ids, course⟩
    · simp [Pool.Course.map]
    · have hports : (m.plain.join (course.map Hook.bare)).ports ids = (m.join course).ports ids := by
        apply ports_congr
        intro id
        simp only [join_eq, Pool.Course.map, Pool.lease?_map, Option.map_map]
        rfl
      simp only [hports]
      simp [-List.filter_filter, Event.isVisible, Frame.bare, Pool.Course.map]

theorem plain_withSlot (m : Machine) (slot : Slot) {act act' : Machine → LeaseId → Machine}
    (hact : ∀ m id, (act m id).plain = (act' m.plain id).plain) :
    (m.withSlot slot act).plain = (m.plain.withSlot slot act').plain := by
  simp only [withSlot, plain_slots]
  split
  · simp [Event.isVisible]
  · exact hact m _

theorem plain_startHook (m : Machine) (lease : LeaseId) (port : Port) (hook : Hook) :
    (m.startHook lease port hook).plain = (m.plain.startHook lease port hook.bare).plain := by
  have hexact (m : Machine) (hook : Hook) :
      (m.startHook lease port hook).plain = m.plain.startHook lease port hook.bare := by
    simp only [startHook, plain_pool, Pool.current?_map]
    cases m.pool.current? port with
    | none => rfl
    | some id =>
      simp [plain, push, emit, Event.isVisible, Frame.bare, Hook.bare, Pool.takenCount, List.filter_cons]
  rw [hexact, hexact, plain_plain, Hook.bare_bare]

theorem plain_endBody (m : Machine) (failure : Option Failure) :
    (m.endBody failure).plain = (m.plain.endBody failure).plain := by
  have hexact (m : Machine) : (m.endBody failure).plain = m.plain.endBody failure := by
    obtain ⟨pool, slots, stack, asked, queries, hooks, outcome, trace⟩ := m
    cases stack with
    | nil => rfl
    | cons f rest => cases f <;> rfl
  rw [hexact, hexact, plain_plain]

end Machine

def Setting.bare (setting : Setting) : Setting where
  policy := { setting.policy with checkRelease := false }
  world := setting.world
  table _ := .none

theorem Setting.scan_bare {η : Type} (setting : Setting) (tries : Nat) (busy : PortSet) (start : Port)
    (course : Pool.Course η) :
    course.scan setting.bare.policy setting.bare.world tries busy start =
      course.scan setting.policy setting.world tries busy start := by
  induction tries generalizing busy start course with
  | zero => rfl
  | succ tries ih =>
    simp only [Pool.Course.scan, ih]
    rfl

theorem Setting.reserveMore_bare {η : Type} (setting : Setting) (left : Nat) (claimed : List LeaseId)
    (course : Pool.Course η) :
    course.reserveMore setting.bare.policy setting.bare.world left claimed =
      course.reserveMore setting.policy setting.world left claimed := by
  induction left generalizing claimed course with
  | zero => rfl
  | succ left ih =>
    simp only [Pool.Course.reserveMore, Pool.Course.reserveAny, Setting.scan_bare, ih]
    rfl

namespace Machine

variable {setting : Setting}

theorem reserveAny_bare (m : Machine) (slot : Option Slot) :
    m.reserveAny setting.bare slot = m.reserveAny setting slot := by
  simp only [reserveAny, Pool.Course.reserveAny, Setting.scan_bare]
  rfl

theorem reserveMany_bare (m : Machine) (count : Int) (slot : Option Slot) :
    m.reserveMany setting.bare count slot = m.reserveMany setting count slot := by
  simp only [reserveMany, Setting.reserveMore_bare]
  rfl

theorem plain_perform (m : Machine) (current : Option LeaseId) (action : Action) :
    (m.perform setting current action).plain =
      (m.plain.perform setting.bare current action.bare).plain := by
  cases action with
  | reserve number slot => exact plain_reserve m _ number slot
  | reserveAny slot =>
    simp only [perform, Action.bare, reserveAny_bare]
    exact plain_reserveAny m setting slot
  | reserveMany count slot =>
    simp only [perform, Action.bare, reserveMany_bare]
    exact plain_reserveMany m setting count slot
  | find number slot => exact plain_find m number slot
  | clone slot into => exact plain_withSlot m slot fun m id => plain_copy m id into
  | keep slot =>
    cases current with
    | none => exact (plain_plain m).symm
    | some id => exact plain_copy m id slot
  | drop slot =>
    refine plain_withSlot m slot fun m id => ?_
    rw [plain_letGo, plain_letGo { m.plain with slots := _ }]
    simp
  | close slot verify => exact plain_withSlot m slot fun m id => plain_close m id verify
  | closeCurrent verify =>
    cases current with
    | none => exact (plain_plain m).symm
    | some id => exact plain_close m id verify
  | onClose slot name body =>
    exact plain_withSlot m slot fun m id => plain_onClose m id name body
  | fail failure => simp [perform, Action.bare]

def asks (setting : Setting) (m : Machine) : Prop :=
  ∃ lease port running failures rest,
    m.stack = .hooks lease port running [] failures (.close true) :: rest ∧ setting.policy.checkRelease

theorem plain_finishHooks (m : Machine) (port : Port) (failures : List String) {occasion : Occasion}
    (hno : occasion = .close true → setting.policy.checkRelease = true → False) :
    (m.finishHooks setting port failures occasion).plain =
      (m.plain.finishHooks setting.bare port failures occasion.bare).plain := by
  cases occasion with
  | reclaim => simp [finishHooks, Occasion.bare]
  | late => simp [finishHooks, Occasion.bare]
  | close verify =>
    have hcheck : (verify && setting.policy.checkRelease) = false := by
      apply Bool.eq_false_iff.mpr
      intro h
      obtain ⟨rfl, hcheck⟩ := Bool.and_eq_true_iff.mp h
      exact hno rfl hcheck
    simp [finishHooks, Occasion.bare, hcheck]

theorem plain_step (m : Machine) (hasks : ¬ m.asks setting)
    (hcheck : ∀ port query failures rest, m.stack ≠ .check port query failures :: rest) :
    (m.step setting).plain = (m.plain.step setting.bare).plain := by
  cases hs : m.stack with
  | nil =>
    simp [step, hs]
  | cons f rest =>
    have hplain : m.plain.stack = f.bare :: rest.map Frame.bare := by
      rw [plain_stack, hs, List.map_cons]
    cases f with
    | body todo current =>
      cases todo with
      | nil => simp [step, hs, Frame.bare, bareAll]
      | cons action todo =>
        simp only [step, hs, hplain, Frame.bare, bareAll]
        exact plain_perform (({ m with stack := rest } : Machine).push (.body todo current)) current
          action
    | ending current failure =>
      cases current with
      | none =>
        simp only [step, hs, hplain, Frame.bare]
        exact plain_endBody { m with stack := rest } failure
      | some id =>
        simp only [step, hs, hplain, Frame.bare]
        exact plain_letGo (({ m with stack := rest } : Machine).push (.ending none failure)) id
    | hooks lease port running todo failures occasion =>
      cases todo with
      | nil =>
        simp only [step, hs, hplain, Frame.bare, List.map_nil]
        refine plain_finishHooks { m with stack := rest } port failures ?_
        rintro rfl hcheck
        exact hasks ⟨lease, port, running, failures, rest, hs, hcheck⟩
      | cons hook todo =>
        simp only [step, hs, hplain, Frame.bare, List.map_cons]
        exact plain_startHook (({ m with stack := rest } : Machine).push
          (.hooks lease port hook.number todo failures occasion)) lease port hook
    | check port query failures => exact absurd hs (hcheck port query failures rest)
    | handOver todo =>
      cases todo with
      | nil => simp [step, hs, Frame.bare]
      | cons entry todo =>
        simp only [step, hs, hplain, Frame.bare]
        exact plain_store (({ m with stack := rest } : Machine).push (.handOver todo)) entry.1 entry.2

end Machine

end PortLease.Script
