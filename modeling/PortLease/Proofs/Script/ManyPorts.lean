import PortLease.Proofs.Pool.Batch
import PortLease.Proofs.Script.AnyPort

namespace PortLease.Script

open Pool (Course Grants OnUsable)

variable {setting : Setting} {m m' : Machine} {id : LeaseId} {count : Int} {slot : Option Slot}
  {todo : List Action} {current : Option LeaseId} {rest : List Frame} {error : PortError}

namespace Machine

def closeNow (setting : Setting) (m : Machine) (id : LeaseId) : Machine :=
  ((m.close id false).step setting).letGo id

/-- The batch fails with `error`, and all is as it was but for what the log says and leases that have
come and are over. -/
structure Refuses (setting : Setting) (m m' : Machine) (current : Option LeaseId) (rest : List Frame)
    (error : PortError) : Prop where
  closes : ∃ claimed before, Grants setting.policy m.pool before.pool claimed ∧
    m' = (claimed.foldl (closeNow setting) (m.join before)).raise (.error error)
  stack : m'.stack = .ending current (some (.error error)) :: rest
  restored : m.pool.Restored m'.pool
  slots : m'.slots = m.slots
  queries : m'.queries = m.queries
  hooks : m'.hooks = m.hooks
  trace : ∃ records : List LogRecord, m'.trace = records.map Event.log ++ m.trace

/-- The batch is granted: new leases, each on a port of its own that was usable, and in the order of
their ports they go to the slots. -/
structure GrantsMany (policy : Policy) (bindable : Port → Bool) (count : Int) (slot : Option Slot)
    (m m' : Machine) (todo : List Action) (current : Option LeaseId) (rest : List Frame)
    (leases : List (Port × LeaseId)) : Prop where
  length : leases.length = count
  adds : m.pool.Adds policy m'.pool leases
  usable : ∀ port id, (port, id) ∈ leases → m.pool.isUsable policy bindable port = true
  stack : m'.stack =
    .handOver (batchSlots slot ((leases.mergeSort fun a b => a.1 ≤ b.1).map Prod.snd)) ::
      .body todo current :: rest
  slots : m'.slots = m.slots
  trace : ∃ records : List LogRecord,
    m'.trace = .grantedMany leases :: (records.map Event.log ++ m.trace)

inductive Grounds (policy : Policy) (bindable : Port → Bool) (count : Int) (m : Machine) :
    PortError → Prop
  | badCount (hcount : count < 1 ∨ 65535 < count) : Grounds policy bindable count m
      (.invalidCount s!"cannot reserve {count} ports, count must be within 1-65535")
  | exhausted (hlow : 1 ≤ count) (hhigh : count ≤ 65535)
      (hless : (m.pool.usablePorts policy bindable).card < count) : Grounds policy bindable count m
      (.portsExhausted (Pool.exhaustedText policy (m.pool.blockedPorts policy bindable).card))

structure AllOrNone (setting : Setting) (bindable : Port → Bool) (count : Int) (slot : Option Slot)
    (m m' : Machine) (todo : List Action) (current : Option LeaseId) (rest : List Frame) : Prop where
  granted_iff :
    (∃ leases, GrantsMany setting.policy bindable count slot m m' todo current rest leases) ↔
      1 ≤ count ∧ count ≤ 65535 ∧ count ≤ (m.pool.usablePorts setting.policy bindable).card
  refused_iff : ∀ error,
    Refuses setting m m' current rest error ↔ Grounds setting.policy bindable count m error
  room : setting.policy.probeBind = false →
    (m.pool.usablePorts setting.policy bindable).card = setting.policy.capacity - m.pool.takenCount

theorem step_close {port : Port} (hl : m.pool.lease? id = some { port }) :
    (m.close id false).step setting =
      { m with
        pool := (m.pool.update id (Pool.finished .closed)).release id port
        trace := .log (.released port id) :: m.trace } := by
  rw [close, Pool.close_held hl rfl]
  rfl

theorem join_discard {course : Course Hook} {port : Port}
    (hl : course.pool.lease? id = some { port }) :
    m.join (course.discard id) = (m.join course).closeNow setting id := by
  rw [Pool.discard_held hl rfl, Pool.giveUp_eq hl rfl, join_eq, join_eq, closeNow, step_close hl, letGo,
    Pool.letGo_more (Pool.lease?_ended hl _) (by simp [Pool.finished])]
  rfl

theorem join_discardAll {pool : Pool Hook} {course : Course Hook} {claimed : List LeaseId}
    (hg : Grants setting.policy pool course.pool claimed) :
    m.join (claimed.foldl Course.discard course) =
      claimed.foldl (closeNow setting) (m.join course) := by
  induction claimed generalizing course with
  | nil => rfl
  | cons id claimed ih =>
    obtain ⟨-, port, hl⟩ := hg.granted id List.mem_cons_self
    have hless : Grants setting.policy pool (course.discard id).pool claimed := hg.giveUp_head
    rw [List.foldl_cons, List.foldl_cons, ih hless, join_discard hl]

theorem Refuses.unique {other : PortError} (h : Refuses setting m m' current rest error)
    (hother : Refuses setting m m' current rest other) : error = other := by
  have hstack := h.stack
  rw [hother.stack] at hstack
  cases hstack
  rfl

theorem GrantsMany.not_refuses {bindable : Port → Bool} {leases : List (Port × LeaseId)}
    (h : GrantsMany setting.policy bindable count slot m m' todo current rest leases) :
    ¬ Refuses setting m m' current rest error := by
  intro hrefuses
  have hstack := h.stack
  rw [hrefuses.stack] at hstack
  cases hstack

section Batch

variable {scanStart : Nat → Port} {bindable : Port → Bool} {action : Action}

theorem refuses_rolledBack (h : m.Sound setting.policy)
    (hs : m.stack = .body (action :: todo) current :: rest) {claimed : List LeaseId}
    {before : Course Hook} (hg : Grants setting.policy m.pool before.pool claimed) :
    Refuses setting m ((m.join (claimed.foldl Course.discard before)).raise (.error error)) current
      rest error := by
  have hrestored : m.pool.Restored (claimed.foldl Course.discard before).pool :=
    (Pool.discardAll_grants hg).restored h.pool
  refine ⟨⟨claimed, before, hg, by rw [join_discardAll hg]⟩, ?_, ?_, ?_, ?_, ?_, ?_⟩
  all_goals simp only [join_eq, raise, hs]
  · exact hrestored
  · exact ⟨_, rfl⟩

theorem refuses_badCount (h : m.Sound setting.policy)
    (hs : m.stack = .body (.reserveMany count slot :: todo) current :: rest)
    (hcount : count < 1 ∨ 65535 < count) :
    Refuses setting m (m.step { setting with world := .steady scanStart bindable }) current rest
      (.invalidCount s!"cannot reserve {count} ports, count must be within 1-65535") := by
  have hbad : Pool.checkCount count = .error ⟨count⟩ := if_pos hcount
  have hstep : m.step { setting with world := .steady scanStart bindable } =
      (m.join m.course).raise (.error (Pool.BadCount.toError ⟨count⟩)) := by
    simp only [step, hs, perform, reserveMany, hbad, push, raise, join_eq]
    rfl
  rw [hstep]
  exact @refuses_rolledBack setting m todo current rest _ _ h hs [] m.course (.refl h.pool)

theorem batch_ends (h : m.Sound setting.policy) (left : Nat) {after : Course Hook}
    {result : Except Pool.Exhausted (List LeaseId)}
    (hmore : m.course.reserveMore setting.policy (.steady scanStart bindable) left [] =
      (result, after)) :
    Pool.BatchEnds setting.policy bindable m.pool m.pool 0 left result after.pool := by
  have hends := @Pool.reserveMore_ends Hook setting.policy scanStart bindable m.pool m.course [] h.pool
    left (.refl h.pool) fun id hid => absurd hid List.not_mem_nil
  rwa [hmore] at hends

theorem refuses_exhausted (h : m.Sound setting.policy)
    (hs : m.stack = .body (.reserveMany count slot :: todo) current :: rest)
    (hlow : 1 ≤ count) (hhigh : count ≤ 65535)
    (hroom : (m.pool.usablePorts setting.policy bindable).card < count) :
    Refuses setting m (m.step { setting with world := .steady scanStart bindable }) current rest
      (.portsExhausted
        (Pool.exhaustedText setting.policy (m.pool.blockedPorts setting.policy bindable).card)) := by
  have hok : Pool.checkCount count = .ok count.toNat := if_neg (by omega)
  rcases hmore : m.course.reserveMore setting.policy (.steady scanStart bindable) count.toNat [] with
    ⟨result, after⟩
  cases batch_ends h count.toNat hmore with
  | granted hle => omega
  | @exhausted e _ _ hbusy =>
    obtain ⟨claimed, before, hg, rfl⟩ := Pool.reserveMore_rollsBack count.toNat (.refl h.pool) hmore
    have hstep : m.step { setting with world := .steady scanStart bindable } =
        (m.join (claimed.foldl Course.discard before)).raise
          (.error (e.toError setting.policy)) := by
      simp only [step, hs, perform, reserveMany, hok, push, course, raise, join_eq] at hmore ⊢
      rw [hmore]
    rw [hstep, ← hbusy]
    exact refuses_rolledBack h hs hg

theorem mem_ports {ids : List LeaseId} {p : Port × LeaseId} (h : p ∈ m.ports ids) :
    p.2 ∈ ids ∧ ∃ l, m.pool.lease? p.2 = some l ∧ l.port = p.1 := by
  obtain ⟨id, hid, hp⟩ := List.mem_filterMap.mp h
  obtain ⟨l, hl, rfl⟩ := Option.map_eq_some_iff.mp hp
  exact ⟨hid, l, hl, rfl⟩

theorem map_snd_ports_onUsable {policy : Policy} {pool : Pool Hook} {ids : List LeaseId}
    (hon : OnUsable policy bindable pool m.pool ids) : (m.ports ids).map Prod.snd = ids := by
  refine map_snd_ports fun id hid => ?_
  obtain ⟨port, hl, -⟩ := hon id hid
  exact ⟨_, hl⟩

theorem lease_of_mem_ports {policy : Policy} {pool : Pool Hook} {ids : List LeaseId} {port : Port}
    (hon : OnUsable policy bindable pool m.pool ids) (hmem : (port, id) ∈ m.ports ids) :
    m.pool.lease? id = some { port } ∧ pool.isUsable policy bindable port = true := by
  obtain ⟨hid, l, hl, rfl⟩ := mem_ports hmem
  obtain ⟨port, hport, husable⟩ := hon id hid
  have heq : l = { port } := Option.some.inj (hl.symm.trans hport)
  exact heq ▸ ⟨hport, husable⟩

theorem step_granted (hs : m.stack = .body (.reserveMany count slot :: todo) current :: rest)
    (hok : Pool.checkCount count = .ok count.toNat) {ids : List LeaseId} {after : Course Hook}
    (hmore : m.course.reserveMore setting.policy setting.world count.toNat [] = (.ok ids, after)) :
    m.step setting =
      { m with
        pool := after.pool, asked := after.asked
        stack := .handOver (batchSlots slot
          ((((m.join after).ports ids).mergeSort fun a b => a.1 ≤ b.1).map Prod.snd)) ::
            .body todo current :: rest
        trace := .grantedMany ((m.join after).ports ids) :: (after.log.map Event.log ++ m.trace) } := by
  simp only [step, hs, perform, reserveMany, hok, push, emit, course, join_eq] at hmore ⊢
  rw [hmore]
  rfl

theorem grants_many (h : m.Sound setting.policy)
    (hs : m.stack = .body (.reserveMany count slot :: todo) current :: rest)
    (hlow : 1 ≤ count) (hhigh : count ≤ 65535)
    (hroom : count ≤ (m.pool.usablePorts setting.policy bindable).card) :
    ∃ leases, GrantsMany setting.policy bindable count slot m
      (m.step { setting with world := .steady scanStart bindable }) todo current rest leases := by
  have hok : Pool.checkCount count = .ok count.toNat := if_neg (by omega)
  rcases hmore : m.course.reserveMore setting.policy (.steady scanStart bindable) count.toNat [] with
    ⟨result, after⟩
  have hgrants := @Pool.reserveMore_grants Hook setting.policy m.pool []
    (.steady scanStart bindable) m.course count.toNat (.refl h.pool)
  rw [hmore] at hgrants
  cases batch_ends h count.toNat hmore with
  | exhausted hlt => omega
  | @granted ids _ _ hlength hon =>
    have hjoin : (m.join after).pool = after.pool := by rw [join_eq]
    have hon' : OnUsable setting.policy bindable m.pool (m.join after).pool ids := by rwa [hjoin]
    have hids := map_snd_ports_onUsable hon'
    have hadds : m.pool.Adds setting.policy (m.join after).pool ((m.join after).ports ids) := by
      refine Grants.adds h.pool ?_ fun port id hmem => (lease_of_mem_ports hon' hmem).1
      rw [hids, hjoin]
      exact hgrants
    have hcount : (((m.join after).ports ids).length : Int) = count := by
      rw [← List.length_map Prod.snd, hids, hlength, Nat.zero_add]
      exact Int.toNat_of_nonneg (by omega)
    refine ⟨(m.join after).ports ids, ?_⟩
    rw [step_granted hs hok hmore]
    refine ⟨hcount, ?_, fun port id hmem => (lease_of_mem_ports hon' hmem).2, rfl, rfl,
      ⟨after.log, rfl⟩⟩
    rwa [hjoin] at hadds

theorem room_unprobed (h : m.Sound setting.policy) (hprobe : setting.policy.probeBind = false) :
    (m.pool.usablePorts setting.policy bindable).card =
      setting.policy.capacity - m.pool.takenCount := by
  rw [Pool.usablePorts_unprobed hprobe, h.pool.card_freePorts]

theorem GrantsMany.allOrNone (h : m.Sound setting.policy) {leases : List (Port × LeaseId)}
    (hg : GrantsMany setting.policy bindable count slot m m' todo current rest leases)
    (hlow : 1 ≤ count) (hhigh : count ≤ 65535)
    (hroom : count ≤ (m.pool.usablePorts setting.policy bindable).card) :
    AllOrNone setting bindable count slot m m' todo current rest where
  granted_iff := iff_of_true ⟨leases, hg⟩ ⟨hlow, hhigh, hroom⟩
  refused_iff error := by
    refine iff_of_false hg.not_refuses fun hgrounds => ?_
    cases hgrounds <;> omega
  room := room_unprobed h

theorem Refuses.allOrNone (h : m.Sound setting.policy) (hr : Refuses setting m m' current rest error)
    (hgrounds : Grounds setting.policy bindable count m error) :
    AllOrNone setting bindable count slot m m' todo current rest where
  granted_iff := by
    refine iff_of_false (fun ⟨_, hg⟩ => hg.not_refuses hr) ?_
    rintro ⟨hlow, hhigh, hroom⟩
    cases hgrounds <;> omega
  refused_iff other := by
    constructor
    · intro hother
      exact hother.unique hr ▸ hgrounds
    · intro hother
      cases hgrounds <;> cases hother <;> first | exact hr | omega
  room := room_unprobed h

theorem step_allOrNone (h : m.Sound setting.policy)
    (hs : m.stack = .body (.reserveMany count slot :: todo) current :: rest) :
    AllOrNone setting bindable count slot m
      (m.step { setting with world := .steady scanStart bindable }) todo current rest := by
  by_cases hbad : count < 1 ∨ 65535 < count
  · exact (refuses_badCount h hs hbad).allOrNone h (.badCount hbad)
  · have hlow : 1 ≤ count := by omega
    have hhigh : count ≤ 65535 := by omega
    by_cases hroom : count ≤ (m.pool.usablePorts setting.policy bindable).card
    · obtain ⟨leases, hg⟩ := grants_many h hs hlow hhigh hroom
      exact hg.allOrNone h hlow hhigh hroom
    · have hless := Int.not_le.mp hroom
      exact (refuses_exhausted h hs hlow hhigh hless).allOrNone h (.exhausted hlow hhigh hless)

end Batch

end Machine

theorem many_ports_all_or_none (h : Reachable setting m)
    (hs : m.stack = .body (.reserveMany count slot :: todo) current :: rest)
    (scanStart : Nat → Port) (bindable : Port → Bool) :
    Machine.AllOrNone setting bindable count slot m
      (m.step { setting with world := .steady scanStart bindable }) todo current rest :=
  Machine.step_allOrNone h.sound hs

def Machine.batchAhead : Machine := Machine.oneTaken.start [.reserveMany 2 (some "b")]

theorem many_ports_all_or_none_full :
    Reachable .narrow .batchAhead ∧
      Machine.batchAhead.stack = .body [.reserveMany 2 (some "b")] none :: Machine.oneTaken.stack ∧
      Machine.AllOrNone .narrow (fun _ => true) 2 (some "b") .batchAhead
        (Machine.batchAhead.step
          { Setting.narrow with world := .steady (fun _ => 1024) fun _ => true })
        [] none Machine.oneTaken.stack ∧
      (Machine.batchAhead.step
        { Setting.narrow with
          world := .steady (fun _ => 1024) fun _ => true }).pool.takenCount = 3 := by
  have hempty : Machine.oneTaken.stack = [] := List.isEmpty_iff.mp (by decide +kernel)
  have h : Reachable .narrow .batchAhead := ((Reachable.fresh.start rfl _).run 5).start hempty _
  exact ⟨h, rfl, many_ports_all_or_none h rfl (fun _ => 1024) fun _ => true, by decide +kernel⟩

end PortLease.Script
