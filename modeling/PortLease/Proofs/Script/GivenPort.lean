import PortLease.Proofs.Pool.Room
import PortLease.Proofs.Script.LifeCycle

/-!
A given port, asked for in any state of a run. The number is refused just when it is that of no port
that may be leased. Else the port is found taken just when a lease on it is live, and it is leased anew
when there is none. A new lease keeps its port from all who ask until it is closed or nothing refers to
it any more, whatever happens meanwhile.
-/

namespace PortLease

namespace Pool

variable {η : Type} {policy : Policy} {pool : Pool η} {number : Int} {p : Port}

theorem reserve_refused {refusal : Refusal} (hcheck : policy.check number = .error refusal) :
    pool.reserve policy number = .error refusal := by
  simp only [reserve, hcheck]

theorem reserve_taken (hcheck : policy.check number = .ok p) (htaken : pool.taken.contains p = true) :
    pool.reserve policy number = .ok (none, pool, .alreadyReserved p) := by
  simp only [reserve, hcheck, htaken, if_true]

theorem reserve_free (hcheck : policy.check number = .ok p) (hfree : pool.taken.contains p = false) :
    pool.reserve policy number =
      .ok (some pool.nextId, (pool.lend p).2, .reserved p pool.nextId) := by
  simp only [reserve, hcheck, hfree, Bool.false_eq_true, if_false]
  rfl

end Pool

namespace Script

variable {setting : Setting} {m m' : Machine} {number : Int} {slot : Option Slot}
  {todo : List Action} {current : Option LeaseId} {rest : List Frame} {p : Port} {id : LeaseId}

namespace Machine

def RefusesNumber (policy : Policy) (number : Int) (m m' : Machine) (current : Option LeaseId)
    (rest : List Frame) : Prop :=
  ∃ refusal : Refusal, policy.check number = .error refusal ∧
    m' = { m with stack := .ending current (some (.error (.invalidPort refusal.text))) :: rest }

def FindsTaken (number : Int) (m m' : Machine) (todo : List Action) (current : Option LeaseId)
    (rest : List Frame) : Prop :=
  ∃ p : Port, number = p.val ∧ m' =
    { m with
      stack := .body todo current :: rest
      trace := .granted number none :: .log (.alreadyReserved p) :: m.trace }

/-- A move that neither closes the lease nor gives up the last reference to it. -/
structure Holding (setting : Setting) (id : LeaseId) (m m' : Machine) : Prop where
  move : Move setting m m'
  closes : m' = m.step setting → ∀ verify below, ¬ m.Closes id verify below
  referred : 0 < m'.references id

/-- Who asks for the number finds the lease, and who would reserve it finds it taken. -/
structure KeepsNumber (setting : Setting) (number : Int) (id : LeaseId) (m : Machine) : Prop where
  found : m.pool.find? number = some id
  taken : ∀ slot todo current rest, m.stack = .body (.reserve number slot :: todo) current :: rest →
    FindsTaken number m (m.step setting) todo current rest

/-- The port is leased anew, and the lease is on its way to the slot; no other port and no other lease
has changed. -/
structure LeasesNumber (setting : Setting) (number : Int) (slot : Option Slot) (m m' : Machine)
    (todo : List Action) (current : Option LeaseId) (rest : List Frame) (p : Port) (id : LeaseId) :
    Prop where
  port : Port.ofInt? number = some p
  issued : id = m.pool.nextId
  newest : ∀ other l, m.pool.lease? other = some l → other < id
  nextId : m'.pool.nextId = id + 1
  adds : m.pool.Adds setting.policy m'.pool [(p, id)]
  same : m' =
    { m with
      pool := m'.pool
      stack := .handOver [(slot, id)] :: .body todo current :: rest
      trace := .granted number (some id) :: .log (.reserved p id) :: m.trace }
  keeps : ∀ later, Relation.ReflTransGen (Holding setting id) m' later →
    KeepsNumber setting number id later

def IsLive (m : Machine) (number : Int) : Prop := ∃ p : Port, number = p.val ∧ ∃ id, m.Live id p

structure GivenPort (setting : Setting) (number : Int) (slot : Option Slot) (m m' : Machine)
    (todo : List Action) (current : Option LeaseId) (rest : List Frame) : Prop where
  refused_iff : RefusesNumber setting.policy number m m' current rest ↔
    setting.policy.isLeasable number = false
  notLeasable_iff : setting.policy.isLeasable number = false ↔
    number < 1024 ∨ 65535 < number ∨
      setting.policy.excluded.start.val ≤ number ∧ number ≤ setting.policy.excluded.stop.val
  taken_iff : FindsTaken number m m' todo current rest ↔
    setting.policy.isLeasable number = true ∧ m.IsLive number
  leased_iff : (∃ p id, LeasesNumber setting number slot m m' todo current rest p id) ↔
    setting.policy.isLeasable number = true ∧ ¬ m.IsLive number

theorem step_refused (hs : m.stack = .body (.reserve number slot :: todo) current :: rest)
    {refusal : Refusal} (hcheck : setting.policy.check number = .error refusal) :
    m.step setting =
      { m with stack := .ending current (some (.error (.invalidPort refusal.text))) :: rest } := by
  simp only [step, hs, perform, reserve, push, Pool.reserve_refused hcheck, raise]
  rfl

theorem step_taken (hs : m.stack = .body (.reserve number slot :: todo) current :: rest)
    (hcheck : setting.policy.check number = .ok p) (htaken : m.pool.taken.contains p = true) :
    m.step setting =
      { m with
        stack := .body todo current :: rest
        trace := .granted number none :: .log (.alreadyReserved p) :: m.trace } := by
  simp only [step, hs, perform, reserve, push, Pool.reserve_taken hcheck htaken, log, emit]

theorem step_leased (hs : m.stack = .body (.reserve number slot :: todo) current :: rest)
    (hcheck : setting.policy.check number = .ok p) (hfree : m.pool.taken.contains p = false) :
    m.step setting =
      { m with
        pool := (m.pool.lend p).2
        stack := .handOver [(slot, m.pool.nextId)] :: .body todo current :: rest
        trace := .granted number (some m.pool.nextId) :: .log (.reserved p m.pool.nextId) ::
          m.trace } := by
  simp only [step, hs, perform, reserve, push, Pool.reserve_free hcheck hfree, log, emit]

theorem Sound.contains_iff (h : m.Sound setting.policy) :
    m.pool.taken.contains p = true ↔ ∃ id, m.Live id p := by
  rw [h.pool.taken_iff]
  apply exists_congr
  intro id
  rw [h.pool.registry_iff, h.holds_iff]

theorem Sound.isLive_iff (h : m.Sound setting.policy) (hport : number = p.val) :
    m.IsLive number ↔ m.pool.taken.contains p = true := by
  rw [h.contains_iff]
  constructor
  · rintro ⟨q, hq, hlive⟩
    obtain rfl : p = q := Port.number_injective (hport.symm.trans hq)
    exact hlive
  · exact fun hlive => ⟨p, hport, hlive⟩

theorem Live.leasable (h : m.Sound setting.policy) (hlive : m.Live id p) :
    setting.policy.check p.val = .ok p :=
  Policy.check_ok_iff.mpr ⟨rfl, h.pool.candidate p (h.contains_iff.mpr ⟨id, hlive⟩)⟩

theorem Live.held (hlive : m.Live id p) : m.state? id = some .held := by
  obtain ⟨l, hl, hstate, -⟩ := hlive
  rw [state?, hl, Option.map_some, hstate]

theorem Live.terms (hlive : m.Live id p) : Script.terms m.pool id = some (p, .held) := by
  obtain ⟨l, hl, hstate, rfl, -⟩ := hlive
  rw [Script.terms, hl, Option.map_some, hstate]

theorem Holding.live (hhold : Holding setting id m m') (h : Reachable setting m) (hlive : m.Live id p) :
    m'.Live id p := by
  have hleaves := h.leaves_held hlive.held hhold.move
  have hheld : m'.state? id = some .held := by
    obtain hheld | hclosed | hreclaimed := hleaves.state
    · exact hheld
    · obtain ⟨hstep, verify, below, hcloses⟩ := hleaves.closed_iff.mp hclosed
      exact absurd hcloses (hhold.closes hstep verify below)
    · have hreferred := hhold.referred
      have hzero := hleaves.reclaimed_iff.mp hreclaimed
      omega
  obtain ⟨l, hl, hstate⟩ := state?_eq_some hheld
  obtain ⟨state, hport⟩ := (h.turn hhold.move).shift.port hlive.terms
  rw [Script.terms, hl, Option.map_some, Option.some.injEq, Prod.mk.injEq] at hport
  exact ⟨l, hl, hstate, hport.1, hhold.referred⟩

theorem live_along (h : Reachable setting m) (hlive : m.Live id p)
    (hrun : Relation.ReflTransGen (Holding setting id) m m') : Reachable setting m' ∧ m'.Live id p := by
  induction hrun with
  | refl => exact ⟨h, hlive⟩
  | tail _ hhold ih => exact ⟨ih.1.leads (.single hhold.move), hhold.live ih.1 ih.2⟩

theorem Live.keepsNumber (h : m.Sound setting.policy) (hlive : m.Live id p) :
    KeepsNumber setting p.val id m where
  found := Pool.find?_eq_some_iff.mpr ⟨p, rfl, h.current?_iff.mpr hlive⟩
  taken _ _ _ _ hs := ⟨p, rfl, step_taken hs (hlive.leasable h) (h.contains_iff.mpr ⟨id, hlive⟩)⟩

end Machine

open Machine

theorem Reachable.leases_number (h : Reachable setting m)
    (hs : m.stack = .body (.reserve number slot :: todo) current :: rest)
    (hcheck : setting.policy.check number = .ok p) (hfree : m.pool.taken.contains p = false) :
    LeasesNumber setting number slot m (m.step setting) todo current rest p m.pool.nextId := by
  obtain ⟨rfl, hcandidate⟩ := Policy.check_ok_iff.mp hcheck
  have hstep := step_leased hs hcheck hfree
  have hpool : (m.step setting).pool = (m.pool.lend p).2 := by rw [hstep]
  have hlease : (m.step setting).pool.lease? m.pool.nextId = some { port := p } := by
    rw [hpool, Pool.lease?_lend, if_pos rfl]
  have hgrants : Pool.Grants setting.policy m.pool (m.step setting).pool [m.pool.nextId] := by
    rw [hpool]
    exact (Pool.Grants.refl h.sound.pool).lend hfree hcandidate
  have hlive : (m.step setting).Live m.pool.nextId p :=
    h.step.sound.holds_iff.mp ⟨_, hlease, rfl, rfl⟩
  refine ⟨Port.ofInt?_eq_some_iff.mpr rfl, rfl, fun other l hl => Pool.lease?_lt hl, ?_, ?_, ?_, ?_⟩
  · rw [hpool, Pool.nextId_lend]
  · refine Pool.Grants.adds h.sound.pool hgrants fun port id hmem => ?_
    cases List.mem_singleton.mp hmem
    exact hlease
  · rw [hpool]
    exact hstep
  · intro later hrun
    obtain ⟨hlater, hlive'⟩ := live_along h.step hlive hrun
    exact hlive'.keepsNumber hlater.sound

theorem givenPort_refused
    (hs : m.stack = .body (.reserve number slot :: todo) current :: rest) {refusal : Refusal}
    (hcheck : setting.policy.check number = .error refusal) :
    GivenPort setting number slot m (m.step setting) todo current rest := by
  have hout : setting.policy.isLeasable number = false := by rw [Policy.isLeasable, hcheck]
  have hnot {P : Prop} : ¬ (setting.policy.isLeasable number = true ∧ P) := by
    rw [hout]
    exact fun hand => Bool.false_ne_true hand.1
  have hstep := step_refused hs hcheck
  refine ⟨iff_of_true ⟨refusal, hcheck, hstep⟩ hout, Policy.isLeasable_eq_false_iff,
    iff_of_false ?_ hnot, iff_of_false ?_ hnot⟩
  · rintro ⟨p, -, heq⟩
    cases congrArg Machine.stack (hstep.symm.trans heq)
  · rintro ⟨p, id, hleases⟩
    cases congrArg Machine.stack (hstep.symm.trans hleases.same)

theorem given_port_outcome (h : Reachable setting m)
    (hs : m.stack = .body (.reserve number slot :: todo) current :: rest) :
    GivenPort setting number slot m (m.step setting) todo current rest := by
  cases hcheck : setting.policy.check number with
  | error refusal => exact givenPort_refused hs hcheck
  | ok p =>
    have hin : setting.policy.isLeasable number = true := by rw [Policy.isLeasable, hcheck]
    have hport := (Policy.check_ok_iff.mp hcheck).1
    have hrefuses : RefusesNumber setting.policy number m (m.step setting) current rest ↔
        setting.policy.isLeasable number = false := by
      rw [hin]
      refine iff_of_false ?_ nofun
      rintro ⟨refusal, hrefusal, -⟩
      rw [hcheck] at hrefusal
      cases hrefusal
    refine ⟨hrefuses, Policy.isLeasable_eq_false_iff, ?_, ?_⟩
    · rw [h.sound.isLive_iff hport]
      cases htaken : m.pool.taken.contains p with
      | true => exact iff_of_true ⟨p, hport, step_taken hs hcheck htaken⟩ ⟨hin, rfl⟩
      | false =>
        refine iff_of_false ?_ nofun
        rintro ⟨q, -, heq⟩
        cases congrArg Machine.stack ((step_leased hs hcheck htaken).symm.trans heq)
    · rw [h.sound.isLive_iff hport]
      cases htaken : m.pool.taken.contains p with
      | true =>
        refine iff_of_false ?_ fun hand => hand.2 rfl
        rintro ⟨q, id, hleases⟩
        cases congrArg Machine.stack ((step_taken hs hcheck htaken).symm.trans hleases.same)
      | false =>
        exact iff_of_true ⟨p, m.pool.nextId, h.leases_number hs hcheck htaken⟩ ⟨hin, Bool.false_ne_true⟩

def Machine.closedOnce : Machine :=
  (({} : Machine).start [.reserve 5000 (some "a"), .close "a" false]).run Setting.lone 7

def Machine.asksAgain : Machine := Machine.closedOnce.start [.reserve 5000 (some "b")]

theorem given_port_outcome_again :
    Reachable Setting.lone .asksAgain ∧
      Machine.asksAgain.stack = .body [.reserve 5000 (some "b")] none :: Machine.closedOnce.stack ∧
      GivenPort Setting.lone 5000 (some "b") .asksAgain (Machine.asksAgain.step Setting.lone) [] none
        Machine.closedOnce.stack ∧
      Machine.asksAgain.state? 1 = some .closed ∧
      (Machine.asksAgain.step Setting.lone).state? 2 = some .held ∧
      (Machine.asksAgain.step Setting.lone).pool.registry[(5000 : Port)]? = some 2 := by
  have hempty : Machine.closedOnce.stack = [] := List.isEmpty_iff.mp (by decide +kernel)
  have h : Reachable Setting.lone .asksAgain := ((Reachable.fresh.start rfl _).run 7).start hempty _
  exact ⟨h, rfl, given_port_outcome h rfl, by decide +kernel, by decide +kernel, by decide +kernel⟩

end Script

end PortLease
