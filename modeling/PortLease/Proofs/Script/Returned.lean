import PortLease.Proofs.Script.Kept

namespace PortLease.Script

variable {setting : Setting} {m m' : Machine} {id : LeaseId} {hook : Hook} {n k : Nat}

def Machine.Registers (m : Machine) (id : LeaseId) (hook : Hook) : Prop :=
  hook.number = m.hooks ∧ ∃ slot todo current rest, m.slots[slot]? = some id ∧
    m.stack = .body (.onClose slot hook.name hook.body :: todo) current :: rest

def Machine.Releases (m : Machine) (setting : Setting) (id : LeaseId) : Prop :=
  m.Held id ∧ ¬ (m.step setting).Held id

/-- The call that the next step of `m` makes is over in `m'`. -/
def Returns (setting : Setting) (m m' : Machine) : Prop :=
  Leads setting (m.step setting) m' ∧ m'.stack.length ≤ m.stack.length

def Machine.runs (m : Machine) (n : Nat) : Nat := m.running.countP fun q => q.running == n

open Machine (starts_eq ends_eq starts_started ends_started starts_ended ends_ended queues_none
  queues_some line_some references_slot)

theorem Turn.tally (ht : Turn m m') (h : m.starts n = m.ends n + m.runs n) :
    m'.starts n = m'.ends n + m'.runs n := by
  unfold Machine.runs at h ⊢
  cases ht with
  | idle heq => exact heq ▸ h
  | quiet _ _ _ hrunning hmarks | finished _ _ _ _ hrunning hmarks
  | registered _ _ _ _ _ _ hrunning hmarks | taken _ _ _ _ _ _ _ hrunning hmarks
  | late _ _ _ _ _ _ hrunning hmarks =>
    rw [starts_eq hmarks, ends_eq hmarks, hrunning]
    exact h
  | started _ _ _ _ hrunning htrace =>
    rw [starts_started htrace, ends_started htrace, hrunning, List.countP_cons]
    simp only [beq_iff_eq]
    omega
  | ended _ _ hrunning _ htrace =>
    rw [starts_ended htrace, ends_ended htrace]
    rw [hrunning, List.countP_cons] at h
    simp only [beq_iff_eq] at h
    omega

theorem Reachable.tally (h : Reachable setting m) : m.starts n = m.ends n + m.runs n := by
  induction h with
  | refl => rfl
  | tail hm hmove ih => exact (Reachable.turn hm hmove).tally ih

theorem Turn.mem_queues (ht : Turn m m') {q : Queue} (hq : q ∈ m'.queues) :
    (∃ q' ∈ m.queues, q'.depth = q.depth ∧ q'.lease = q.lease ∧ q'.port = q.port ∧
      ∀ h ∈ q.todo, h ∈ q'.todo) ∨
    (q.depth = m.stack.length ∧ (∃ state ≠ .held, terms m'.pool q.lease = some (q.port, state)) ∧
      ∀ h ∈ q.todo, m.Held q.lease ∧ h ∈ hooksOf m.pool q.lease ∨ h.number = m.hooks) := by
  have hsame (hq : q ∈ m.queues) : ∃ q' ∈ m.queues, q'.depth = q.depth ∧ q'.lease = q.lease ∧
      q'.port = q.port ∧ ∀ h ∈ q.todo, h ∈ q'.todo := ⟨q, hq, rfl, rfl, rfl, fun _ h => h⟩
  cases ht with
  | idle heq => exact .inl (hsame (heq ▸ hq))
  | quiet _ hresting hresting' hrunning | registered _ _ _ _ hresting hresting' hrunning =>
    rw [queues_none hresting', hrunning, ← queues_none hresting] at hq
    exact .inl (hsame hq)
  | finished _ hresting _ hresting' hrunning =>
    rw [queues_none hresting', hrunning] at hq
    exact .inl (hsame (queues_some hresting ▸ List.mem_cons_of_mem _ hq))
  | @taken id port state hid hid' hstate _ _ hresting hresting' hrunning =>
    rw [queues_some hresting', hrunning, ← queues_none hresting] at hq
    obtain rfl | hq := List.mem_cons.mp hq
    · refine .inr ⟨rfl, ⟨state, hstate, hid'⟩, fun h hmem => .inl ⟨?_, hmem⟩⟩
      exact Machine.held_iff.mpr ⟨port, hid⟩
    · exact .inl (hsame hq)
  | @late id port state hook hid hstate hnumber hpool hresting hresting' hrunning =>
    rw [queues_some hresting', hrunning, ← queues_none hresting] at hq
    obtain rfl | hq := List.mem_cons.mp hq
    · refine .inr ⟨rfl, ⟨state, hstate, hpool ▸ hid⟩, fun h hmem => .inr ?_⟩
      rw [List.mem_singleton.mp hmem, hnumber]
    · exact .inl (hsame hq)
  | @started q₀ hook todo _ hresting htodo hresting' hrunning =>
    rw [queues_none hresting', hrunning] at hq
    obtain rfl | hq := List.mem_cons.mp hq
    · refine .inl ⟨q₀, queues_some hresting ▸ List.mem_cons_self, rfl, rfl, rfl, fun h hmem => ?_⟩
      rw [htodo]
      exact List.mem_cons_of_mem _ hmem
    · exact .inl (hsame (queues_some hresting ▸ List.mem_cons_of_mem _ hq))
  | ended _ hresting hrunning hresting' =>
    rw [queues_some hresting', ← hrunning, ← queues_none hresting] at hq
    exact .inl (hsame hq)

theorem Reachable.queue_over (h : Reachable setting m) {q : Queue} (hq : q ∈ m.queues) :
    ∃ state ≠ .held, terms m.pool q.lease = some (q.port, state) := by
  induction h generalizing q with
  | refl => cases hq
  | tail hm hmove ih =>
    have ht := Reachable.turn hm hmove
    obtain ⟨q', hq', -, hlease, hport, -⟩ | ⟨-, hover, -⟩ := ht.mem_queues hq
    · obtain ⟨state, hstate, hterms⟩ := ih hq'
      exact ⟨state, hstate, hlease ▸ hport ▸ ht.shift.stays_ended hterms hstate⟩
    · exact hover

structure Clear (k n : Nat) (m : Machine) : Prop where
  todo : ∀ q ∈ m.queues, q.depth < k → ∀ h ∈ q.todo, h.number ≠ n
  running : ∀ q ∈ m.running, q.depth < k → q.running ≠ n

theorem Clear.turn (h : Clear k n m) (ht : Turn m m')
    (hnew : k ≤ m.stack.length ∨ n < m.hooks ∧
      ∀ id, ∀ hook ∈ hooksOf m.pool id, hook.number = n → ¬ m.Held id) : Clear k n m' := by
  constructor
  · intro q hq hdepth hook hmem hnumber
    obtain ⟨q', hq', hdepth', -, -, hsub⟩ | ⟨hdepth', -, hfrom⟩ := ht.mem_queues hq
    · exact h.todo q' hq' (hdepth' ▸ hdepth) hook (hsub hook hmem) hnumber
    · obtain hle | ⟨hlt, hover⟩ := hnew
      · omega
      · obtain ⟨hheld, hwaits⟩ | hnext := hfrom hook hmem
        · exact hover q.lease hook hwaits hnumber hheld
        · omega
  · cases ht with
    | idle heq => exact heq ▸ h.running
    | quiet _ _ _ hrunning | finished _ _ _ _ hrunning | registered _ _ _ _ _ _ hrunning
    | taken _ _ _ _ _ _ _ hrunning | late _ _ _ _ _ _ hrunning =>
      rw [hrunning]
      exact h.running
    | @started q hook todo _ hresting htodo _ hrunning =>
      intro q' hq' hdepth
      rw [hrunning] at hq'
      obtain rfl | hq' := List.mem_cons.mp hq'
      · refine h.todo q ?_ hdepth hook (htodo ▸ List.mem_cons_self)
        rw [queues_some hresting]
        exact List.mem_cons_self
      · exact h.running q' hq' hdepth
    | ended _ _ hrunning =>
      intro q' hq' hdepth
      exact h.running q' (hrunning ▸ List.mem_cons_of_mem _ hq') hdepth

theorem Machine.queues_eq : m.queues = Script.queues m.stack := by
  unfold queues running resting
  cases m.stack <;> rfl

theorem Kept.over_waiting (h : Kept id hook m) (hover : ¬ m.Held id) :
    ∀ x, ∀ other ∈ hooksOf m.pool x, other.number ≠ hook.number := by
  intro x other hmem heq
  obtain ⟨rfl, rfl⟩ := h.alone x other (.inl hmem) heq
  exact hover (h.held.mpr hmem)

theorem Kept.over_leads (h : Kept id hook m) (hr : Reachable setting m) (hover : ¬ m.Held id)
    (hl : Leads setting m m') : ¬ m'.Held id := by
  induction hl with
  | refl => exact hover
  | tail hl hmove ih => exact (Reachable.turn (hr.leads hl) hmove).shift.not_held (h.leads hr hl).lease ih

theorem Kept.clear_leads (h : Kept id hook m) (hr : Reachable setting m) (hover : ¬ m.Held id)
    (hc : Clear k hook.number m) (hl : Leads setting m m') : Clear k hook.number m' := by
  induction hl with
  | refl => exact hc
  | tail hl hmove ih =>
    have hk := h.leads hr hl
    refine ih.turn (Reachable.turn (hr.leads hl) hmove) (.inr ⟨hk.known, fun x other hmem heq => ?_⟩)
    exact absurd heq (hk.over_waiting (h.over_leads hr hover hl) x other hmem)

theorem Kept.whereabouts (h : Kept id hook m) (hr : Reachable setting m) (hover : ¬ m.Held id) :
    (m.line.map Prod.snd).countP (Hook.isNumber hook.number) + m.ends hook.number +
      m.runs hook.number = 1 := by
  have hwaiting : (hooksOf m.pool id).countP (Hook.isNumber hook.number) = 0 :=
    countP_isNumber (h.over_waiting hover id)
  have honce := h.once
  have htally := @Reachable.tally setting m hook.number hr
  simp only [places] at honce
  omega

theorem Kept.returned (h : Kept id hook m) (hr : Reachable setting m) (hover : ¬ m.Held id)
    (hc : Clear k hook.number m) (hlen : m.stack.length ≤ k) :
    m.starts hook.number = 1 ∧ m.ends hook.number = 1 := by
  -- Every queue that is left lies below the call, so the one place of the hook is among those started.
  have hdepth {q : Queue} (hq : q ∈ m.queues) : q.depth < k := by
    rw [Machine.queues_eq] at hq
    have := depth_lt_of_mem_queues hq
    omega
  have hline : (m.line.map Prod.snd).countP (Hook.isNumber hook.number) = 0 := by
    apply countP_isNumber
    intro other hmem
    obtain ⟨⟨x, other⟩, hx, rfl⟩ := List.mem_map.mp hmem
    obtain ⟨q, hq, hother⟩ := List.mem_flatMap.mp hx
    obtain ⟨_, hother, heq⟩ := List.mem_map.mp hother
    cases heq
    exact hc.todo q hq (hdepth hq) other hother
  have hruns : m.runs hook.number = 0 := by
    apply List.countP_eq_zero.mpr
    intro q hq
    have hmem : q ∈ m.queues := List.mem_append_right _ hq
    simpa using hc.running q hq (hdepth hmem)
  have hwhere := h.whereabouts hr hover
  have htally := @Reachable.tally setting m hook.number hr
  omega

theorem clear_of_line (hline : ∀ x ∈ m.line, x.2.number ≠ n) (hstarts : m.starts n = 0)
    (hr : Reachable setting m) : Clear m.stack.length n m := by
  constructor
  · intro q hq _ h hmem
    exact hline (q.lease, h) (List.mem_flatMap.mpr ⟨q, hq, List.mem_map.mpr ⟨h, hmem, rfl⟩⟩)
  · intro q hq _ heq
    have htally := @Reachable.tally setting m n hr
    have hpos : 0 < m.runs n := List.countP_pos_iff.mpr ⟨q, hq, by simpa using heq⟩
    omega

theorem Kept.line_held (h : Kept id hook m) (hheld : m.Held id) :
    ∀ x ∈ m.line, x.2.number ≠ hook.number := by
  have hwaits := h.waits hheld
  intro x hx heq
  have hqueued : 0 < (m.line.map Prod.snd).countP (Hook.isNumber hook.number) :=
    List.countP_pos_iff.mpr ⟨x.2, List.mem_map_of_mem hx, by simpa [Hook.isNumber] using heq⟩
  have honce := h.once
  simp only [places] at honce
  omega

theorem Kept.released (h : Kept id hook m) (hr : Reachable setting m)
    (hrel : m.Releases setting id) (hret : Returns setting m m') :
    m'.starts hook.number = 1 ∧ m'.ends hook.number = 1 := by
  obtain ⟨hheld, hover⟩ := hrel
  have ht := Reachable.turn hr (.step m)
  have hk := h.shift ht.shift
  have hc := (clear_of_line (h.line_held hheld) (h.starts_held hheld) hr).turn ht (.inl le_rfl)
  exact (hk.leads hr.step hret.1).returned (hr.step.leads hret.1) (hk.over_leads hr.step hover hret.1)
    (hk.clear_leads hr.step hover hc hret.1) hret.2

theorem Machine.Registers.step (hreg : m.Registers id hook) : ∃ todo current rest,
    m.step setting =
      ({ m with stack := .body todo current :: rest } : Machine).onClose id hook.name hook.body := by
  obtain ⟨hnumber, slot, todo, current, rest, hslot, hs⟩ := hreg
  refine ⟨todo, current, rest, ?_⟩
  simp only [Machine.step, hs, push, perform, withSlot, hslot]

theorem Machine.Registers.lease (hreg : m.Registers id hook) (hr : Reachable setting m) :
    ∃ l, m.pool.lease? id = some l := by
  obtain ⟨-, slot, todo, current, rest, hslot, -⟩ := hreg
  obtain ⟨l, hl, -⟩ := hr.sound.lease (references_slot hslot)
  exact ⟨l, hl⟩

theorem Machine.Registers.known (hreg : m.Registers id hook) (hr : Reachable setting m) :
    Known (m.step setting) id hook := by
  obtain ⟨l, hl⟩ := hreg.lease hr
  obtain ⟨todo, current, rest, hstep⟩ := @Machine.Registers.step setting m id hook hreg
  have hhook : (⟨m.hooks, hook.name, hook.body⟩ : Hook) = hook := by
    rw [← hreg.1]
  rw [hstep]
  simp only [onClose, hhook]
  by_cases hheld : l.state = .held
  · rw [Pool.addHook_held hl hheld]
    left
    simp only
    rw [hooksOf_update hl, if_pos rfl]
    exact List.mem_cons_self
  · rw [Pool.addHook_over hl hheld]
    right
    simp only [hl, push]
    rw [line_some rfl]
    exact List.mem_append_left _ (List.mem_singleton.mpr rfl)

theorem Machine.Registers.kept (hreg : m.Registers id hook) (hr : Reachable setting m) :
    Kept id hook (m.step setting) :=
  hr.step.kept (hreg.known hr)

theorem Machine.Registers.late (hreg : m.Registers id hook) (hr : Reachable setting m)
    (hover : ¬ m.Held id) (hret : Returns setting m m') :
    m'.starts hook.number = 1 ∧ m'.ends hook.number = 1 := by
  obtain ⟨l, hl⟩ := hreg.lease hr
  have ht := Reachable.turn hr (.step m)
  have hn := hr.numbered
  have hk := hreg.kept hr
  have hover' := ht.shift.not_held ⟨(l.port, l.state), by simp [terms, hl]⟩ hover
  have hfresh : Clear m.stack.length hook.number m := by
    refine clear_of_line (fun x hx => ?_) (hn.started _ (Nat.le_of_eq hreg.1.symm)) hr
    have hlt := hn.known x.1 x.2 (.inr hx)
    rw [hreg.1]
    exact Nat.ne_of_lt hlt
  have hc := hfresh.turn ht (.inl le_rfl)
  exact (hk.leads hr.step hret.1).returned (hr.step.leads hret.1)
    (hk.over_leads hr.step hover' hret.1) (hk.clear_leads hr.step hover' hc hret.1) hret.2

theorem Reachable.begins (hr : Reachable setting m) {name : String} {port : Port}
    {current : Option LeaseId} {taken : Nat}
    (he : (m.step setting).trace = .hookStarted id n name port current taken :: m.trace) :
    ∃ q ∈ m.queues, ∃ hook ∈ q.todo, hook.number = n ∧ hook.name = name ∧ q.lease = id ∧
      q.port = port ∧ current = m.pool.current? port ∧
      ∃ rest, (m.step setting).stack = .body hook.body current :: rest := by
  have hmarks : (m.step setting).marks = .hookStarted id n name port current taken :: m.marks := by
    rw [Machine.marks, he]
    rfl
  cases Reachable.turn hr (.step m) with
  | idle heq =>
    rw [heq] at he
    exact absurd he.symm (List.cons_ne_self _ _)
  | quiet _ _ _ _ hsame | finished _ _ _ _ _ hsame | registered _ _ _ _ _ _ _ hsame
  | taken _ _ _ _ _ _ _ _ hsame | late _ _ _ _ _ _ _ hsame =>
    rw [hsame] at hmarks
    exact absurd hmarks.symm (List.cons_ne_self _ _)
  | @started q hook todo _ hresting htodo _ _ htrace hstack =>
    rw [htrace] at he
    simp only [List.cons.injEq, Event.hookStarted.injEq, and_true] at he
    obtain ⟨hlease, hnumber, hname, rfl, rfl, -⟩ := he
    refine ⟨q, ?_, hook, ?_, hnumber, hname, hlease, rfl, rfl, hstack⟩
    · rw [queues_some hresting]
      exact List.mem_cons_self
    · rw [htodo]
      exact List.mem_cons_self
  | ended _ _ _ _ htrace =>
    rw [htrace] at he
    simp at he

theorem Kept.itself (h : Kept id hook m) (hr : Reachable setting m) {lease : LeaseId} {name : String}
    {port : Port} {current : Option LeaseId} {taken : Nat}
    (he : (m.step setting).trace =
      .hookStarted lease hook.number name port current taken :: m.trace) :
    lease = id ∧ name = hook.name ∧
      ∃ rest, (m.step setting).stack = .body hook.body current :: rest := by
  obtain ⟨q, hq, other, hmem, hnumber, hname, hlease, -, -, hstack⟩ := hr.begins he
  have hline : (q.lease, other) ∈ m.line :=
    List.mem_flatMap.mpr ⟨q, hq, List.mem_map.mpr ⟨other, hmem, rfl⟩⟩
  obtain ⟨rfl, rfl⟩ := h.alone _ _ (.inr hline) hnumber
  exact ⟨hlease.symm, hname.symm, hstack⟩

end PortLease.Script
