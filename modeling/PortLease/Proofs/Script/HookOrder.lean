import PortLease.Proofs.Script.Returned

/-!
When hooks run. Every hook that is registered is started once, never while its lease is held, and has
ended when the call returns that released its lease, or the one that registered it if that came too
late. The hooks of a lease run newest first, one after another, and each begins when the port is free of
its lease and is told who holds the port instead.
-/

namespace PortLease.Script

open Machine (starts_eq ends_eq starts_started ends_started starts_ended ends_ended)

variable {setting : Setting} {m m' : Machine} {id : LeaseId} {a b n : Nat}

structure RunsOnce (setting : Setting) (m : Machine) (id : LeaseId) (hook : Hook) : Prop where
  once : ∀ m', Leads setting (m.step setting) m' → m'.starts hook.number ≤ 1
  held : ∀ m', Leads setting (m.step setting) m' → m'.Held id → m'.starts hook.number = 0
  released : m.Held id → ∀ m' m'', Leads setting (m.step setting) m' → m'.Releases setting id →
    Returns setting m' m'' → m''.starts hook.number = 1 ∧ m''.ends hook.number = 1
  late : ¬ m.Held id → ∀ m', Returns setting m m' →
    m'.starts hook.number = 1 ∧ m'.ends hook.number = 1
  itself : ∀ m', Leads setting (m.step setting) m' → ∀ lease name port current taken,
    (m'.step setting).trace = .hookStarted lease hook.number name port current taken :: m'.trace →
      lease = id ∧ name = hook.name ∧
        ∃ rest, (m'.step setting).stack = .body hook.body current :: rest

/-- The hooks that wait with a lease when `m` is about to release it run newest first, and each ends before
the next begins. -/
def NewestFirst (setting : Setting) (m : Machine) (id : LeaseId) : Prop :=
  ∀ newer ∈ hooksOf m.pool id, ∀ older ∈ hooksOf m.pool id, older.number < newer.number →
    ∀ m', Leads setting (m.step setting) m' →
      0 < m'.starts older.number → 0 < m'.ends newer.number

structure BeginsReleased (m : Machine) (id : LeaseId) (port : Port) (current : Option LeaseId) :
    Prop where
  ended : ∃ l, m.pool.lease? id = some l ∧ l.port = port ∧ l.state ≠ .held
  unregistered : ∀ p : Port, m.pool.registry[p]? ≠ some id
  bit : m.pool.taken.contains port = true ↔ ∃ other, other ≠ id ∧ m.Live other port
  current_iff : ∀ other, current = some other ↔ m.Live other port
  other : current ≠ some id

structure HooksInOrder (setting : Setting) (m : Machine) : Prop where
  runsOnce : ∀ id hook, m.Registers id hook → RunsOnce setting m id hook
  newestFirst : ∀ id, m.Releases setting id → NewestFirst setting m id
  released : ∀ id n name port current taken,
    (m.step setting).trace = .hookStarted id n name port current taken :: m.trace →
      BeginsReleased m id port current
  ends_le : ∀ n, m.ends n ≤ m.starts n

theorem Reachable.beginsReleased (hr : Reachable setting m) {name : String} {port : Port}
    {current : Option LeaseId} {taken : Nat}
    (he : (m.step setting).trace = .hookStarted id n name port current taken :: m.trace) :
    BeginsReleased m id port current := by
  obtain ⟨q, hq, hook, -, -, -, rfl, rfl, hcurrent, -⟩ := hr.begins he
  obtain ⟨state, hstate, hterms⟩ := hr.queue_over hq
  obtain ⟨l, hl, heq⟩ := Option.map_eq_some_iff.mp hterms
  obtain ⟨hport, rfl⟩ := Prod.mk.inj heq
  have hsound := hr.sound
  obtain ⟨hunregistered, hbit⟩ := hsound.freed hl hstate
  have hiff (other : LeaseId) : current = some other ↔ m.Live other q.port := by
    rw [hcurrent]
    exact hsound.current?_iff
  refine ⟨⟨l, hl, hport, hstate⟩, hunregistered, hbit q.port, hiff, fun heq => ?_⟩
  obtain ⟨l', hl', hheld, -⟩ := (hiff _).mp heq
  rw [hl] at hl'
  exact hstate (Option.some.inj hl' ▸ hheld)

def Precedes (a b : Nat) (l : List Nat) : Prop := ∀ pre post, l = pre ++ b :: post → a ∈ pre

theorem Precedes.of_notMem {l : List Nat} (h : b ∉ l) : Precedes a b l := by
  rintro pre post rfl
  exact absurd (List.mem_append_right pre List.mem_cons_self) h

theorem Precedes.head {c : Nat} {l : List Nat} (h : Precedes a b (c :: l)) : c ≠ b := by
  rintro rfl
  cases h [] l rfl

theorem Precedes.tail {c : Nat} {l : List Nat} (h : Precedes a b (c :: l)) (hne : c ≠ a) :
    Precedes a b l := by
  rintro pre post rfl
  have hmem := h (c :: pre) post rfl
  exact (List.mem_cons.mp hmem).resolve_left hne.symm

theorem Precedes.of_descending {l : List Nat} (h : l.Pairwise fun x y => y < x) (ha : a ∈ l)
    (hlt : b < a) : Precedes a b l := by
  rintro pre post rfl
  obtain ha | ha := List.mem_append.mp ha
  · exact ha
  · obtain rfl | ha := List.mem_cons.mp ha
    · omega
    · have hpost := (List.pairwise_cons.mp (List.pairwise_append.mp h).2.1).1 a ha
      omega

def Queue.numbers (q : Queue) : List Nat := q.todo.map Hook.number

/-- The hook `b` begins only after `a` has ended: wherever `b` is still to run, `a` is to run before, or
runs, or has ended. -/
structure Before (a b : Nat) (m : Machine) : Prop where
  ended : 0 < m.starts b → 0 < m.ends a
  resting : ∀ q, m.resting = some q → Precedes a b q.numbers ∨ 0 < m.ends a
  running : ∀ q ∈ m.running, Precedes a b q.numbers ∨ q.running = a ∨ 0 < m.ends a

theorem Before.turn (h : Before a b m) (ht : Turn m m') (hlt : b < m.hooks)
    (hover : ∀ id, ∀ hook ∈ hooksOf m.pool id, hook.number ≠ b) : Before a b m' := by
  have hold (hmarks : m'.marks = m.marks) (hrunning : m'.running = m.running)
      (hresting : ∀ q, m'.resting = some q → Precedes a b q.numbers) : Before a b m' := by
    constructor
    · rw [starts_eq hmarks, ends_eq hmarks]
      exact h.ended
    · exact fun q hq => .inl (hresting q hq)
    · rw [hrunning, ends_eq hmarks]
      exact h.running
  cases ht with
  | idle heq => exact heq ▸ h
  | quiet _ _ hresting' hrunning hmarks | finished _ _ _ hresting' hrunning hmarks
  | registered _ _ _ _ _ hresting' hrunning hmarks =>
    exact hold hmarks hrunning fun q hq => by rw [hresting'] at hq; cases hq
  | @taken id _ _ _ _ _ _ _ _ hresting' hrunning hmarks =>
    refine hold hmarks hrunning fun q hq => ?_
    rw [hresting', Option.some.injEq] at hq
    subst hq
    apply Precedes.of_notMem
    intro hmem
    obtain ⟨hook, hmem, heq⟩ := List.mem_map.mp hmem
    exact hover id hook hmem heq
  | @late _ _ _ hook _ _ hnumber _ _ hresting' hrunning hmarks =>
    refine hold hmarks hrunning fun q hq => ?_
    rw [hresting', Option.some.injEq] at hq
    subst hq
    apply Precedes.of_notMem
    simp only [Queue.numbers, List.map_cons, List.map_nil, List.mem_singleton]
    omega
  | @started q hook todo _ hresting htodo hresting' hrunning htrace =>
    have hrest := h.resting q hresting
    rw [Queue.numbers, htodo, List.map_cons] at hrest
    constructor
    · rw [starts_started htrace, ends_started htrace]
      obtain hrest | hrest := hrest
      · rw [if_neg hrest.head]
        exact h.ended
      · exact fun _ => hrest
    · intro q' hq'
      rw [hresting'] at hq'
      cases hq'
    · intro q' hq'
      rw [ends_started htrace]
      rw [hrunning] at hq'
      obtain rfl | hq' := List.mem_cons.mp hq'
      · by_cases hhook : hook.number = a
        · exact .inr (.inl hhook)
        · exact hrest.imp (fun hrest => hrest.tail hhook) .inr
      · exact h.running q' hq'
  | @ended q _ _ hresting hrunning hresting' htrace =>
    constructor
    · rw [starts_ended htrace, ends_ended htrace]
      exact fun hpos => Nat.add_pos_left (h.ended hpos) _
    · intro q' hq'
      rw [hresting', Option.some.injEq] at hq'
      subst hq'
      rw [ends_ended htrace]
      obtain hrun | hrun | hrun := h.running q (hrunning ▸ List.mem_cons_self)
      · exact .inl hrun
      · rw [if_pos hrun]
        exact .inr (Nat.succ_pos _)
      · exact .inr (Nat.add_pos_left hrun _)
    · intro q' hq'
      rw [ends_ended htrace]
      obtain hrun | hrun | hrun := h.running q' (hrunning ▸ List.mem_cons_of_mem _ hq')
      · exact .inl hrun
      · exact .inr (.inl hrun)
      · exact .inr (.inr (Nat.add_pos_left hrun _))

theorem Reachable.before (hr : Reachable setting m) (hrel : m.Releases setting id) {newer older : Hook}
    (hnewer : newer ∈ hooksOf m.pool id) (holder : older ∈ hooksOf m.pool id)
    (hlt : older.number < newer.number) : Before newer.number older.number (m.step setting) := by
  obtain ⟨hheld, hover⟩ := hrel
  have hk := hr.kept (.inl holder)
  have ht := Reachable.turn hr (.step m)
  have hzero : (m.step setting).starts older.number = 0 ∧
      (m.step setting).running = m.running ∧
      ∀ q, (m.step setting).resting = some q → q.numbers = (hooksOf m.pool id).map Hook.number := by
    obtain ⟨port, hport⟩ := Machine.held_iff.mp hheld
    have hsame (hsame : terms (m.step setting).pool id = some (port, .held)) : False :=
      hover (Machine.held_iff.mpr ⟨port, hsame⟩)
    cases ht with
    | idle heq =>
      rw [heq] at hover
      exact absurd hheld hover
    | quiet hkeeps | finished hkeeps | started hkeeps | ended hkeeps =>
      exact (hsame (hkeeps.terms _ _ hport)).elim
    | registered _ _ hterms => exact (hsame ((hterms id).trans hport)).elim
    | late _ _ _ hpool => exact (hsame (hpool ▸ hport)).elim
    | @taken x _ _ _ _ _ hterms _ _ hresting' hrunning hmarks =>
      have hx : id = x := Classical.byContradiction fun hx => hsame ((hterms id hx).trans hport)
      subst hx
      refine ⟨(starts_eq hmarks).trans (hk.starts_held hheld), hrunning, fun q hq => ?_⟩
      rw [hresting', Option.some.injEq] at hq
      subst hq
      rfl
  obtain ⟨hstarts, hrunning, hresting⟩ := hzero
  constructor
  · omega
  · intro q hq
    rw [hresting q hq]
    left
    apply Precedes.of_descending _ (List.mem_map_of_mem hnewer) hlt
    exact List.pairwise_map.mpr (hr.numbered.descending id)
  · intro q hq
    left
    apply Precedes.of_notMem
    intro hmem
    obtain ⟨hook, hmem, heq⟩ := List.mem_map.mp hmem
    rw [hrunning] at hq
    refine hk.line_held hheld (q.lease, hook) ?_ heq
    exact List.mem_flatMap.mpr ⟨q, List.mem_append_right _ hq, List.mem_map.mpr ⟨hook, hmem, rfl⟩⟩

theorem Reachable.newestFirst (hr : Reachable setting m) (hrel : m.Releases setting id) :
    NewestFirst setting m id := by
  intro newer hnewer older holder hlt m' hl
  have hk := (hr.kept (.inl holder)).shift (Reachable.turn hr (.step m)).shift
  have hbefore : Before newer.number older.number m' := by
    induction hl with
    | refl => exact hr.before hrel hnewer holder hlt
    | tail hl hmove ih =>
      have hk' := hk.leads hr.step hl
      exact ih.turn (Reachable.turn (hr.step.leads hl) hmove) hk'.known
        (hk'.over_waiting (hk.over_leads hr.step hrel.2 hl))
  exact hbefore.ended

theorem hooks_in_order (h : Reachable setting m) : HooksInOrder setting m := by
  constructor
  · intro id hook hreg
    have hk := hreg.kept h
    constructor
    · exact fun m' hl => (hk.leads h.step hl).starts_le
    · exact fun m' hl hheld => (hk.leads h.step hl).starts_held hheld
    · intro _ m' m'' hl hrel hret
      exact (hk.leads h.step hl).released (h.step.leads hl) hrel hret
    · exact fun hover m' hret => hreg.late h hover hret
    · intro m' hl lease name port current taken he
      exact (hk.leads h.step hl).itself (h.step.leads hl) he
  · exact fun id hrel => h.newestFirst hrel
  · exact fun id n name port current taken he => h.beginsReleased he
  · intro n
    have := h.tally (n := n)
    omega

def Machine.hooked : Machine :=
  (({} : Machine).start [.reserve 5000 (some "a"), .onClose "a" "older" [.fail (.panic none)],
    .onClose "a" "newer" [.reserve 5000 (some "b")], .close "a" false]).run Setting.lone 5

theorem hooks_in_order_hooked :
    Reachable Setting.lone .hooked ∧ HooksInOrder Setting.lone .hooked ∧
      (Machine.hooked.pool.lease? 1).map (fun l => (l.state, l.hooks.map Hook.name)) =
        some (.held, ["newer", "older"]) ∧
      ((Machine.hooked.step Setting.lone).pool.lease? 1).map Lease.state = some .closed := by
  have h : Reachable Setting.lone .hooked := (Reachable.fresh.start rfl _).run 5
  exact ⟨h, hooks_in_order h, by decide +kernel, by decide +kernel⟩

end PortLease.Script
