import PortLease.Proofs.Script.Turn

namespace PortLease.Script

variable {m m' : Machine} {id : LeaseId} {n : Nat}

def Event.startsHook (n : Nat) : Event → Bool
  | .hookStarted _ hook .. => hook == n
  | _ => false

def Event.endsHook (n : Nat) : Event → Bool
  | .hookEnded _ hook _ => hook == n
  | _ => false

namespace Machine

def starts (m : Machine) (n : Nat) : Nat := m.trace.countP (Event.startsHook n)

def ends (m : Machine) (n : Nat) : Nat := m.trace.countP (Event.endsHook n)

def queues (m : Machine) : List Queue := m.resting.toList ++ m.running

def line (m : Machine) : List (LeaseId × Hook) :=
  m.queues.flatMap fun q => q.todo.map (Prod.mk q.lease)

def Held (m : Machine) (id : LeaseId) : Prop := ∃ l, m.pool.lease? id = some l ∧ l.state = .held

theorem held_iff : m.Held id ↔ ∃ port, terms m.pool id = some (port, .held) := by
  simp only [Held, terms, Option.map_eq_some_iff, Prod.mk.injEq]
  constructor
  · rintro ⟨l, hl, hheld⟩
    exact ⟨l.port, l, hl, rfl, hheld⟩
  · rintro ⟨port, l, hl, -, hheld⟩
    exact ⟨l, hl, hheld⟩

theorem starts_marks : m.starts n = m.marks.countP (Event.startsHook n) := by
  rw [marks, List.countP_filter, starts]
  congr 1
  funext e
  cases e <;> simp [Event.startsHook, Event.isMark]

theorem ends_marks : m.ends n = m.marks.countP (Event.endsHook n) := by
  rw [marks, List.countP_filter, ends]
  congr 1
  funext e
  cases e <;> simp [Event.endsHook, Event.isMark]

theorem starts_started {lease : LeaseId} {number : Nat} {name : String} {port : Port}
    {current : Option LeaseId} {taken : Nat}
    (h : m'.trace = .hookStarted lease number name port current taken :: m.trace) :
    m'.starts n = m.starts n + if number = n then 1 else 0 := by
  rw [starts, h, List.countP_cons, starts]
  simp [Event.startsHook]

theorem ends_started {lease : LeaseId} {number : Nat} {name : String} {port : Port}
    {current : Option LeaseId} {taken : Nat}
    (h : m'.trace = .hookStarted lease number name port current taken :: m.trace) :
    m'.ends n = m.ends n := by
  rw [ends, h, List.countP_cons, ends]
  simp [Event.endsHook]

theorem starts_ended {lease : LeaseId} {number : Nat} {failure : Option Failure}
    (h : m'.trace = .hookEnded lease number failure :: m.trace) : m'.starts n = m.starts n := by
  rw [starts, h, List.countP_cons, starts]
  simp [Event.startsHook]

theorem ends_ended {lease : LeaseId} {number : Nat} {failure : Option Failure}
    (h : m'.trace = .hookEnded lease number failure :: m.trace) :
    m'.ends n = m.ends n + if number = n then 1 else 0 := by
  rw [ends, h, List.countP_cons, ends]
  simp [Event.endsHook]

end Machine

inductive Shift (m m' : Machine) : Prop
  | steady (hkeeps : Keeps m.pool m'.pool) (hline : m'.line = m.line)
      (hstarts : ∀ n, m'.starts n = m.starts n) (hnext : m'.hooks = m.hooks)
  | registered {id : LeaseId} {port : Port} {hook : Hook}
      (hid : terms m.pool id = some (port, .held)) (hnumber : hook.number = m.hooks)
      (hterms : ∀ x, terms m'.pool x = terms m.pool x)
      (hhooks : ∀ x, hooksOf m'.pool x =
        if x = id then hook :: hooksOf m.pool id else hooksOf m.pool x)
      (hline : m'.line = m.line) (hstarts : ∀ n, m'.starts n = m.starts n)
      (hnext : m'.hooks = m.hooks + 1)
  | taken {id : LeaseId} {port : Port} {state : LeaseState}
      (hid : terms m.pool id = some (port, .held)) (hid' : terms m'.pool id = some (port, state))
      (hstate : state ≠ .held) (hterms : ∀ x, x ≠ id → terms m'.pool x = terms m.pool x)
      (hhooks : ∀ x, hooksOf m'.pool x = if x = id then [] else hooksOf m.pool x)
      (hline : m'.line = (hooksOf m.pool id).map (Prod.mk id) ++ m.line)
      (hstarts : ∀ n, m'.starts n = m.starts n) (hnext : m'.hooks = m.hooks)
  | late {id : LeaseId} {port : Port} {state : LeaseState} {hook : Hook}
      (hid : terms m.pool id = some (port, state)) (hstate : state ≠ .held)
      (hnumber : hook.number = m.hooks) (hpool : m'.pool = m.pool)
      (hline : m'.line = (id, hook) :: m.line) (hstarts : ∀ n, m'.starts n = m.starts n)
      (hnext : m'.hooks = m.hooks + 1)
  | started {lease : LeaseId} {hook : Hook} (hkeeps : Keeps m.pool m'.pool)
      (hline : m.line = (lease, hook) :: m'.line)
      (hstarts : ∀ n, m'.starts n = m.starts n + if hook.number = n then 1 else 0)
      (hnext : m'.hooks = m.hooks)

namespace Machine

theorem queues_none (h : m.resting = none) : m.queues = m.running := by
  simp [queues, h]

theorem queues_some {q : Queue} (h : m.resting = some q) : m.queues = q :: m.running := by
  simp [queues, h]

theorem line_none (h : m.resting = none) :
    m.line = m.running.flatMap fun q => q.todo.map (Prod.mk q.lease) := by
  rw [line, queues_none h]

theorem line_some {q : Queue} (h : m.resting = some q) :
    m.line = q.todo.map (Prod.mk q.lease) ++ m.running.flatMap fun q => q.todo.map (Prod.mk q.lease) := by
  rw [line, queues_some h, List.flatMap_cons]

theorem starts_eq (h : m'.marks = m.marks) : m'.starts n = m.starts n := by
  rw [starts_marks, h, ← starts_marks]

theorem ends_eq (h : m'.marks = m.marks) : m'.ends n = m.ends n := by
  rw [ends_marks, h, ← ends_marks]

end Machine

open Machine (line_none line_some starts_eq starts_started starts_ended)

theorem Turn.shift (h : Turn m m') : Shift m m' := by
  cases h with
  | idle heq =>
    subst heq
    exact .steady (.refl _) rfl (fun _ => rfl) rfl
  | quiet hkeeps hresting hresting' hrunning hmarks hnext =>
    refine .steady hkeeps ?_ (fun n => starts_eq hmarks) hnext
    rw [line_none hresting, line_none hresting', hrunning]
  | finished hkeeps hresting htodo hresting' hrunning hmarks hnext =>
    refine .steady hkeeps ?_ (fun n => starts_eq hmarks) hnext
    rw [line_some hresting, line_none hresting', hrunning, htodo, List.map_nil, List.nil_append]
  | registered hid hnumber hterms hhooks hresting hresting' hrunning hmarks hnext =>
    refine .registered hid hnumber hterms hhooks ?_ (fun n => starts_eq hmarks) hnext
    rw [line_none hresting, line_none hresting', hrunning]
  | taken hid hid' hstate hterms hhooks hresting hresting' hrunning hmarks hnext =>
    refine .taken hid hid' hstate hterms hhooks ?_ (fun n => starts_eq hmarks) hnext
    rw [line_none hresting, line_some hresting', hrunning]
  | late hid hstate hnumber hpool hresting hresting' hrunning hmarks hnext =>
    refine .late hid hstate hnumber hpool ?_ (fun n => starts_eq hmarks) hnext
    rw [line_none hresting, line_some hresting', hrunning]
    rfl
  | @started q hook todo hkeeps hresting htodo hresting' hrunning htrace hstack hnext =>
    have hline : m.line = (q.lease, hook) :: m'.line := by
      rw [line_some hresting, line_none hresting', hrunning, htodo]
      rfl
    exact .started hkeeps hline (fun n => starts_started htrace) hnext
  | ended hkeeps hresting hrunning hresting' htrace hnext =>
    refine .steady hkeeps ?_ (fun n => starts_ended htrace) hnext
    rw [line_none hresting, line_some hresting', hrunning, List.flatMap_cons]

end PortLease.Script
