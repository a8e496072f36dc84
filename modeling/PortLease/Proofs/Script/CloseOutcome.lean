import PortLease.Proofs.Script.CloseTells

/-!
What comes of the close of a held lease. The hooks the lease has when it is closed are run newest first, and
the close fails just when one of them has failed, with one text for each that has, in the order in which
they ran. How other hooks end that run meanwhile is not told. Whatever the hooks do, the lease is over
and its port is free of it; if they lease nothing and end no lease, nothing else has changed.
-/

namespace PortLease.Script

variable {setting : Setting} {m m' : Machine} {id : LeaseId} {port : Port} {verify : Bool}
  {base : List Frame}

structure FreesOnly (port : Port) (pool pool' : Pool Hook) : Prop where
  taken : pool'.taken = pool.taken.erase port
  registry : ∀ p : Port, pool'.registry[p]? = if p = port then none else pool.registry[p]?

theorem Machine.Closes.frees (h : m.Sound setting.policy) {below : List Frame}
    (hcloses : m.Closes id verify below) {l : Lease Hook} (hl : m.pool.lease? id = some l)
    (hheld : l.state = .held) : FreesOnly l.port m.pool (m.step setting).pool := by
  have hnamed : m.pool.registry[l.port]? = some id :=
    (h.pool.registry_iff _ _).mpr ⟨l, hl, hheld, rfl⟩
  rw [hcloses.step_held hl hheld]
  constructor
  · simp only [Pool.release, Pool.registry_update, hnamed, if_true, Pool.taken_update]
  · intro p
    rw [Pool.registry_release, Pool.registry_update, hnamed]
    simp only [and_true, eq_comm]

theorem port_stays (h : Reachable setting m) (hl : Leads setting m m') {state : LeaseState}
    (hterms : terms m.pool id = some (port, state)) :
    ∃ state', terms m'.pool id = some (port, state') := by
  induction hl with
  | refl => exact ⟨state, hterms⟩
  | tail hl hmove ih =>
    obtain ⟨state', hport⟩ := ih
    exact ((h.leads hl).turn hmove).shift.port hport

theorem holds_iff_terms {pool : Pool Hook} : pool.Holds id port ↔ terms pool id = some (port, .held) := by
  simp only [Pool.Holds, terms, Option.map_eq_some_iff, Prod.mk.injEq]
  apply exists_congr
  intro l
  rw [and_comm (a := l.port = port)]

theorem registry_of_states (h : Reachable setting m) (hl : Leads setting m m')
    (hsame : ∀ x, m'.state? x = m.state? x) :
    m'.pool.taken = m.pool.taken ∧ ∀ p : Port, m'.pool.registry[p]? = m.pool.registry[p]? := by
  have hsound := h.sound.pool
  have hsound' := (h.leads hl).sound.pool
  have hholds (x : LeaseId) (p : Port) : m'.pool.Holds x p ↔ m.pool.Holds x p := by
    rw [holds_iff_terms, holds_iff_terms]
    cases hterms : terms m.pool x with
    | none =>
      have hnone := hsame x
      rw [Machine.state?_eq, Machine.state?_eq, hterms, Option.map_none, Option.map_eq_none_iff] at hnone
      rw [hnone]
    | some t =>
      obtain ⟨state', hport⟩ := port_stays h hl hterms
      have hstate := hsame x
      rw [Machine.state?_eq, Machine.state?_eq, hterms, hport, Option.map_some, Option.map_some,
        Option.some.injEq] at hstate
      rw [hport, show state' = t.2 from hstate]
  have hregistry (p : Port) : m'.pool.registry[p]? = m.pool.registry[p]? := by
    apply Option.ext
    intro x
    rw [hsound'.registry_iff, hsound.registry_iff, hholds]
  refine ⟨?_, hregistry⟩
  apply PortSet.eq_of_contains hsound'.counted hsound.counted
  intro p
  rw [Bool.eq_iff_iff, hsound'.taken_iff, hsound.taken_iff]
  simp only [hregistry]

def Machine.OnlyFails (m : Machine) : Prop :=
  ∀ action todo current rest, m.stack = .body (action :: todo) current :: rest →
    ∃ failure, action = .fail failure

def Idly (setting : Setting) (k : Nat) : Machine → Machine → Prop :=
  Relation.ReflTransGen fun m m' =>
    k < m.stack.length ∧ Move setting m m' ∧ (m' = m.step setting → m.OnlyFails)

inductive Frame.ClosesPort (port : Port) : Frame → Prop
  | hooks {id : LeaseId} {running : Nat} {todo : List Hook} {failures : List String} {verify : Bool} :
      ClosesPort port (.hooks id port running todo failures (.close verify))
  | check {query : Nat} {failures : List String} : ClosesPort port (.check port query failures)

inductive Frame.IsBare : Frame → Prop
  | body {todo : List Action} : IsBare (.body todo none)
  | ending {failure : Option Failure} : IsBare (.ending none failure)

structure Idle (port : Port) (base : List Frame) (pool : Pool Hook) (m : Machine) : Prop where
  pool : m.pool = pool
  stack : m.stack.length = base.length ∨ ∃ f, f.ClosesPort port ∧
    (m.stack = f :: base ∨ ∃ g, g.IsBare ∧ m.stack = g :: f :: base)

theorem Frame.ClosesPort.isPlain {f : Frame} (hf : f.ClosesPort port) : f.isPlain = false := by
  cases hf <;> rfl

variable {pool : Pool Hook}

theorem Idle.turn (hfree : m.pool.current? port = none) {f : Frame} (hf : f.ClosesPort port)
    (hs : m.stack = f :: base) : Idle port base m.pool (m.step setting) := by
  cases hf with
  | @hooks id running todo failures verify =>
    cases todo with
    | cons hook todo =>
      have hstep : (m.step setting).pool = m.pool ∧ (m.step setting).stack = .body hook.body none ::
          .hooks id port hook.number todo failures (.close verify) :: base := by
        simp only [Machine.step, hs, Machine.push, Machine.startHook_eq, hfree]
        exact ⟨rfl, trivial⟩
      exact ⟨hstep.1, .inr ⟨_, .hooks, .inr ⟨_, .body, hstep.2⟩⟩⟩
    | nil =>
      cases hcheck : verify && setting.policy.checkRelease with
      | true =>
        obtain ⟨rfl, hcheck⟩ := Bool.and_eq_true_iff.mp hcheck
        rw [Machine.step_asks hcheck hs]
        exact ⟨rfl, .inr ⟨_, .check, .inr ⟨_, .body, rfl⟩⟩⟩
      | false =>
        rw [Machine.step_settles hcheck hs]
        exact ⟨rfl, .inl (length_settled _ _)⟩
  | check =>
    rw [Machine.step_answers hs]
    exact ⟨rfl, .inl (length_settled _ _)⟩

theorem Idle.covered (hfails : m.OnlyFails) {f g : Frame} (hf : f.ClosesPort port) (hg : g.IsBare)
    (hs : m.stack = g :: f :: base) : Idle port base m.pool (m.step setting) := by
  cases hg with
  | @body todo =>
    have hstep : (m.step setting).pool = m.pool ∧
        ∃ failure, (m.step setting).stack = .ending none failure :: f :: base := by
      cases todo with
      | nil =>
        simp only [Machine.step, hs, Machine.push]
        exact ⟨trivial, none, rfl⟩
      | cons action todo =>
        obtain ⟨failure, rfl⟩ := hfails _ _ _ _ hs
        simp only [Machine.step, hs, Machine.push, Machine.perform, Machine.raise]
        exact ⟨trivial, some failure, rfl⟩
    obtain ⟨hpool, failure, hs'⟩ := hstep
    exact ⟨hpool, .inr ⟨f, hf, .inr ⟨_, .ending, hs'⟩⟩⟩
  | @ending failure =>
    simp only [Machine.step, hs, Machine.endBody]
    cases hf with
    | hooks => exact ⟨rfl, .inr ⟨_, .hooks, .inl rfl⟩⟩
    | check => exact ⟨rfl, .inr ⟨_, .check, .inl rfl⟩⟩

theorem Idle.redirect (h : Idle port base pool m) (hdeep : base.length < m.stack.length)
    (actions : List Action) : Idle port base pool (m.redirect actions) := by
  refine ⟨m.redirect_pool actions ▸ h.pool, ?_⟩
  obtain hlen | ⟨f, hf, hs | ⟨g, hg, hs⟩⟩ := h.stack
  · omega
  · rw [Machine.redirect_bare hf.isPlain hs]
    exact .inr ⟨f, hf, .inl hs⟩
  · refine .inr ⟨f, hf, .inr ⟨.body actions none, .body, ?_⟩⟩
    cases hg <;> simp only [Machine.redirect, hs]

theorem Idle.along (hfree : pool.current? port = none) (h : Idle port base pool m)
    (hidly : Idly setting base.length m m') : Idle port base pool m' := by
  induction hidly with
  | refl => exact h
  | tail _ hmove ih =>
    obtain ⟨hdeep, hmove, hfails⟩ := hmove
    cases hmove with
    | redirect actions => exact ih.redirect hdeep actions
    | step =>
      obtain ⟨rfl, hstack⟩ := ih
      obtain hlen | ⟨f, hf, hs | ⟨g, hg, hs⟩⟩ := hstack
      · omega
      · exact .turn hfree hf hs
      · exact .covered (hfails rfl) hf hg hs

/-- How the close of a lease by `m` has come out in `m'`, where it has returned. -/
structure Outcome (setting : Setting) (m m' : Machine) (id : LeaseId) (l : Lease Hook)
    (todo : List Action) (current : Option LeaseId) (rest : List Frame) : Prop where
  ran : (m'.endingsOf l.hooks).map Prod.fst = l.hooks.map Hook.number
  succeeds_iff : m'.stack = .body todo current :: rest ↔ ∀ e ∈ m'.endingsOf l.hooks, e.2 = none
  fails_iff : ∀ failure, m'.stack = .ending current (some failure) :: rest ↔
    (∃ e ∈ m'.endingsOf l.hooks, e.2 ≠ none) ∧
      failure = .error (.hooksFailed l.port (failureTexts (m'.endingsOf l.hooks)))
  panics : ∀ n message, (n, some (.panic (some message))) ∈ m'.endingsOf l.hooks →
    "panicked: " ++ message ∈ failureTexts (m'.endingsOf l.hooks)
  closed : m'.state? id = some .closed
  unregistered : ∀ p : Port, m'.pool.registry[p]? ≠ some id
  bit : m'.pool.taken.contains l.port = true ↔ ∃ other, other ≠ id ∧ m'.Live other l.port
  untouched : (∀ x, m'.state? x = (m.step setting).state? x) → FreesOnly l.port m.pool m'.pool

structure CloseOutcome (setting : Setting) (m : Machine) (id : LeaseId) (l : Lease Hook)
    (todo : List Action) (current : Option LeaseId) (rest : List Frame) : Prop where
  newestFirst : l.hooks.Pairwise fun newer older => older.number < newer.number
  outcome : ∀ m', Within setting m.stack.length (m.step setting) m' →
    m'.stack.length ≤ m.stack.length → Outcome setting m m' id l todo current rest
  returns : ∀ run : Nat → Machine, run 0 = m.step setting → (∀ n, Move setting (run n) (run (n + 1))) →
    Resumes setting m.stack.length run →
      ∃ n, Within setting m.stack.length (m.step setting) (run n) ∧ (run n).stack.length ≤ m.stack.length
  idle : ∀ m', Idly setting m.stack.length (m.step setting) m' →
    FreesOnly l.port m.pool m'.pool ∧ ∀ x, x ≠ id → m'.pool.lease? x = m.pool.lease? x

theorem failureTexts_eq_nil {endings : List (Nat × Option Failure)} :
    failureTexts endings = [] ↔ ∀ e ∈ endings, e.2 = none := by
  simp only [failureTexts, List.filterMap_eq_nil_iff, Option.map_eq_none_iff]

section Returned

variable {hooks : List Hook} {todo : List Action} {current : Option LeaseId} {rest : List Frame}

theorem Told.succeeds_iff (h : Told port hooks todo current rest m) :
    m.stack = .body todo current :: rest ↔ ∀ e ∈ m.endingsOf hooks, e.2 = none := by
  rw [← failureTexts_eq_nil, h.stack, afterClose, ← List.isEmpty_iff]
  split
  · rename_i hnil
    exact iff_of_true rfl hnil
  · rename_i hfailures
    exact iff_of_false (by simp) hfailures

theorem Told.fails_iff (h : Told port hooks todo current rest m) (failure : Failure) :
    m.stack = .ending current (some failure) :: rest ↔
      (∃ e ∈ m.endingsOf hooks, e.2 ≠ none) ∧
        failure = .error (.hooksFailed port (failureTexts (m.endingsOf hooks))) := by
  have hsome : (∃ e ∈ m.endingsOf hooks, e.2 ≠ none) ↔ ¬ (failureTexts (m.endingsOf hooks)).isEmpty := by
    rw [List.isEmpty_iff, failureTexts_eq_nil]
    simp only [not_forall, exists_prop]
  rw [hsome, h.stack, afterClose]
  split
  · rename_i hnil
    exact iff_of_false (by simp) fun hand => hand.1 hnil
  · rename_i hfailures
    simp only [List.cons.injEq, Frame.ending.injEq, true_and, and_true, Option.some.injEq]
    rw [and_iff_right hfailures]
    exact eq_comm

theorem Told.ran (h : Told port hooks todo current rest m) :
    (m.endingsOf hooks).map Prod.fst = hooks.map Hook.number := by
  have hran := h.tells.ran
  rwa [List.append_nil] at hran

end Returned

theorem mem_failureTexts {n : Nat} {failure : Failure} {endings : List (Nat × Option Failure)}
    (h : (n, some failure) ∈ endings) : failure.text ∈ failureTexts endings :=
  List.mem_filterMap.mpr ⟨_, h, rfl⟩

theorem Within.leads {k : Nat} (hw : Within setting k m m') : Leads setting m m' :=
  Relation.ReflTransGen.mono (fun _ _ h => h.2) _ _ hw

theorem FreesOnly.same {pool pool' pool'' : Pool Hook} (h : FreesOnly port pool pool')
    (htaken : pool''.taken = pool'.taken)
    (hregistry : ∀ p : Port, pool''.registry[p]? = pool'.registry[p]?) : FreesOnly port pool pool'' where
  taken := htaken.trans h.taken
  registry p := (hregistry p).trans (h.registry p)

theorem close_outcome {todo : List Action} {current : Option LeaseId} {rest : List Frame}
    (h : Reachable setting m) (hcloses : m.Closes id verify (.body todo current :: rest)) {l : Lease Hook}
    (hl : m.pool.lease? id = some l) (hheld : l.state = .held) :
    CloseOutcome setting m id l todo current rest := by
  have hlen : m.stack.length = rest.length + 1 := hcloses.length
  obtain ⟨htaken, hongoing⟩ := @Machine.Closes.begins setting m id verify h _ hcloses l hl hheld
  have hfrees := @Machine.Closes.frees setting m id verify h.sound _ hcloses l hl hheld
  have hclosed : (m.step setting).state? id = some .closed := by
    apply hcloses.closed
    rw [Machine.state?, hl, Option.map_some, hheld]
  have hstep := @Machine.Closes.step_held setting m id verify _ hcloses l hl hheld
  constructor
  case newestFirst =>
    have hdescending := h.numbered.descending id
    rwa [hooksOf, hl, Option.map_some, Option.getD_some] at hdescending
  case outcome =>
    intro m' hw hreturned
    rw [hlen] at hw hreturned
    obtain ⟨ht', htold⟩ := hongoing.told htaken hw hreturned
    have hclosed' := h.step.stays_over hclosed (by decide) hw.leads
    obtain ⟨l', hl', hstate⟩ := Machine.state?_eq_some hclosed'
    obtain ⟨hunregistered, hbit⟩ := ht'.reachable.sound.freed hl' (by rw [hstate]; decide)
    refine ⟨htold.ran, htold.succeeds_iff, htold.fails_iff, fun n message hmem => mem_failureTexts hmem,
      hclosed', hunregistered, hbit l.port, fun hsame => ?_⟩
    obtain ⟨hsameTaken, hsameRegistry⟩ := registry_of_states h.step hw.leads hsame
    exact hfrees.same hsameTaken hsameRegistry
  case returns =>
    intro run hzero hrun hresumes
    rw [hlen] at hresumes ⊢
    rw [← hzero] at htaken hongoing ⊢
    exact within_first hrun (hongoing.returns hrun hresumes htaken)
  case idle =>
    intro m' hidly
    have hfree : (m.step setting).pool.current? l.port = none := by
      rw [Pool.current?, hfrees.registry, if_pos rfl]
      rfl
    have hbegins : Idle l.port (.body todo current :: rest) (m.step setting).pool (m.step setting) := by
      rw [hstep]
      exact ⟨rfl, .inr ⟨_, .hooks, .inl rfl⟩⟩
    rw [show m.stack.length = (Frame.body todo current :: rest).length from hlen] at hidly
    have hpool := (hbegins.along hfree hidly).pool
    rw [hpool]
    refine ⟨hfrees, fun x hx => ?_⟩
    rw [hstep, Pool.lease?_release, Pool.lease?_update, if_neg hx]

def Machine.mixed : Machine :=
  (({} : Machine).start [.reserve 5000 (some "a"), .onClose "a" "older" [.fail (.reasons ["down"])],
    .onClose "a" "quiet" [.onClose "a" "late" [.fail (.panic none)]],
    .onClose "a" "newer" [.fail (.panic (some "boom"))], .close "a" false]).run Setting.lone 6

theorem close_outcome_mixed :
    Reachable Setting.lone .mixed ∧ ∃ l, Machine.mixed.pool.lease? 1 = some l ∧ l.state = .held ∧
      Machine.mixed.Closes 1 false [.body [] none] ∧
      CloseOutcome Setting.lone .mixed 1 l [] none [] ∧
      (Machine.mixed.run Setting.lone 20).endingsOf l.hooks =
        [(2, some (.panic (some "boom"))), (1, none), (0, some (.reasons ["down"]))] ∧
      (Machine.mixed.run Setting.lone 20).outcome =
        some (.error (.hooksFailed 5000 ["panicked: boom", "down"])) := by
  have h : Reachable Setting.lone .mixed := (Reachable.fresh.start rfl _).run 6
  have hcloses : Machine.mixed.Closes 1 false [.body [] none] := .slot rfl rfl
  exact ⟨h, _, rfl, rfl, hcloses, close_outcome h hcloses rfl rfl, by decide +kernel, by decide +kernel⟩

end PortLease.Script
