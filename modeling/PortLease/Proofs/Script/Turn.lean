import Mathlib.Data.List.Chain
import PortLease.Proofs.Script.Occupancy

namespace PortLease.Script

open Pool (Grants lease?_update lessHeld finished)

variable {setting : Setting} {m m' : Machine} {pool pool' : Pool Hook} {id : LeaseId}

structure Queue where
  depth : Nat
  lease : LeaseId
  port : Port
  running : Nat
  todo : List Hook

def Frame.queue? (depth : Nat) : Frame → Option Queue
  | .hooks lease port running todo _ _ => some ⟨depth, lease, port, running, todo⟩
  | _ => none

def queues : List Frame → List Queue
  | [] => []
  | f :: rest => (f.queue? rest.length).toList ++ queues rest

def resting : List Frame → Option Queue
  | [] => none
  | f :: rest => f.queue? rest.length

theorem Frame.queue?_isPlain {f : Frame} (hf : f.isPlain) (depth : Nat) : f.queue? depth = none := by
  cases f <;> first | rfl | cases hf

theorem depth_lt_of_mem_queues {stack : List Frame} {q : Queue} (h : q ∈ queues stack) :
    q.depth < stack.length := by
  induction stack with
  | nil => cases h
  | cons f rest ih =>
    rw [queues, List.mem_append, Option.mem_toList] at h
    obtain h | h := h
    · cases f <;> simp only [Frame.queue?, reduceCtorEq, Option.some.injEq] at h
      subst h
      exact Nat.lt_succ_self _
    · exact Nat.lt_succ_of_lt (ih h)

def Nested (stack : List Frame) : Prop := stack.IsChain fun f g => f.isCode ∨ g.isPlain

theorem Nested.tail {f : Frame} {rest : List Frame} (h : Nested (f :: rest)) : Nested rest :=
  List.IsChain.tail h

theorem Nested.top {f f' : Frame} {rest : List Frame} (h : Nested (f :: rest))
    (hcode : f.isCode → f'.isCode) : Nested (f' :: rest) :=
  List.IsChain.imp_head (fun hx => hx.imp_left hcode) h

theorem Nested.push {f g : Frame} {rest : List Frame} (h : Nested (f :: rest))
    (hcover : g.isCode ∨ f.isPlain) : Nested (g :: f :: rest) :=
  List.isChain_cons_cons.mpr ⟨hcover, h⟩

theorem Nested.resting {f : Frame} {rest : List Frame} (h : Nested (f :: rest)) (hf : f.isCode = false) :
    resting rest = none := by
  cases rest with
  | nil => rfl
  | cons g rest =>
    have hg := (List.isChain_cons_cons.mp h).1
    rw [hf] at hg
    exact Frame.queue?_isPlain (by simpa using hg) _

theorem Nested.settled {f : Frame} {rest : List Frame} (h : Nested rest) : Nested (settled f rest) := by
  unfold Script.settled
  split
  · split
    · exact h
    · exact h.top fun _ => rfl
  · exact h

theorem queues_settled (f : Frame) (rest : List Frame) : queues (settled f rest).tail = queues rest.tail := by
  unfold settled
  split
  · split <;> rfl
  · rfl

theorem resting_settled (f : Frame) (rest : List Frame) : resting (settled f rest) = resting rest := by
  unfold settled
  split
  · split <;> rfl
  · rfl

theorem queues_of_resting {rest : List Frame} (h : resting rest = none) : queues rest = queues rest.tail := by
  cases rest with
  | nil => rfl
  | cons f rest =>
    rw [resting] at h
    simp [queues, h]

def Event.isMark : Event → Bool
  | .hookStarted .. | .hookEnded .. => true
  | _ => false

theorem filter_isMark {events : List Event} (h : ∀ e ∈ events, e.isCalm) :
    events.filter Event.isMark = [] := by
  apply List.filter_eq_nil_iff.mpr
  intro e he hmark
  have hcalm := h e he
  cases e <;> simp_all [Event.isMark, Event.isCalm]

namespace Machine

def Nested (m : Machine) : Prop := Script.Nested m.stack

def resting (m : Machine) : Option Queue := Script.resting m.stack

def running (m : Machine) : List Queue := queues m.stack.tail

def marks (m : Machine) : List Event := m.trace.filter Event.isMark

theorem Nested.deed (h : m.Nested) (hd : Deed setting m m') : m'.Nested := by
  unfold Nested at h ⊢
  cases hd with
  | idle => exact h
  | pass events hs hf hf' =>
    rw [hs] at h
    exact h.top fun _ => hf'
  | grant events hs hf hf' =>
    rw [hs] at h
    exact (h.top fun _ => hf').push (.inr (Frame.isPlain_of_isCode hf'))
  | exhaust events hs hf hf' =>
    rw [hs] at h
    exact h.top fun _ => hf'
  | share events hs hf hf' =>
    rw [hs] at h
    exact (h.top fun _ => hf').push (.inr (Frame.isPlain_of_isCode hf'))
  | lessen hs hf hf' hcode | stored hs hf hf' hcode =>
    rw [hs] at h
    exact h.top fun hx => hcode.trans hx
  | ended hs hf hf' hcode =>
    rw [hs] at h
    exact (h.top fun hx => hcode.trans hx).push (.inr hf')
  | register hs =>
    rw [hs] at h
    exact h.top fun _ => rfl
  | late hs =>
    rw [hs] at h
    exact (h.top fun _ => rfl).push (.inr rfl)
  | handedOver hs | bodyEnded hs =>
    rw [hs] at h
    exact h.tail
  | hookEnded hs =>
    rw [hs] at h
    exact h.tail.top fun hx => hx
  | hookStarted hs =>
    rw [hs] at h
    exact Nested.push (h.top fun hx => hx) (.inl rfl)
  | queried hs =>
    rw [hs] at h
    exact Nested.push (h.top fun hx => by cases hx) (.inl rfl)
  | settle events hs =>
    rw [hs] at h
    exact h.tail.settled

theorem Nested.redirect (h : m.Nested) (todo : List Action) : (m.redirect todo).Nested := by
  unfold Nested at h ⊢
  unfold Machine.redirect
  split
  · rename_i hs
    rw [start, push, hs]
    exact List.isChain_singleton _
  · rename_i hs
    rw [hs] at h
    exact h.top fun _ => rfl
  · rename_i hs
    rw [hs] at h
    exact h.top fun _ => rfl
  · exact h

end Machine

theorem Reachable.nested (h : Reachable setting m) : m.Nested := by
  induction h with
  | refl => exact List.isChain_nil
  | @tail m m' hm hmove ih =>
    cases hmove with
    | step => exact ih.deed (Machine.step_deed (Reachable.sound hm))
    | redirect todo => exact ih.redirect todo

def terms (pool : Pool Hook) (id : LeaseId) : Option (Port × LeaseState) :=
  (pool.lease? id).map fun l => (l.port, l.state)

def hooksOf (pool : Pool Hook) (id : LeaseId) : List Hook :=
  ((pool.lease? id).map Lease.hooks).getD []

structure Keeps (pool pool' : Pool Hook) : Prop where
  terms : ∀ id t, terms pool id = some t → Script.terms pool' id = some t
  hooks : ∀ id, hooksOf pool' id = hooksOf pool id

theorem Keeps.refl (pool : Pool Hook) : Keeps pool pool := ⟨fun _ _ h => h, fun _ => rfl⟩

theorem Keeps.update {f : Lease Hook → Lease Hook} (hport : ∀ l, (f l).port = l.port)
    (hstate : ∀ l, (f l).state = l.state) (hhooks : ∀ l, (f l).hooks = l.hooks) :
    Keeps pool (pool.update id f) where
  terms x t ht := by
    rw [← ht]
    simp only [Script.terms, lease?_update]
    split <;> simp [*, Function.comp_def]
  hooks x := by
    simp only [hooksOf, lease?_update]
    split <;> simp [*, Function.comp_def]

theorem Keeps.retain : Keeps pool (pool.retain id) := by
  rw [Pool.retain_eq]
  exact update (fun _ => rfl) (fun _ => rfl) (fun _ => rfl)

theorem Keeps.grants {policy : Policy} {ids : List LeaseId} (hg : Grants policy pool pool' ids) :
    Keeps pool pool' := by
  constructor
  · intro x t ht
    obtain ⟨l, hl, rfl⟩ := Option.map_eq_some_iff.mp ht
    have hold : pool'.lease? x = pool.lease? x := hg.old x (Pool.lease?_lt hl)
    simp [Script.terms, hold, hl]
  · intro x
    by_cases hx : x < pool.nextId
    · simp [hooksOf, hg.old x hx]
    · have hle := Nat.not_lt.mp hx
      have hnone := Pool.lease?_of_le hle
      cases hl : pool'.lease? x with
      | none => simp [hooksOf, hl, hnone]
      | some l =>
        have hhooks : l.hooks = [] := by
          by_cases hmem : x ∈ ids
          · obtain ⟨-, port, hl'⟩ := hg.granted x hmem
            rw [hl] at hl'
            rw [Option.some.inj hl']
          · exact (hg.givenUp x l hle hmem hl).2.1
        simp [hooksOf, hl, hnone, hhooks]

inductive Turn (m m' : Machine) : Prop
  | idle (h : m' = m)
  | quiet (hkeeps : Keeps m.pool m'.pool) (hresting : m.resting = none)
      (hresting' : m'.resting = none) (hrunning : m'.running = m.running)
      (hmarks : m'.marks = m.marks) (hnext : m'.hooks = m.hooks)
  | finished {q : Queue} (hkeeps : Keeps m.pool m'.pool) (hresting : m.resting = some q)
      (htodo : q.todo = []) (hresting' : m'.resting = none) (hrunning : m'.running = m.running)
      (hmarks : m'.marks = m.marks) (hnext : m'.hooks = m.hooks)
  | registered {id : LeaseId} {port : Port} {hook : Hook}
      (hid : terms m.pool id = some (port, .held)) (hnumber : hook.number = m.hooks)
      (hterms : ∀ x, terms m'.pool x = terms m.pool x)
      (hhooks : ∀ x, hooksOf m'.pool x =
        if x = id then hook :: hooksOf m.pool id else hooksOf m.pool x)
      (hresting : m.resting = none) (hresting' : m'.resting = none)
      (hrunning : m'.running = m.running) (hmarks : m'.marks = m.marks)
      (hnext : m'.hooks = m.hooks + 1)
  | taken {id : LeaseId} {port : Port} {state : LeaseState}
      (hid : terms m.pool id = some (port, .held)) (hid' : terms m'.pool id = some (port, state))
      (hstate : state ≠ .held) (hterms : ∀ x, x ≠ id → terms m'.pool x = terms m.pool x)
      (hhooks : ∀ x, hooksOf m'.pool x = if x = id then [] else hooksOf m.pool x)
      (hresting : m.resting = none)
      (hresting' : m'.resting = some ⟨m.stack.length, id, port, 0, hooksOf m.pool id⟩)
      (hrunning : m'.running = m.running) (hmarks : m'.marks = m.marks) (hnext : m'.hooks = m.hooks)
  | late {id : LeaseId} {port : Port} {state : LeaseState} {hook : Hook}
      (hid : terms m.pool id = some (port, state)) (hstate : state ≠ .held)
      (hnumber : hook.number = m.hooks) (hpool : m'.pool = m.pool) (hresting : m.resting = none)
      (hresting' : m'.resting = some ⟨m.stack.length, id, port, 0, [hook]⟩)
      (hrunning : m'.running = m.running) (hmarks : m'.marks = m.marks)
      (hnext : m'.hooks = m.hooks + 1)
  | started {q : Queue} {hook : Hook} {todo : List Hook} (hkeeps : Keeps m.pool m'.pool)
      (hresting : m.resting = some q) (htodo : q.todo = hook :: todo) (hresting' : m'.resting = none)
      (hrunning : m'.running = { q with running := hook.number, todo } :: m.running)
      (htrace : m'.trace = .hookStarted q.lease hook.number hook.name q.port
        (m.pool.current? q.port) m.pool.takenCount :: m.trace)
      (hstack : ∃ rest, m'.stack = .body hook.body (m.pool.current? q.port) :: rest)
      (hnext : m'.hooks = m.hooks)
  | ended {q : Queue} {failure : Option Failure} (hkeeps : Keeps m.pool m'.pool)
      (hresting : m.resting = none) (hrunning : m.running = q :: m'.running)
      (hresting' : m'.resting = some q)
      (htrace : m'.trace = .hookEnded q.lease q.running failure :: m.trace)
      (hnext : m'.hooks = m.hooks)

theorem terms_update {f : Lease Hook → Lease Hook} {l : Lease Hook} (hl : pool.lease? id = some l)
    (x : LeaseId) :
    terms (pool.update id f) x = if x = id then some ((f l).port, (f l).state) else terms pool x := by
  simp only [terms, lease?_update]
  split <;> simp [hl]

theorem hooksOf_update {f : Lease Hook → Lease Hook} {l : Lease Hook} (hl : pool.lease? id = some l)
    (x : LeaseId) :
    hooksOf (pool.update id f) x = if x = id then (f l).hooks else hooksOf pool x := by
  simp only [hooksOf, lease?_update]
  split <;> simp [hl]

theorem terms_release (pool : Pool Hook) (port : Port) (x : LeaseId) :
    terms (pool.release id port) x = terms pool x := by
  simp [terms]

theorem hooksOf_release (pool : Pool Hook) (port : Port) (x : LeaseId) :
    hooksOf (pool.release id port) x = hooksOf pool x := by
  simp [hooksOf]

theorem Machine.marks_append {events trace : List Event} (h : ∀ e ∈ events, e.isCalm) :
    (events ++ trace).filter Event.isMark = trace.filter Event.isMark := by
  rw [List.filter_append, filter_isMark h, List.nil_append]

theorem Machine.resting_isPlain {f : Frame} {rest : List Frame} (hs : m.stack = f :: rest)
    (hf : f.isPlain) : m.resting = none := by
  rw [resting, hs]
  exact Frame.queue?_isPlain hf _

theorem Machine.running_cons {f : Frame} {rest : List Frame} (hs : m.stack = f :: rest) :
    m.running = queues rest := by
  rw [running, hs, List.tail_cons]

theorem queues_isPlain {f : Frame} {rest : List Frame} (hf : f.isPlain) :
    queues (f :: rest) = queues rest := by
  simp [queues, Frame.queue?_isPlain hf]

theorem Turn.top {f f' : Frame} {rest : List Frame} (hs : m.stack = f :: rest) (hf : f.isPlain)
    (hs' : m'.stack = f' :: rest) (hf' : f'.isPlain) (hkeeps : Keeps m.pool m'.pool)
    (hmarks : m'.marks = m.marks) (hnext : m'.hooks = m.hooks) : Turn m m' := by
  refine .quiet hkeeps (Machine.resting_isPlain hs hf) (Machine.resting_isPlain hs' hf') ?_ hmarks hnext
  rw [Machine.running_cons hs, Machine.running_cons hs']

theorem Turn.push {f f' g : Frame} {rest : List Frame} (hs : m.stack = f :: rest) (hf : f.isPlain)
    (hs' : m'.stack = g :: f' :: rest) (hf' : f'.isPlain) (hg : g.isPlain)
    (hkeeps : Keeps m.pool m'.pool) (hmarks : m'.marks = m.marks) (hnext : m'.hooks = m.hooks) :
    Turn m m' := by
  refine .quiet hkeeps (Machine.resting_isPlain hs hf) (Machine.resting_isPlain hs' hg) ?_ hmarks hnext
  rw [Machine.running_cons hs, Machine.running_cons hs', queues_isPlain hf']

theorem Turn.pop {f : Frame} {rest rest' : List Frame} (hs : m.stack = f :: rest)
    (hf : f.queue? rest.length = none) (hs' : m'.stack = rest') (hrest : resting rest = none)
    (hrest' : resting rest' = none) (hrunning : queues rest'.tail = queues rest.tail)
    (hkeeps : Keeps m.pool m'.pool) (hmarks : m'.marks = m.marks) (hnext : m'.hooks = m.hooks) :
    Turn m m' := by
  refine .quiet hkeeps ?_ ?_ ?_ hmarks hnext
  · rw [Machine.resting, hs]
    exact hf
  · rw [Machine.resting, hs']
    exact hrest'
  · rw [Machine.running_cons hs, Machine.running, hs', hrunning, queues_of_resting hrest]

theorem Deed.turn (hn : m.Nested) (hd : Deed setting m m') : Turn m m' := by
  unfold Machine.Nested at hn
  cases hd with
  | idle => exact .idle rfl
  | pass events hs hf hf' _ he =>
    exact .top hs (Frame.isPlain_of_isCode hf) rfl (Frame.isPlain_of_isCode hf') (.refl _)
      (Machine.marks_append he) rfl
  | grant events hs hf hf' _ hg _ he =>
    exact .push hs (Frame.isPlain_of_isCode hf) rfl (Frame.isPlain_of_isCode hf') rfl (.grants hg)
      (Machine.marks_append he) rfl
  | exhaust events hs hf hf' _ hg he =>
    exact .top hs (Frame.isPlain_of_isCode hf) rfl (Frame.isPlain_of_isCode hf') (.grants hg)
      (Machine.marks_append he) rfl
  | share events hs hf hf' _ _ he =>
    exact .push hs (Frame.isPlain_of_isCode hf) rfl (Frame.isPlain_of_isCode hf') rfl .retain
      (Machine.marks_append he) rfl
  | lessen hs hf hf' =>
    exact .top hs hf rfl hf' (.update (fun _ => rfl) (fun _ => rfl) (fun _ => rfl)) rfl rfl
  | stored hs hf hf' => exact .top hs hf rfl hf' (.refl _) rfl rfl
  | @ended f f' rest slots id l occasion become gone record hs hf hf' _ _ hl hheld hend =>
    have hbecome : (become l).port = l.port ∧ (become l).state ≠ .held ∧ (become l).hooks = [] := by
      cases hend <;> simp [finished, lessHeld]
    have hid : terms m.pool id = some (l.port, .held) := by simp [terms, hl, hheld]
    have hhooks : hooksOf m.pool id = l.hooks := by simp [hooksOf, hl]
    have hid' : terms ((m.pool.update id become).release id l.port) id =
        some (l.port, (become l).state) := by
      rw [terms_release, terms_update hl, if_pos rfl, hbecome.1]
    refine .taken hid hid' hbecome.2.1 ?_ ?_ (Machine.resting_isPlain hs hf) ?_ ?_ rfl rfl
    · intro x hx
      rw [terms_release, terms_update hl, if_neg hx]
    · intro x
      rw [hooksOf_release, hooksOf_update hl, hbecome.2.2]
    · rw [hhooks, hs]
      rfl
    · rw [Machine.running_cons hs]
      exact queues_isPlain hf'
  | @register slot name body todo current rest id l hs hslot hl hheld =>
    have hid : terms m.pool id = some (l.port, .held) := by simp [terms, hl, hheld]
    have hhooks : hooksOf m.pool id = l.hooks := by simp [hooksOf, hl]
    have hnumber : (⟨m.hooks, name, body⟩ : Hook).number = m.hooks := rfl
    refine .registered hid hnumber ?_ ?_ (Machine.resting_isPlain hs rfl) rfl ?_ rfl rfl
    · intro x
      rw [terms_update hl]
      split
      · rename_i hx
        rw [hx, hid, hheld]
      · rfl
    · intro x
      rw [hooksOf_update hl, hhooks]
    · rw [Machine.running_cons hs]
      rfl
  | @late slot name body todo current rest id l hs hslot hl hover =>
    have hid : terms m.pool id = some (l.port, l.state) := by simp [terms, hl]
    have hnumber : (⟨m.hooks, name, body⟩ : Hook).number = m.hooks := rfl
    refine .late hid hover hnumber rfl (Machine.resting_isPlain hs rfl) ?_ ?_ rfl rfl
    · rw [hs]
      rfl
    · rw [Machine.running_cons hs]
      rfl
  | @handedOver rest hs =>
    rw [hs] at hn
    have hrest := hn.resting rfl
    exact .pop hs rfl rfl hrest hrest rfl (.refl _) rfl rfl
  | @bodyEnded failure outcome rest hs hhooks =>
    have hrest : resting rest = none := by
      cases rest with
      | nil => rfl
      | cons g below => cases g <;> first | rfl | exact absurd rfl (hhooks _ _ _ _ _ _ _)
    exact .pop hs rfl rfl hrest hrest rfl (.refl _) rfl rfl
  | hookEnded hs =>
    refine .ended (.refl _) (Machine.resting_isPlain hs rfl) ?_ rfl rfl rfl
    rw [Machine.running_cons hs]
    rfl
  | @hookStarted lease port running hook todo failures occasion rest hs =>
    have hkeeps : Keeps m.pool ((m.pool.current? port).elim m.pool m.pool.retain) := by
      cases m.pool.current? port with
      | none => exact .refl _
      | some id => exact .retain
    refine .started (q := ⟨rest.length, lease, port, running, hook :: todo⟩) hkeeps ?_ rfl rfl ?_ rfl
      ⟨_, rfl⟩ rfl
    · rw [Machine.resting, hs]
      rfl
    · rw [Machine.running_cons hs]
      rfl
  | @queried lease port running failures rest hs =>
    refine .finished (q := ⟨rest.length, lease, port, running, []⟩) (.refl _) ?_ rfl rfl ?_ rfl rfl
    · rw [Machine.resting, hs]
      rfl
    · rw [Machine.running_cons hs]
      rfl
  | @settle f rest events hs hf he =>
    rw [hs] at hn
    have hrest := hn.resting (Frame.isCode_of_isLast hf)
    have hrest' := (resting_settled f rest).trans hrest
    have hmarks : (events ++ m.trace).filter Event.isMark = m.trace.filter Event.isMark :=
      Machine.marks_append he
    cases hq : f.queue? rest.length with
    | none => exact .pop hs hq rfl hrest hrest' (queues_settled f rest) (.refl _) hmarks rfl
    | some q =>
      refine .finished (q := q) (.refl _) ?_ ?_ hrest' ?_ hmarks rfl
      · rw [Machine.resting, hs]
        exact hq
      · cases f <;> simp only [Frame.queue?, reduceCtorEq, Option.some.injEq] at hq
        rename_i todo _ _
        cases todo with
        | nil => rw [← hq]
        | cons => cases hf
      · rw [Machine.running_cons hs, queues_of_resting hrest]
        exact queues_settled f rest

theorem Turn.redirect (m : Machine) (todo : List Action) : Turn m (m.redirect todo) := by
  cases hs : m.stack with
  | nil =>
    have heq : m.redirect todo = m.start todo := by simp [Machine.redirect, hs]
    have hstart : (m.start todo).stack = [.body todo none] := by simp [Machine.start, Machine.push, hs]
    rw [heq]
    refine .quiet (.refl _) ?_ (Machine.resting_isPlain hstart rfl) ?_ rfl rfl
    · rw [Machine.resting, hs]
      rfl
    · rw [Machine.running_cons hstart, Machine.running, hs]
      rfl
  | cons f rest =>
    have hcode (current : Option LeaseId) (hf : f.isPlain)
        (heq : m.redirect todo = { m with stack := .body todo current :: rest }) :
        Turn m (m.redirect todo) := by
      rw [heq]
      exact .top hs hf rfl rfl (.refl _) rfl rfl
    cases f with
    | body _ current => exact hcode current rfl (by simp [Machine.redirect, hs])
    | ending current _ => exact hcode current rfl (by simp [Machine.redirect, hs])
    | hooks => exact .idle (by simp [Machine.redirect, hs])
    | check => exact .idle (by simp [Machine.redirect, hs])
    | handOver => exact .idle (by simp [Machine.redirect, hs])

theorem Reachable.turn (h : Reachable setting m) (hm : Move setting m m') : Turn m m' := by
  cases hm with
  | step => exact Deed.turn h.nested (Machine.step_deed h.sound)
  | redirect todo => exact .redirect m todo

end PortLease.Script
