import PortLease.Proofs.Script.Turn
import PortLease.Proofs.Threads.Call

/-!
All that a move can do to a shared pool: claim a free port, end a lease, give a port back, or leave ports
and the states of leases as they are. A lease that has been ended is pending until its release; it is
pending with the thread that has ended it.
-/

namespace PortLease.Threads

open Script (Hook terms hooksOf terms_update hooksOf_update)
open Pool (finished lessHeld lease?_update nextId_lend)

variable {policy : Policy} {answers : Answers} {pool pool' : Pool Hook} {id : LeaseId} {port : Port}
  {n : Nat}

namespace Section

def closes? : Section → Option LeaseId
  | .close id => some id
  | _ => none

def drops? : Section → Option LeaseId
  | .drop id => some id
  | _ => none

def releases? : Section → Option (LeaseId × Port)
  | .release id port => some (id, port)
  | _ => none

end Section

def claimedOf (batch : Option Batch) : List LeaseId := (batch.map Batch.claimed).getD []

def Task.keeps : Task → List LeaseId
  | .done => []
  | .search batch _ _ => claimedOf batch
  | .rollback todo => todo

namespace Call

def refs : Call → List LeaseId
  | .probe batch _ id _ => id :: claimedOf batch
  | .run todo task => todo.filterMap Section.drops? ++ task.keeps
  | _ => []

def keeps : Call → List LeaseId
  | .probe batch _ id _ => id :: claimedOf batch
  | .run todo task => todo.filterMap Section.closes? ++ task.keeps
  | _ => []

def pending : Call → List (LeaseId × Port)
  | .run todo _ => todo.filterMap Section.releases?
  | _ => []

@[simp] theorem refs_idle : idle.refs = [] := rfl

@[simp] theorem keeps_idle : idle.keeps = [] := rfl

@[simp] theorem pending_idle : idle.pending = [] := rfl

@[simp] theorem refs_run_nil (task : Task) : (run [] task).refs = task.keeps := rfl

@[simp] theorem keeps_run_nil (task : Task) : (run [] task).keeps = task.keeps := rfl

@[simp] theorem pending_run_nil (task : Task) : (run [] task).pending = [] := rfl

end Call

structure Quiet (pool pool' : Pool Hook) : Prop where
  nextId : pool'.nextId = pool.nextId
  taken : pool'.taken = pool.taken
  registry : pool'.registry = pool.registry
  terms : ∀ x, Script.terms pool' x = Script.terms pool x

theorem Quiet.refl (pool : Pool Hook) : Quiet pool pool := ⟨rfl, rfl, rfl, fun _ => rfl⟩

theorem Quiet.update {f : Lease Hook → Lease Hook} (hport : ∀ l, (f l).port = l.port)
    (hstate : ∀ l, (f l).state = l.state) : Quiet pool (pool.update id f) where
  nextId := by simp
  taken := by simp
  registry := by simp
  terms x := by
    simp only [Script.terms, lease?_update]
    split <;> simp [*, Function.comp_def]

theorem Quiet.retain (id : LeaseId) : Quiet pool (pool.retain id) := by
  rw [Pool.retain_eq]
  exact .update (fun _ => rfl) (fun _ => rfl)

theorem Quiet.addHook (id : LeaseId) (hook : Hook) : Quiet pool (pool.addHook id hook).2 := by
  cases hl : pool.lease? id with
  | none =>
    rw [Pool.addHook, hl]
    exact .refl pool
  | some l =>
    by_cases hheld : l.state = .held
    · rw [Pool.addHook_held hl hheld]
      exact .update (fun _ => rfl) (fun _ => rfl)
    · rw [Pool.addHook_over hl hheld]
      exact .refl pool

theorem hooksOf_lessHeld (id x : LeaseId) :
    hooksOf (pool.update id lessHeld) x = hooksOf pool x :=
  (Script.Keeps.update (f := lessHeld) (fun _ => rfl) (fun _ => rfl) (fun _ => rfl)).hooks x

@[simp] theorem releases?_afterEnd (id : LeaseId) (ended : Option (Lease Hook)) :
    (afterEnd id ended).filterMap Section.releases? = (ended.map fun l => (id, l.port)).toList := by
  cases ended <;> simp [afterEnd, Section.releases?]

@[simp] theorem closes?_afterEnd (id : LeaseId) (ended : Option (Lease Hook)) :
    (afterEnd id ended).filterMap Section.closes? = [] := by
  cases ended <;> simp [afterEnd, Section.closes?]

@[simp] theorem drops?_afterEnd (id : LeaseId) (ended : Option (Lease Hook)) :
    (afterEnd id ended).filterMap Section.drops? = [] := by
  cases ended <;> simp [afterEnd, Section.drops?]

theorem closes?_next (pool : Pool Hook) (s : Section) :
    (s.next pool).filterMap Section.closes? = [] := by
  cases s with
  | current port => cases h : pool.current? port <;> simp [Section.next, h, Section.closes?]
  | _ => simp [Section.next]

inductive Section.Effect (pool : Pool Hook) (s : Section) : Prop
  | quiet (hpool : Quiet pool (s.pool pool)) (hhooks : ∀ x, hooksOf (s.pool pool) x = hooksOf pool x)
      (hreleases : (s.next pool).filterMap releases? = []) (hs : s.releases? = none)
  | ends {id : LeaseId} {l : Lease Hook} {f : Lease Hook → Lease Hook}
      (hl : pool.lease? id = some l) (hheld : l.state = .held)
      (hpool : s.pool pool = pool.update id f) (hport : (f l).port = l.port)
      (hover : (f l).state ≠ .held)
      (hreleases : (s.next pool).filterMap releases? = [(id, l.port)])
      (hcause : s = .close id ∨ s = .drop id ∧ l.holders ≤ 1)
  | releases {id : LeaseId} {port : Port} (hs : s = .release id port)

theorem Section.Effect.unchanged {s : Section} (hpool : s.pool pool = pool)
    (hnext : s.next pool = []) (hs : s.releases? = none) : s.Effect pool := by
  apply Effect.quiet
  · rw [hpool]
    exact .refl pool
  · intro x
    rw [hpool]
  · rw [hnext]
    rfl
  · exact hs

theorem Section.close_effect (pool : Pool Hook) (id : LeaseId) : (close id).Effect pool := by
  cases hl : pool.lease? id with
  | none =>
    have hfinish : pool.finish id .closed = (none, pool) := by simp [Pool.finish, hl]
    apply Effect.unchanged _ _ rfl <;> simp [Section.pool, Section.next, hfinish, afterEnd]
  | some l =>
    by_cases hheld : l.state = .held
    · have hfinish : pool.finish id .closed = _ := Pool.finish_held hl hheld
      apply Effect.ends (f := finished .closed) hl hheld
      · rw [Section.pool, hfinish]
      · rfl
      · simp [finished]
      · rw [Section.next, hfinish, releases?_afterEnd]
        rfl
      · exact .inl rfl
    · have hfinish : pool.finish id .closed = _ := Pool.finish_over hl hheld
      apply Effect.unchanged _ _ rfl <;> simp [Section.pool, Section.next, hfinish, afterEnd]

theorem Section.drop_effect (pool : Pool Hook) (id : LeaseId) : (drop id).Effect pool := by
  cases hl : pool.lease? id with
  | none =>
    have hgo : pool.letGo id = (none, pool) := by simp [Pool.letGo, hl]
    apply Effect.unchanged _ _ rfl <;> simp [Section.pool, Section.next, hgo, afterEnd]
  | some l =>
    by_cases hlast : l.state = .held ∧ l.holders ≤ 1
    · have hgo := Pool.letGo_last hl hlast.1 hlast.2
      apply Effect.ends (f := fun l => finished .reclaimed (lessHeld l)) hl hlast.1
      · rw [Section.pool, hgo]
      · rfl
      · simp [finished]
      · rw [Section.next, hgo, releases?_afterEnd]
        rfl
      · exact .inr ⟨rfl, hlast.2⟩
    · have hmore : l.state = .held → 1 < l.holders := by
        intro hheld
        exact Nat.lt_of_not_le fun hle => hlast ⟨hheld, hle⟩
      have hgo := Pool.letGo_more hl hmore
      apply Effect.quiet
      · rw [Section.pool, hgo]
        exact .update (fun _ => rfl) (fun _ => rfl)
      · rw [Section.pool, hgo]
        exact hooksOf_lessHeld id
      · rw [Section.next, hgo]
        rfl
      · rfl

theorem Section.effect (pool : Pool Hook) (s : Section) : s.Effect pool := by
  cases s with
  | close id => exact close_effect pool id
  | drop id => exact drop_effect pool id
  | release id port => exact .releases rfl
  | current port =>
    cases hcurrent : pool.current? port with
    | none => apply Effect.unchanged _ _ rfl <;> simp [Section.pool, Section.next, hcurrent]
    | some id =>
      have hpool : (Section.current port).pool pool = pool.retain id := by
        simp [Section.pool, hcurrent]
      apply Effect.quiet
      · rw [hpool]
        exact .retain id
      · rw [hpool]
        exact Script.Keeps.retain.hooks
      · rw [Section.next, hcurrent]
        rfl
      · rfl

theorem hooksOf_lend (x : LeaseId) : hooksOf (pool.lend port).2 x = hooksOf pool x := by
  simp only [hooksOf, Pool.lease?_lend]
  split
  · rename_i hx
    rw [hx, Pool.lease?_nextId]
    rfl
  · rfl

theorem nextId_section (pool : Pool Hook) (s : Section) : (s.pool pool).nextId = pool.nextId := by
  cases s.effect pool with
  | quiet hquiet => exact hquiet.nextId
  | ends _ _ hpool => rw [hpool, Pool.nextId_update]
  | releases hs => rw [hs, Section.pool, Pool.nextId_release]

inductive Act (policy : Policy) (pool : Pool Hook) (call : Call) (o : Outcome) : Prop
  | pass (hpool : o.pool = pool) (hnote : o.note = none ∨ o.note = some .failed)
      (hrefs : (o.call.refs ++ o.given).Perm call.refs)
      (hkeeps : (o.call.keeps ++ o.given).Perm call.keeps)
      (hpending : o.call.pending = call.pending)
  | claim {port : Port} (hfree : pool.taken.contains port = false)
      (hpool : o.pool = (pool.lend port).2) (hnote : o.note = some (.claimed pool.nextId port))
      (hrefs : (o.call.refs ++ o.given).Perm (pool.nextId :: call.refs))
      (hkeeps : (o.call.keeps ++ o.given).Perm (pool.nextId :: call.keeps))
      (hpending : o.call.pending = call.pending)
  | run {s : Section} {todo : List Section} {task : Task} (hcall : call = .run (s :: todo) task)
      (ho : o = ⟨s.pool pool, .run (s.next pool ++ todo) task, [], s.note⟩)

theorem Act.discard {call : Call} {task : Task} (hrefs : call.refs = id :: task.keeps)
    (hkeeps : call.keeps = id :: task.keeps) (hpending : call.pending = []) :
    Act policy pool call ⟨pool, .discard id task, [], none⟩ := by
  apply Act.pass
  · rfl
  · exact .inl rfl
  · rw [List.append_nil, hrefs]
    exact .refl _
  · rw [List.append_nil, hkeeps]
    exact .refl _
  · exact hpending.symm

@[simp] theorem pool_gotten {note : Option Note} (batch : Option Batch) :
    (gotten pool answers id note batch).pool = pool := by
  obtain - | ⟨_ | _, _⟩ := batch <;> rfl

@[simp] theorem note_gotten {note : Option Note} (batch : Option Batch) :
    (gotten pool answers id note batch).note = note := by
  obtain - | ⟨_ | _, _⟩ := batch <;> rfl

@[simp] theorem pending_gotten {note : Option Note} (batch : Option Batch) :
    (gotten pool answers id note batch).call.pending = [] := by
  obtain - | ⟨_ | _, _⟩ := batch <;> rfl

theorem refs_gotten {note : Option Note} (batch : Option Batch) :
    ((gotten pool answers id note batch).call.refs ++ (gotten pool answers id note batch).given).Perm
      (id :: claimedOf batch) := by
  obtain - | ⟨_ | _, claimed⟩ := batch
  · exact .refl _
  · exact List.reverse_perm _
  · simp [gotten, Call.refs, Task.keeps, claimedOf]

theorem keeps_gotten {note : Option Note} (batch : Option Batch) :
    ((gotten pool answers id note batch).call.keeps ++ (gotten pool answers id note batch).given).Perm
      (id :: claimedOf batch) := by
  have hsame : (gotten pool answers id note batch).call.keeps =
      (gotten pool answers id note batch).call.refs := by
    obtain - | ⟨_ | _, _⟩ := batch <;> rfl
  rw [hsame]
  exact refs_gotten batch

theorem Task.act (policy : Policy) (answers : Answers) (pool : Pool Hook) (task : Task) :
    Act policy pool (.run [] task) (task.step policy answers pool) := by
  cases task with
  | done => apply Act.pass <;> simp [Task.step, Task.keeps]
  | search batch busy start =>
    simp only [Task.step]
    split
    · cases batch with
      | none => apply Act.pass <;> simp [Task.keeps, claimedOf]
      | some batch => apply Act.pass <;> simp [Task.keeps, claimedOf, List.reverse_perm]
    · rename_i port hfind
      have hfree := (PortSet.find?_some hfind).1
      split
      · apply Act.claim hfree rfl rfl
        · rw [List.append_nil]
          exact .refl _
        · rw [List.append_nil]
          exact .refl _
        · rfl
      · apply Act.claim hfree (pool_gotten batch) (note_gotten batch)
        · exact refs_gotten batch
        · exact keeps_gotten batch
        · exact pending_gotten batch
  | rollback todo =>
    cases todo with
    | nil => apply Act.pass <;> simp [Task.step, Task.keeps]
    | cons id todo => exact .discard rfl rfl rfl

theorem Call.act (policy : Policy) (answers : Answers) (pool : Pool Hook) (call : Call) :
    Act policy pool call (call.step policy answers pool) := by
  cases call with
  | idle => apply Act.pass <;> simp [Call.step]
  | reserve number =>
    simp only [Call.step]
    split
    · exact .pass rfl (.inl rfl) (.refl _) (.refl _) rfl
    · rename_i port hcheck
      by_cases hfree : pool.taken.contains port = true
      · have hclaim : pool.claim? port = none := by simp [Pool.claim?, hfree]
        rw [hclaim]
        exact .pass rfl (.inl rfl) (.refl _) (.refl _) rfl
      · have hclaim : pool.claim? port = some (pool.lend port) := by simp [Pool.claim?, hfree]
        rw [Bool.not_eq_true] at hfree
        rw [hclaim]
        exact .claim hfree rfl rfl (.refl _) (.refl _) rfl
  | probe batch busy id port =>
    simp only [Call.step]
    split
    · apply Act.pass (pool_gotten batch) (.inl (note_gotten batch))
      · exact refs_gotten batch
      · exact keeps_gotten batch
      · exact pending_gotten batch
    · exact .discard rfl rfl rfl
  | run todo task =>
    cases todo with
    | nil => exact task.act policy answers pool
    | cons s todo => exact .run rfl rfl

theorem Call.keeps_step (policy : Policy) (answers : Answers) (pool : Pool Hook) (call : Call)
    {o : Outcome} (ho : call.step policy answers pool = o) {x : LeaseId}
    (hx : x ∈ o.call.keeps ++ o.given) :
    x ∈ call.keeps ∨
      x = pool.nextId ∧ x < o.pool.nextId ∧ ∃ port, o.note = some (.claimed x port) := by
  cases ho ▸ call.act policy answers pool with
  | pass _ _ _ hkeeps _ => exact .inl (hkeeps.mem_iff.mp hx)
  | claim _ hpool hnote _ hkeeps _ =>
    obtain rfl | hold := List.mem_cons.mp (hkeeps.mem_iff.mp hx)
    · exact .inr ⟨rfl, by rw [hpool, nextId_lend]; exact Nat.lt_succ_self _, _, hnote⟩
    · exact .inl hold
  | @run first todo task hcall hrun =>
    subst hcall hrun
    left
    simp only [Call.keeps, List.filterMap_append, closes?_next, List.nil_append,
      List.append_nil] at hx ⊢
    obtain hx | hx := List.mem_append.mp hx
    · apply List.mem_append_left
      exact ((List.sublist_cons_self first todo).filterMap _).mem hx
    · exact List.mem_append_right _ hx

variable {s s' : State n} {t : Fin n} {call : Call} {hands : List LeaseId}

def State.Pending (s : State n) (id : LeaseId) (port : Port) : Prop :=
  ∃ t, (id, port) ∈ (s.calls t).pending

theorem pending_update (hcalls : s'.calls = Function.update s.calls t call) (x : LeaseId)
    (p : Port) : s'.Pending x p ↔
      (x, p) ∈ call.pending ∨ ∃ u, u ≠ t ∧ (x, p) ∈ (s.calls u).pending := by
  unfold State.Pending
  rw [hcalls]
  constructor
  · rintro ⟨u, hu⟩
    by_cases h : u = t
    · subst h
      rw [Function.update_self] at hu
      exact .inl hu
    · rw [Function.update_of_ne h] at hu
      exact .inr ⟨u, h, hu⟩
  · rintro (h | ⟨u, hne, hu⟩)
    · exact ⟨t, by rwa [Function.update_self]⟩
    · exact ⟨u, by rwa [Function.update_of_ne hne]⟩

theorem pending_iff (s : State n) (t : Fin n) (x : LeaseId) (p : Port) : s.Pending x p ↔
    (x, p) ∈ (s.calls t).pending ∨ ∃ u, u ≠ t ∧ (x, p) ∈ (s.calls u).pending :=
  pending_update (Function.update_eq_self t s.calls).symm x p

theorem pending_same (hcalls : s'.calls = Function.update s.calls t call)
    (h : call.pending = (s.calls t).pending) (x : LeaseId) (p : Port) :
    s'.Pending x p ↔ s.Pending x p := by
  rw [pending_update hcalls, pending_iff s t, h]

inductive Change (s s' : State n) : Prop
  | quiet (hpool : Quiet s.pool s'.pool) (hclaims : s'.claims = s.claims)
      (hreleases : s'.releases = s.releases)
      (hpending : ∀ x p, s'.Pending x p ↔ s.Pending x p)
  | claim {port : Port} (hfree : s.pool.taken.contains port = false)
      (hpool : s'.pool = (s.pool.lend port).2)
      (hclaims : s'.claims = (s.pool.nextId, port) :: s.claims)
      (hreleases : s'.releases = s.releases)
      (hpending : ∀ x p, s'.Pending x p ↔ s.Pending x p)
  | finish {id : LeaseId} {l : Lease Hook} {f : Lease Hook → Lease Hook}
      (hl : s.pool.lease? id = some l) (hheld : l.state = .held)
      (hpool : s'.pool = s.pool.update id f) (hport : (f l).port = l.port)
      (hover : (f l).state ≠ .held) (hclaims : s'.claims = s.claims)
      (hreleases : s'.releases = s.releases)
      (hpending : ∀ x p, s'.Pending x p ↔ (x, p) = (id, l.port) ∨ s.Pending x p)
  | release {id : LeaseId} {port : Port} (h : s.Pending id port)
      (hpool : s'.pool = s.pool.release id port) (hclaims : s'.claims = s.claims)
      (hreleases : s'.releases = id :: s.releases)
      (hback : ∀ x p, s'.Pending x p → s.Pending x p)
      (hon : ∀ x p, s.Pending x p → s'.Pending x p ∨ x = id)

theorem Opens.pending (h : Opens hands call hands') : call.pending = [] := by
  cases h with
  | reserveMany number start =>
    unfold Call.reserveMany
    split <;> rfl
  | _ => rfl

theorem claims_after (s : State n) (t : Fin n) (o : Outcome) :
    (s.after t o).claims = o.note.toList.filterMap Note.claim? ++ s.claims := by
  cases h : o.note with
  | none => simp [State.claims, State.after, h]
  | some note => cases hclaim : note.claim? <;> simp [State.claims, State.after, h, hclaim]

theorem releases_after (s : State n) (t : Fin n) (o : Outcome) :
    (s.after t o).releases = o.note.toList.filterMap Note.release? ++ s.releases := by
  cases h : o.note with
  | none => simp [State.releases, State.after, h]
  | some note => cases hrelease : note.release? <;> simp [State.releases, State.after, h, hrelease]

theorem step_change (policy : Policy) (answers : Answers) (s : State n) (t : Fin n) :
    Change s (s.step policy answers t) := by
  rw [State.step]
  generalize ho : (s.calls t).step policy answers s.pool = o
  have hclaims := claims_after s t o
  have hreleases := releases_after s t o
  have hcalls : (s.after t o).calls = Function.update s.calls t o.call := rfl
  cases ho ▸ (s.calls t).act policy answers s.pool with
  | pass hpool hnote _ _ hpending =>
    have hquiet : Quiet s.pool (s.after t o).pool := hpool ▸ .refl _
    obtain hnote | hnote := hnote <;> rw [hnote] at hclaims hreleases <;>
      exact .quiet hquiet hclaims hreleases (pending_same hcalls hpending)
  | claim hfree hpool hnote _ _ hpending =>
    rw [hnote] at hclaims hreleases
    exact .claim hfree hpool hclaims hreleases (pending_same hcalls hpending)
  | @run first todo task hcall hrun =>
    subst hrun
    have hnew := pending_update hcalls
    have hold := pending_iff s t
    simp only [Call.pending, hcall, List.filterMap_append] at hnew hold
    cases first.effect s.pool with
    | quiet hquiet _ hnext hs =>
      have hnote : first.note = none := by cases first <;> simp_all [Section.note, Section.releases?]
      simp only [hnote, Option.toList_none, List.filterMap_nil, List.nil_append] at hclaims hreleases
      apply Change.quiet hquiet (hnote ▸ hclaims) (hnote ▸ hreleases)
      intro x p
      rw [hnew, hold, hnext, List.filterMap_cons_none hs, List.nil_append]
    | ends hl hheld hpool hport hover hnext hcause =>
      have hs : first.releases? = none ∧ first.note = none := by
        obtain rfl | ⟨rfl, -⟩ := hcause <;> exact ⟨rfl, rfl⟩
      simp only [hs.2, Option.toList_none, List.filterMap_nil, List.nil_append] at hclaims hreleases
      apply Change.finish hl hheld hpool hport hover (hs.2 ▸ hclaims) (hs.2 ▸ hreleases)
      intro x p
      rw [hnew, hold, hnext, List.filterMap_cons_none hs.1, List.singleton_append, List.mem_cons,
        or_assoc]
    | @releases id port hs =>
      subst hs
      have hcons : (Section.release id port :: todo).filterMap Section.releases? =
          (id, port) :: todo.filterMap Section.releases? := rfl
      simp only [Section.next, List.filterMap_nil, List.nil_append] at hnew
      simp only [hcons, List.mem_cons] at hold
      have hpending : s.Pending id port := (hold id port).mpr (.inl (.inl rfl))
      apply Change.release hpending rfl hclaims hreleases
      · intro x p h
        exact (hold x p).mpr (((hnew x p).mp h).imp_left .inr)
      · intro x p h
        obtain (heq | hmem) | hother := (hold x p).mp h
        · exact .inr (congrArg Prod.fst heq)
        · exact .inl ((hnew x p).mpr (.inl hmem))
        · exact .inl ((hnew x p).mpr (.inr hother))

theorem begin_change (hidle : s.calls t = .idle) (hopens : Opens s.hands call hands) :
    Change s (s.begin t call hands) := by
  have hpending : call.pending = (s.calls t).pending := by
    rw [hidle, hopens.pending]
    rfl
  exact .quiet (.refl _) rfl rfl (pending_same rfl hpending)

theorem Move.change (h : Move policy s s') : Change s s' := by
  cases h with
  | begin hidle hopens => exact begin_change hidle hopens
  | step t answers => exact step_change policy answers s t
  | @clone id hid => exact .quiet (Quiet.retain id) rfl rfl fun _ _ => Iff.rfl
  | @onClose id hid hook => exact .quiet (Quiet.addHook id hook) rfl rfl fun _ _ => Iff.rfl

end PortLease.Threads
