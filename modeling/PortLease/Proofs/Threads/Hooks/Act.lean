import PortLease.Proofs.Pool
import PortLease.Proofs.Threads.Hooks.Call

namespace PortLease.Threads.Hooks

open Script (Hook Failure)
open Pool (finished)

variable {policy : Policy} {pool : Pool Hook} {n : Nat} {s : State n} {t : Fin n} {o : Outcome}

namespace Round

def ended (round : Round) : List LeaseId :=
  match round.occasion with
  | .close _ => [round.lease]
  | _ => []

theorem ended_close (id : LeaseId) (port : Port) (verify : Bool) (todo : List Hook)
    (failures : List String) :
    (⟨id, port, .close verify, todo, failures⟩ : Round).ended = [id] := rfl

theorem ended_late (id : LeaseId) (port : Port) (todo : List Hook) (failures : List String) :
    (⟨id, port, .late, todo, failures⟩ : Round).ended = [] := rfl

@[simp] theorem ended_todo (round : Round) (todo : List Hook) (failures : List String) :
    (⟨round.lease, round.port, round.occasion, todo, failures⟩ : Round).ended = round.ended := rfl

theorem answer_eq (round : Round) :
    round.ended = [round.lease] ∧
        round.answer = .returned round.lease true (closeResult round.port round.failures) ∨
      round.ended = [] ∧ ∃ records, round.answer = .logged records := by
  unfold ended answer
  cases round.occasion with
  | close verify => exact .inl ⟨rfl, rfl⟩
  | reclaim => exact .inr ⟨rfl, _, rfl⟩
  | late => exact .inr ⟨rfl, _, rfl⟩

end Round

inductive Act (policy : Policy) (failure : Option Failure) (pool : Pool Hook) : Call → Outcome → Prop
  | idle : Act policy failure pool .idle ⟨pool, .idle, [], none⟩
  | refused {number : Int}
      (hnone : ∀ port, policy.check number = .ok port → pool.claim? port = none) :
      Act policy failure pool (.reserve number) ⟨pool, .idle, [], none⟩
  | reserved {number : Int} {port : Port} (hcheck : policy.check number = .ok port)
      (hclaim : pool.claim? port = some (pool.lend port)) :
      Act policy failure pool (.reserve number)
        ⟨(pool.lend port).2, .idle, [pool.nextId], some (.claimed pool.nextId port)⟩
  | missed (number : Int) : Act policy failure pool (.find number) ⟨pool, .idle, [], none⟩
  | found {port : Port} {id : LeaseId} (number : Int) (hid : pool.current? port = some id) :
      Act policy failure pool (.find number) ⟨pool.retain id, .idle, [id], none⟩
  | settled {id : LeaseId} (verify : Bool) (hover : ∀ l, pool.lease? id = some l → l.state ≠ .held) :
      Act policy failure pool (.close id verify)
        ⟨pool, .idle, [], some (.returned id false (.ok ()))⟩
  | ended {id : LeaseId} {l : Lease Hook} (verify : Bool) (hl : pool.lease? id = some l)
      (hheld : l.state = .held) : Act policy failure pool (.close id verify)
        ⟨pool.update id (finished .closed), .release ⟨id, l.port, .close verify, l.hooks, []⟩, [],
          some (.ended id)⟩
  | registered {id : LeaseId} {l : Lease Hook} (port : Port) (hook : Hook)
      (hl : pool.lease? id = some l) (hheld : l.state = .held) :
      Act policy failure pool (.onClose id port hook)
        ⟨pool.update id fun l => { l with hooks := hook :: l.hooks }, .idle, [],
          some (.registered id hook.number)⟩
  | late {id : LeaseId} (port : Port) (hook : Hook)
      (hover : ∀ l, pool.lease? id = some l → l.state ≠ .held) :
      Act policy failure pool (.onClose id port hook)
        ⟨pool, .next ⟨id, port, .late, [hook], []⟩, [], some (.late id hook.number)⟩
  | released (round : Round) : Act policy failure pool (.release round)
      ⟨pool.release round.lease round.port, .next round, [],
        some (.released round.lease round.port)⟩
  | looked {round : Round} {hook : Hook} {todo : List Hook} (htodo : round.todo = hook :: todo) :
      Act policy failure pool (.next round)
        ⟨handed pool (pool.current? round.port),
          .running { round with todo } hook (pool.current? round.port), [],
          some (.looked round.lease hook.number round.occasion (pool.current? round.port))⟩
  | queried {round : Round} (htodo : round.todo = []) :
      Act policy failure pool (.next round)
        ⟨pool, .check round, [], some (.queried round.port)⟩
  | answered {round : Round} (htodo : round.todo = []) :
      Act policy failure pool (.next round) ⟨pool, .idle, [], some round.answer⟩
  | ran (round : Round) (hook : Hook) (current : Option LeaseId) :
      Act policy failure pool (.running round hook current)
        ⟨pool, (round.ran failure).back current, [],
          some (.ran round.lease hook.number current failure)⟩
  | ending (round : Round) (other : LeaseId) : Act policy failure pool (.ending round other)
      ⟨(pool.letGo other).2, .next round, [], none⟩
  | checked (round : Round) : Act policy failure pool (.check round)
      ⟨pool, .idle, [], some round.answer⟩

variable {failure : Option Failure}

theorem close_act (id : LeaseId) (verify : Bool) : Act policy failure pool (.close id verify)
    ((Call.close id verify).step policy failure pool) := by
  by_cases h : ∃ l, pool.lease? id = some l ∧ l.state = .held
  · obtain ⟨l, hl, hheld⟩ := h
    simp only [Call.step, Pool.finish_held hl hheld]
    exact .ended verify hl hheld
  · have hover (l : Lease Hook) (hl : pool.lease? id = some l) : l.state ≠ .held :=
      fun hheld => h ⟨l, hl, hheld⟩
    simp only [Call.step, Pool.finish_settled hover]
    exact .settled verify hover

theorem onClose_act (id : LeaseId) (port : Port) (hook : Hook) :
    Act policy failure pool (.onClose id port hook)
      ((Call.onClose id port hook).step policy failure pool) := by
  by_cases h : ∃ l, pool.lease? id = some l ∧ l.state = .held
  · obtain ⟨l, hl, hheld⟩ := h
    simp only [Call.step, Pool.addHook_held hl hheld]
    exact .registered port hook hl hheld
  · have hover (l : Lease Hook) (hl : pool.lease? id = some l) : l.state ≠ .held :=
      fun hheld => h ⟨l, hl, hheld⟩
    simp only [Call.step, Pool.addHook_settled hover]
    exact .late port hook hover

theorem Call.act (policy : Policy) (failure : Option Failure) (pool : Pool Hook) (call : Call) :
    Act policy failure pool call (call.step policy failure pool) := by
  cases call with
  | idle => exact .idle
  | reserve number =>
    simp only [Call.step]
    split
    · rename_i hcheck
      apply Act.refused
      intro port hport
      rw [hcheck] at hport
      cases hport
    · rename_i port hcheck
      by_cases htaken : pool.taken.contains port = true
      · have hclaim : pool.claim? port = none := by simp [Pool.claim?, htaken]
        rw [hclaim]
        apply Act.refused
        intro port' hport
        rw [hcheck] at hport
        cases hport
        exact hclaim
      · have hclaim : pool.claim? port = some (pool.lend port) := by simp [Pool.claim?, htaken]
        rw [hclaim]
        exact .reserved hcheck hclaim
  | find number =>
    simp only [Call.step]
    split
    · exact .missed number
    · rename_i id hid
      obtain ⟨port, -, hid⟩ := Pool.find?_eq_some_iff.mp hid
      exact .found number hid
  | close id verify => exact close_act id verify
  | onClose id port hook => exact onClose_act id port hook
  | release round => exact .released round
  | next round =>
    simp only [Call.step]
    split
    · rename_i htodo
      split
      · exact .queried htodo
      · exact .answered htodo
    · rename_i hook todo htodo
      exact .looked htodo
  | running round hook current => exact .ran round hook current
  | ending round other => exact .ending round other
  | check round => exact .checked round

theorem Act.passed? {call : Call} (h : Act policy failure pool call o) :
    o.note.bind Note.passed? = none := by
  cases h with
  | @answered round _ | checked round =>
    obtain ⟨-, hanswer⟩ | ⟨-, records, hanswer⟩ := round.answer_eq <;> rw [hanswer] <;> rfl
  | _ => rfl

theorem filterMap_cons_toList {α β : Type} (f : α → Option β) (a : α) (l : List α) :
    (a :: l).filterMap f = (f a).toList ++ l.filterMap f := by
  cases hf : f a <;> simp [hf]

namespace State

variable {β : Type}

theorem all_after (f : Note → Option β) : (s.after t o).all f = (o.note.bind f).toList ++ s.all f := by
  cases hnote : o.note with
  | none => simp [all, after, hnote]
  | some note => cases hf : f note <;> simp [all, after, hnote, hf]

theorem mem_all_after {f : Note → Option β} {x : β} (hx : x ∈ s.all f) :
    x ∈ (s.after t o).all f := by
  rw [all_after]
  exact List.mem_append_right _ hx

theorem own_after (f : Note → Option β) (u : Fin n) : (s.after t o).own u f =
    if u = t then (o.note.bind f).toList ++ s.own u f else s.own u f := by
  cases hnote : o.note with
  | none => simp [own, after, hnote]
  | some note =>
    by_cases hu : u = t
    · cases hf : f note <;> simp [own, after, hnote, hf, hu]
    · simp [own, after, hnote, hu, Ne.symm hu]

end State

theorem Reachable.calls {P : State n → Call → Prop} (hidle : ∀ s, P s .idle)
    (hstays : ∀ s s' call, Reachable policy s → Move policy s s' → P s call → P s' call)
    (hopens : ∀ s t call note, Opens s call note → P (s.begin t call note) call)
    (hact : ∀ s t failure, Reachable policy s → P s (s.calls t) →
      P (s.step policy failure t) ((s.calls t).step policy failure s.pool).call)
    (h : Reachable policy s) (t : Fin n) : P s (s.calls t) := by
  have hafter {s : State n} {t u : Fin n} {o : Outcome} (hs : Reachable policy s)
      (hmove : Move policy s (s.after u o)) (hold : P s (s.calls t))
      (hnew : P (s.after u o) o.call) : P (s.after u o) ((s.after u o).calls t) := by
    by_cases ht : t = u
    · subst ht
      simpa only [State.after, Function.update_self] using hnew
    · have hother := hstays s _ _ hs hmove hold
      simpa only [State.after, Function.update_of_ne ht] using hother
  induction h generalizing t with
  | refl => exact hidle _
  | @tail s _ hs hmove ih =>
    cases hmove with
    | begin hfree hopen => exact hafter hs (.begin hfree hopen) (ih t) (hopens s _ _ _ hopen)
    | step u failure => exact hafter hs (.step u failure) (ih t) (hact s u failure hs (ih u))
    | clone hid => exact hstays s _ _ hs (.clone hid) (ih t)

end PortLease.Threads.Hooks
