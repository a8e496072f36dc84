import Mathlib.Logic.Function.Basic
import Mathlib.Logic.Relation
import PortLease.Pool.Reserve
import PortLease.Script.Action

/-!
Threads that share a pool. A call goes its way section by section; between two sections of one call any
other thread may run sections of its own. A call that ends a lease has two sections for it: one marks
the lease, a later one gives the port back.
-/

namespace PortLease.Threads

open Script (Hook)

/-- What a call does with one lease while no other thread is at the pool. -/
inductive Section where
  | close (id : LeaseId)
  | drop (id : LeaseId)
  | release (id : LeaseId) (port : Port)
  | current (port : Port)
  deriving DecidableEq, Repr

inductive Note where
  | began
  | claimed (id : LeaseId) (port : Port)
  | released (id : LeaseId) (port : Port)
  | failed
  deriving DecidableEq, Repr

def afterEnd (id : LeaseId) : Option (Lease Hook) → List Section
  | none => []
  | some lease => .release id lease.port :: lease.hooks.map fun _ => .current lease.port

namespace Section

def pool (pool : Pool Hook) : Section → Pool Hook
  | .close id => (pool.finish id .closed).2
  | .drop id => (pool.letGo id).2
  | .release id port => pool.release id port
  | .current port =>
    match pool.current? port with
    | none => pool
    | some id => pool.retain id

def next (pool : Pool Hook) : Section → List Section
  | .close id => afterEnd id (pool.finish id .closed).1
  | .drop id => afterEnd id (pool.letGo id).1
  | .release .. => []
  | .current port => ((pool.current? port).map Section.drop).toList

def note : Section → Option Note
  | .release id port => some (.released id port)
  | _ => none

end Section

structure Batch where
  left : Nat
  claimed : List LeaseId
  deriving DecidableEq, Repr

inductive Task where
  | done
  | search (batch : Option Batch) (busy : PortSet) (start : Port)
  | rollback (todo : List LeaseId)

inductive Call where
  | idle
  | reserve (number : Int)
  | probe (batch : Option Batch) (busy : PortSet) (id : LeaseId) (port : Port)
  | run (todo : List Section) (task : Task)

instance decidableIdle (call : Call) : Decidable (call = .idle) :=
  match call with
  | .idle => isTrue rfl
  | .reserve _ => isFalse nofun
  | .probe .. => isFalse nofun
  | .run .. => isFalse nofun

structure Answers where
  start : Port
  bindable : Bool

structure Outcome where
  pool : Pool Hook
  call : Call
  given : List LeaseId := []
  note : Option Note := none

def gotten (pool : Pool Hook) (answers : Answers) (id : LeaseId) (note : Option Note) :
    Option Batch → Outcome
  | none => ⟨pool, .idle, [id], note⟩
  | some ⟨0, claimed⟩ => ⟨pool, .idle, (id :: claimed).reverse, note⟩
  | some ⟨left + 1, claimed⟩ =>
    ⟨pool, .run [] (.search (some ⟨left, id :: claimed⟩) .empty answers.start), [], note⟩

namespace Call

def reserveAny (start : Port) : Call := .run [] (.search none .empty start)

def reserveMany (number : Int) (start : Port) : Call :=
  match Pool.checkCount number with
  | .ok (left + 1) => .run [] (.search (some ⟨left, []⟩) .empty start)
  | _ => .run [] (.rollback [])

def close (id : LeaseId) : Call := .run [.close id] .done

def drop (id : LeaseId) : Call := .run [.drop id] .done

def lateHook (port : Port) : Call := .run [.current port] .done

def discard (id : LeaseId) (task : Task) : Call := .run [.close id, .drop id] task

end Call

def Task.step (policy : Policy) (answers : Answers) (pool : Pool Hook) : Task → Outcome
  | .done => ⟨pool, .idle, [], none⟩
  | .search batch busy start =>
    match pool.taken.find? start fun p => policy.isCandidate p && !busy.contains p with
    | none =>
      match batch with
      | none => ⟨pool, .idle, [], some .failed⟩
      | some batch => ⟨pool, .run [] (.rollback batch.claimed.reverse), [], none⟩
    | some port =>
      let (id, pool) := pool.lend port
      if policy.probeBind then ⟨pool, .probe batch busy id port, [], some (.claimed id port)⟩
      else gotten pool answers id (some (.claimed id port)) batch
  | .rollback [] => ⟨pool, .idle, [], some .failed⟩
  | .rollback (id :: todo) => ⟨pool, .discard id (.rollback todo), [], none⟩

def Call.step (policy : Policy) (answers : Answers) (pool : Pool Hook) : Call → Outcome
  | .idle => ⟨pool, .idle, [], none⟩
  | .reserve number =>
    match policy.check number with
    | .error _ => ⟨pool, .idle, [], none⟩
    | .ok port =>
      match pool.claim? port with
      | none => ⟨pool, .idle, [], none⟩
      | some (id, pool) => ⟨pool, .idle, [id], some (.claimed id port)⟩
  | .probe batch busy id port =>
    if answers.bindable then gotten pool answers id none batch
    else ⟨pool, .discard id (.search batch (busy.insert port) (port + 1)), [], none⟩
  | .run [] task => task.step policy answers pool
  | .run (first :: todo) task =>
    ⟨first.pool pool, .run (first.next pool ++ todo) task, [], first.note⟩

/-- The references that callers hold are in `hands`, one entry for each. The trace has the newest note
first. -/
structure State (n : Nat) where
  pool : Pool Hook := .empty
  hands : List LeaseId := []
  calls : Fin n → Call := fun _ => .idle
  trace : List (Fin n × Note) := []

variable {n : Nat}

inductive Opens (hands : List LeaseId) : Call → List LeaseId → Prop
  | reserve (number : Int) : Opens hands (.reserve number) hands
  | reserveAny (start : Port) : Opens hands (.reserveAny start) hands
  | reserveMany (number : Int) (start : Port) : Opens hands (.reserveMany number start) hands
  | close {id : LeaseId} (h : id ∈ hands) : Opens hands (.close id) hands
  | drop {id : LeaseId} (h : id ∈ hands) : Opens hands (.drop id) (hands.erase id)
  | lateHook (port : Port) : Opens hands (.lateHook port) hands

namespace State

def begin (s : State n) (t : Fin n) (call : Call) (hands : List LeaseId) : State n :=
  { s with hands, calls := Function.update s.calls t call, trace := (t, .began) :: s.trace }

def after (s : State n) (t : Fin n) (o : Outcome) : State n where
  pool := o.pool
  hands := o.given ++ s.hands
  calls := Function.update s.calls t o.call
  trace := (o.note.map fun note => (t, note)).toList ++ s.trace

def step (policy : Policy) (answers : Answers) (s : State n) (t : Fin n) : State n :=
  s.after t ((s.calls t).step policy answers s.pool)

def clone (s : State n) (id : LeaseId) : State n :=
  { s with pool := s.pool.retain id, hands := id :: s.hands }

def onClose (s : State n) (id : LeaseId) (hook : Hook) : State n :=
  { s with pool := (s.pool.addHook id hook).2 }

end State

inductive Move (policy : Policy) (s : State n) : State n → Prop
  | begin {t : Fin n} {call : Call} {hands : List LeaseId} (hidle : s.calls t = .idle)
      (hopens : Opens s.hands call hands) : Move policy s (s.begin t call hands)
  | step (t : Fin n) (answers : Answers) : Move policy s (s.step policy answers t)
  | clone {id : LeaseId} (h : id ∈ s.hands) : Move policy s (s.clone id)
  | onClose {id : LeaseId} (h : id ∈ s.hands) (hook : Hook) : Move policy s (s.onClose id hook)

def Reachable (policy : Policy) (s : State n) : Prop := Relation.ReflTransGen (Move policy) {} s

def Note.claim? : Note → Option (LeaseId × Port)
  | .claimed id port => some (id, port)
  | _ => none

def Note.claimed? (note : Note) : Option LeaseId := note.claim?.map Prod.fst

def Note.release? : Note → Option LeaseId
  | .released id _ => some id
  | _ => none

def since (t : Fin n) : List (Fin n × Note) → List Note
  | [] => []
  | (u, note) :: trace =>
    if u = t then if note = .began then [] else note :: since t trace else since t trace

namespace State

def claims (s : State n) : List (LeaseId × Port) := s.trace.filterMap fun event => event.2.claim?

def releases (s : State n) : List LeaseId := s.trace.filterMap fun event => event.2.release?

def own (s : State n) (t : Fin n) : List LeaseId := (since t s.trace).filterMap Note.claimed?

def freed (s : State n) (t : Fin n) : List LeaseId := (since t s.trace).filterMap Note.release?

end State

end PortLease.Threads
