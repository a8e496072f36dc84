import PortLease.Proofs.Threads.Call
import PortLease.Script.Machine

/-!
Threads that close leases and register hooks on them. A close marks the lease and takes its hooks in one
section, gives the port back in a later one, and then runs the hooks, each after a look at who has the
port. A hook that comes when its lease is over is run by the thread that brings it. Callers keep what
they hold; the calls of a hook are those of another thread, made before the hook has run.
-/

namespace PortLease.Threads.Hooks

open Script (Hook Failure Occasion)

/-- The hooks of a lease that a call has still to run, and the failures of those it has run. -/
structure Round where
  lease : LeaseId
  port : Port
  occasion : Occasion
  todo : List Hook
  failures : List String

inductive Call where
  | idle
  | reserve (number : Int)
  | find (number : Int)
  | close (id : LeaseId) (verify : Bool)
  | onClose (id : LeaseId) (port : Port) (hook : Hook)
  | release (round : Round)
  | next (round : Round)
  | running (round : Round) (hook : Hook) (current : Option LeaseId)
  | ending (round : Round) (current : LeaseId)
  | check (round : Round)

instance decidableEqResult : DecidableEq (Except PortError Unit)
  | .ok (), .ok () => isTrue rfl
  | .error e, .error e' => decidable_of_iff (e = e') ⟨congrArg _, Except.error.inj⟩
  | .ok _, .error _ => isFalse nofun
  | .error _, .ok _ => isFalse nofun

instance decidableIdle (call : Call) : Decidable (call = .idle) := by
  cases call <;> first | exact isTrue rfl | exact isFalse nofun

inductive Note where
  | passed (id : LeaseId) (hook : Nat)
  | closing (id : LeaseId)
  | claimed (id : LeaseId) (port : Port)
  | registered (id : LeaseId) (hook : Nat)
  | late (id : LeaseId) (hook : Nat)
  | ended (id : LeaseId)
  | released (id : LeaseId) (port : Port)
  | looked (id : LeaseId) (hook : Nat) (occasion : Occasion) (current : Option LeaseId)
  | ran (id : LeaseId) (hook : Nat) (current : Option LeaseId) (failure : Option Failure)
  | queried (port : Port)
  | logged (records : List LogRecord)
  | returned (id : LeaseId) (released : Bool) (result : Except PortError Unit)
  deriving DecidableEq

namespace Note

def passed? : Note → Option (LeaseId × Nat)
  | .passed id hook => some (id, hook)
  | _ => none

def closing? : Note → Option LeaseId
  | .closing id => some id
  | _ => none

def claimed? : Note → Option (LeaseId × Port)
  | .claimed id port => some (id, port)
  | _ => none

def registered? : Note → Option (LeaseId × Nat)
  | .registered id hook => some (id, hook)
  | _ => none

def late? : Note → Option (LeaseId × Nat)
  | .late id hook => some (id, hook)
  | _ => none

def placed? : Note → Option (LeaseId × Nat)
  | .registered id hook | .late id hook => some (id, hook)
  | _ => none

def ended? : Note → Option LeaseId
  | .ended id => some id
  | _ => none

def released? : Note → Option LeaseId
  | .released id _ => some id
  | _ => none

def ran? : Note → Option (LeaseId × Nat)
  | .ran id hook _ _ => some (id, hook)
  | _ => none

def returned? : Note → Option LeaseId
  | .returned id _ _ => some id
  | _ => none

def performed? : Note → Option LeaseId
  | .returned id true _ => some id
  | _ => none

end Note

structure Outcome where
  pool : Pool Hook
  call : Call
  given : List LeaseId := []
  note : Option Note := none

def closeResult (port : Port) (failures : List String) : Except PortError Unit :=
  if failures.isEmpty then .ok () else .error (.hooksFailed port failures)

namespace Round

def answer (round : Round) : Note :=
  match round.occasion with
  | .close _ => .returned round.lease true (closeResult round.port round.failures)
  | .late => .logged (round.failures.map (.hookFailed round.port))
  | .reclaim => .logged (round.failures.map (.hookFailedInReclaim round.port))

def verifies (policy : Policy) (round : Round) : Bool :=
  match round.occasion with
  | .close verify => verify && policy.checkRelease
  | _ => false

def ran (round : Round) (failure : Option Failure) : Round :=
  { round with failures := round.failures ++ (failure.map Failure.text).toList }

def back (round : Round) : Option LeaseId → Call
  | none => .next round
  | some other => .ending round other

end Round

def handed (pool : Pool Hook) : Option LeaseId → Pool Hook
  | none => pool
  | some id => pool.retain id

/-- One section of a call, or the run of a hook, which ends with `failure`. -/
def Call.step (policy : Policy) (failure : Option Failure) (pool : Pool Hook) : Call → Outcome
  | .idle => ⟨pool, .idle, [], none⟩
  | .reserve number =>
    match policy.check number with
    | .error _ => ⟨pool, .idle, [], none⟩
    | .ok port =>
      match pool.claim? port with
      | none => ⟨pool, .idle, [], none⟩
      | some (id, pool) => ⟨pool, .idle, [id], some (.claimed id port)⟩
  | .find number =>
    match pool.find? number with
    | none => ⟨pool, .idle, [], none⟩
    | some id => ⟨pool.retain id, .idle, [id], none⟩
  | .close id verify =>
    match pool.finish id .closed with
    | (none, pool) => ⟨pool, .idle, [], some (.returned id false (.ok ()))⟩
    | (some lease, pool) =>
      ⟨pool, .release ⟨id, lease.port, .close verify, lease.hooks, []⟩, [], some (.ended id)⟩
  | .onClose id port hook =>
    match pool.addHook id hook with
    | (true, pool) => ⟨pool, .idle, [], some (.registered id hook.number)⟩
    | (false, pool) => ⟨pool, .next ⟨id, port, .late, [hook], []⟩, [], some (.late id hook.number)⟩
  | .release round =>
    ⟨pool.release round.lease round.port, .next round, [],
      some (.released round.lease round.port)⟩
  | .next round =>
    match round.todo with
    | [] =>
      if round.verifies policy then ⟨pool, .check round, [], some (.queried round.port)⟩
      else ⟨pool, .idle, [], some round.answer⟩
    | hook :: todo =>
      let current := pool.current? round.port
      ⟨handed pool current, .running { round with todo } hook current, [],
        some (.looked round.lease hook.number round.occasion current)⟩
  | .running round hook current =>
    ⟨pool, (round.ran failure).back current, [],
      some (.ran round.lease hook.number current failure)⟩
  | .ending round other => ⟨(pool.letGo other).2, .next round, [], none⟩
  | .check round => ⟨pool, .idle, [], some round.answer⟩

/-- The references that callers hold are in `hands`, one entry for each. The trace has the newest note
first. -/
structure State (n : Nat) where
  pool : Pool Hook := .empty
  hands : List LeaseId := []
  calls : Fin n → Call := fun _ => .idle
  trace : List (Fin n × Note) := []

variable {n : Nat}

namespace State

def after (s : State n) (t : Fin n) (o : Outcome) : State n where
  pool := o.pool
  hands := o.given ++ s.hands
  calls := Function.update s.calls t o.call
  trace := (o.note.map fun note => (t, note)).toList ++ s.trace

def begin (s : State n) (t : Fin n) (call : Call) (note : Option Note) : State n :=
  s.after t ⟨s.pool, call, [], note⟩

def step (policy : Policy) (failure : Option Failure) (s : State n) (t : Fin n) : State n :=
  s.after t ((s.calls t).step policy failure s.pool)

def clone (s : State n) (id : LeaseId) : State n :=
  { s with pool := s.pool.retain id, hands := id :: s.hands }

end State

inductive Opens (s : State n) : Call → Option Note → Prop
  | reserve (number : Int) : Opens s (.reserve number) none
  | find (number : Int) : Opens s (.find number) none
  | close {id : LeaseId} (h : id ∈ s.hands) (verify : Bool) :
      Opens s (.close id verify) (some (.closing id))
  | onClose {id : LeaseId} {port : Port} (h : id ∈ s.hands)
      (hport : (s.pool.lease? id).map Lease.port = some port) (name : String)
      (body : List Script.Action) : Opens s (.onClose id port ⟨s.trace.length, name, body⟩)
        (some (.passed id s.trace.length))

inductive Move (policy : Policy) (s : State n) : State n → Prop
  | begin {t : Fin n} {call : Call} {note : Option Note} (hidle : s.calls t = .idle)
      (hopens : Opens s call note) : Move policy s (s.begin t call note)
  | step (t : Fin n) (failure : Option Failure) : Move policy s (s.step policy failure t)
  | clone {id : LeaseId} (h : id ∈ s.hands) : Move policy s (s.clone id)

def Reachable (policy : Policy) (s : State n) : Prop := Relation.ReflTransGen (Move policy) {} s

theorem Reachable.begin {policy : Policy} {s : State n} {t : Fin n} {call : Call}
    {note : Option Note} (h : Reachable policy s) (hidle : s.calls t = .idle)
    (hopens : Opens s call note) : Reachable policy (s.begin t call note) :=
  Relation.ReflTransGen.tail h (.begin hidle hopens)

theorem Reachable.step {policy : Policy} {s : State n} (h : Reachable policy s)
    (failure : Option Failure) (t : Fin n) : Reachable policy (s.step policy failure t) :=
  Relation.ReflTransGen.tail h (.step t failure)

namespace State

variable {β : Type}

def own (s : State n) (t : Fin n) (f : Note → Option β) : List β :=
  s.trace.filterMap fun event => if event.1 = t then f event.2 else none

def all (s : State n) (f : Note → Option β) : List β := s.trace.filterMap fun event => f event.2

end State

end PortLease.Threads.Hooks
