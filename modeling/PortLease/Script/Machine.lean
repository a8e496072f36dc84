import PortLease.Pool.Reserve
import PortLease.PortTable
import PortLease.Script.Action

/-!
Running actions, one small step at a time. The stack holds what is still to be done, the innermost
first: bodies of hooks, the hooks of a released lease, the leases to be stored, a release to be checked.
Hooks and the port table may act on the pool in the midst of a close, so a close is not one step but the
steps between the push of its hooks and the pop of its frame. Everything that a program or a user can
see is an event of the trace.
-/

namespace PortLease.Script

open Pool (World Asked Course)

inductive Event where
  | log (record : LogRecord)
  | hookStarted (lease : LeaseId) (hook : Nat) (name : String) (port : Port)
      (current : Option LeaseId) (taken : Nat)
  | hookEnded (lease : LeaseId) (hook : Nat) (failure : Option Failure)
  | queried (port : Option Port)
  | granted (number : Int) (lease : Option LeaseId)
  | grantedAny (port : Port) (lease : LeaseId) (registered : Bool)
  | grantedMany (leases : List (Port × LeaseId))
  | found (lease : Option LeaseId)
  | missing (slot : Slot)
  deriving DecidableEq, Repr

/-- Why hooks run: their lease was closed, was reclaimed, or was over when the hook came. -/
inductive Occasion where
  | close (verify : Bool)
  | reclaim
  | late
  deriving DecidableEq, Repr

inductive Frame where
  | body (todo : List Action) (current : Option LeaseId)
  | ending (current : Option LeaseId) (failure : Option Failure)
  /-- Hooks to run for a lease, the next one first, and the failures so far, in order. -/
  | hooks (lease : LeaseId) (port : Port) (running : Nat) (todo : List Hook)
      (failures : List String) (occasion : Occasion)
  /-- The table's own program has run; its answer to the n-th query comes next. -/
  | check (port : Port) (query : Nat) (failures : List String)
  | handOver (todo : List (Option Slot × LeaseId))

/-- What does not change during a run: the policy, the world outside, the answers of the port table to
the n-th query, and what the table does to the pool when it is asked. -/
structure Setting where
  policy : Policy
  world : World
  table : Nat → PortTable
  reaction : List Action := []

structure Machine where
  pool : Pool Hook := .empty
  slots : Std.TreeMap Slot LeaseId := ∅
  stack : List Frame := []
  asked : Asked := {}
  queries : Nat := 0
  hooks : Nat := 0
  outcome : Option Failure := none
  trace : List Event := []

def verdict (port : Port) (conclusive : Bool) :
    Except PortError (List Socket) → List LogRecord
  | .error e => [.checkInconclusive port e]
  | .ok [] => if conclusive then [.checkClear port] else [.checkUnavailable port]
  | .ok sockets =>
    match sockets.filter Socket.isListening with
    | [] => [.notListening port sockets.length]
    | listening => listening.map (.stillListening port)

def batchSlots (slot : Option Slot) (leases : List LeaseId) : List (Option Slot × LeaseId) :=
  leases.zipIdx.map fun (id, n) => (slot.map (· ++ toString n), id)

namespace Machine

def emit (m : Machine) (event : Event) : Machine :=
  { m with trace := event :: m.trace }

def log (m : Machine) (record : LogRecord) : Machine := m.emit (.log record)

def logAll (m : Machine) (records : List LogRecord) : Machine := records.foldl log m

def push (m : Machine) (frame : Frame) : Machine := { m with stack := frame :: m.stack }

def course (m : Machine) : Course Hook := ⟨m.pool, m.asked, []⟩

def join (m : Machine) (course : Course Hook) : Machine :=
  ({ m with pool := course.pool, asked := course.asked }).logAll course.log.reverse

def raise (m : Machine) (failure : Failure) : Machine :=
  match m.stack with
  | .body _ current :: rest => { m with stack := .ending current (some failure) :: rest }
  | _ => m

def letGo (m : Machine) (id : LeaseId) : Machine :=
  match m.pool.letGo id with
  | (none, pool) => { m with pool }
  | (some lease, pool) =>
    (({ m with pool := pool.release id lease.port }).log (.reclaiming lease.port id)).push
      (.hooks id lease.port 0 lease.hooks [] .reclaim)

def close (m : Machine) (id : LeaseId) (verify : Bool) : Machine :=
  match m.pool.close id with
  | (none, pool) => { m with pool }
  | (some lease, pool) =>
    (({ m with pool }).log (.released lease.port id)).push
      (.hooks id lease.port 0 lease.hooks [] (.close verify))

def onClose (m : Machine) (id : LeaseId) (name : String) (body : List Action) : Machine :=
  let hook : Hook := ⟨m.hooks, name, body⟩
  let m := { m with hooks := m.hooks + 1 }
  match m.pool.addHook id hook with
  | (true, pool) => { m with pool }
  | (false, pool) =>
    let m := { m with pool }
    match m.pool.lease? id with
    | some lease => m.push (.hooks id lease.port 0 [hook] [] .late)
    | none => m

def store (m : Machine) (slot : Option Slot) (id : LeaseId) : Machine :=
  match slot with
  | none => m.letGo id
  | some slot =>
    let old := m.slots[slot]?
    let m := { m with slots := m.slots.insert slot id }
    match old with
    | none => m
    | some old => m.letGo old

def withSlot (m : Machine) (slot : Slot) (act : Machine → LeaseId → Machine) : Machine :=
  match m.slots[slot]? with
  | none => m.emit (.missing slot)
  | some id => act m id

def reserve (m : Machine) (policy : Policy) (number : Int) (slot : Option Slot) : Machine :=
  match m.pool.reserve policy number with
  | .error refusal => m.raise (.error refusal.toError)
  | .ok (lease, pool, record) =>
    let m := (({ m with pool }).log record).emit (.granted number lease)
    match lease with
    | none => m
    | some id => m.push (.handOver [(slot, id)])

def reserveAny (m : Machine) (setting : Setting) (slot : Option Slot) : Machine :=
  let (result, course) := m.course.reserveAny setting.policy setting.world
  let m := m.join course
  match result with
  | .error e => m.raise (.error (e.toError setting.policy))
  | .ok id =>
    match m.pool.lease? id with
    | none => m
    | some lease =>
      (m.emit (.grantedAny lease.port id (m.pool.current? lease.port == some id))).push
        (.handOver [(slot, id)])

def ports (m : Machine) (ids : List LeaseId) : List (Port × LeaseId) :=
  ids.filterMap fun id => (m.pool.lease? id).map fun lease => (lease.port, id)

def reserveMany (m : Machine) (setting : Setting) (count : Int) (slot : Option Slot) : Machine :=
  match Pool.checkCount count with
  | .error bad => m.raise (.error bad.toError)
  | .ok count =>
    let (result, course) := m.course.reserveMore setting.policy setting.world count []
    let m := m.join course
    match result with
    | .error e => m.raise (.error (e.toError setting.policy))
    | .ok ids =>
      let leases := m.ports ids
      let byPort := leases.mergeSort fun a b => a.1 ≤ b.1
      (m.emit (.grantedMany leases)).push (.handOver (batchSlots slot (byPort.map Prod.snd)))

def find (m : Machine) (number : Int) (slot : Option Slot) : Machine :=
  let current := m.pool.find? number
  let m := m.emit (.found current)
  match current with
  | none => m
  | some id => ({ m with pool := m.pool.retain id }).push (.handOver [(slot, id)])

def copy (m : Machine) (id : LeaseId) (slot : Slot) : Machine :=
  ({ m with pool := m.pool.retain id }).push (.handOver [(some slot, id)])

def perform (m : Machine) (setting : Setting) (current : Option LeaseId) : Action → Machine
  | .reserve number slot => m.reserve setting.policy number slot
  | .reserveAny slot => m.reserveAny setting slot
  | .reserveMany count slot => m.reserveMany setting count slot
  | .find number slot => m.find number slot
  | .clone slot into => m.withSlot slot fun m id => m.copy id into
  | .keep slot =>
    match current with
    | none => m
    | some id => m.copy id slot
  | .drop slot =>
    m.withSlot slot fun m id => ({ m with slots := m.slots.erase slot }).letGo id
  | .close slot verify => m.withSlot slot fun m id => m.close id verify
  | .closeCurrent verify =>
    match current with
    | none => m
    | some id => m.close id verify
  | .onClose slot name body => m.withSlot slot fun m id => m.onClose id name body
  | .fail failure => m.raise failure

def settle (m : Machine) (port : Port) (failures : List String) : Machine :=
  if failures.isEmpty then m else m.raise (.error (.hooksFailed port failures))

def finishHooks (m : Machine) (setting : Setting) (port : Port) (failures : List String) :
    Occasion → Machine
  | .reclaim => m.logAll (failures.map (.hookFailedInReclaim port))
  | .late => m.logAll (failures.map (.hookFailed port))
  | .close verify =>
    if verify && setting.policy.checkRelease then
      let m' := ({ m with queries := m.queries + 1 }).emit (.queried (some port))
      (m'.push (.check port m.queries failures)).push (.body setting.reaction none)
    else m.settle port failures

def startHook (m : Machine) (lease : LeaseId) (port : Port) (hook : Hook) : Machine :=
  let current := m.pool.current? port
  let m := m.emit (.hookStarted lease hook.number hook.name port current m.pool.takenCount)
  let m := match current with
    | none => m
    | some id => { m with pool := m.pool.retain id }
  m.push (.body hook.body current)

def endBody (m : Machine) (failure : Option Failure) : Machine :=
  match m.stack with
  | .hooks lease port running todo failures occasion :: rest =>
    let failures := failures ++ (failure.map Failure.text).toList
    ({ m with stack := .hooks lease port running todo failures occasion :: rest }).emit
      (.hookEnded lease running failure)
  | [] => { m with outcome := failure }
  | _ => m

def step (setting : Setting) (m : Machine) : Machine :=
  match m.stack with
  | [] => m
  | frame :: rest =>
    let below := { m with stack := rest }
    match frame with
    | .body [] current => below.push (.ending current none)
    | .body (action :: todo) current =>
      (below.push (.body todo current)).perform setting current action
    | .ending (some id) failure => (below.push (.ending none failure)).letGo id
    | .ending none failure => below.endBody failure
    | .hooks _ port _ [] failures occasion => below.finishHooks setting port failures occasion
    | .hooks lease port _ (hook :: todo) failures occasion =>
      (below.push (.hooks lease port hook.number todo failures occasion)).startHook lease port hook
    | .check port query failures =>
      let table := setting.table query
      let answer := table.query (some port)
      let m := (below.logAll answer.log).logAll (verdict port table.conclusive answer.sockets)
      m.settle port failures
    | .handOver [] => below
    | .handOver ((slot, id) :: todo) => (below.push (.handOver todo)).store slot id

def run (setting : Setting) : (limit : Nat) → Machine → Machine
  | 0, m => m
  | limit + 1, m => if m.stack.isEmpty then m else run setting limit (m.step setting)

def start (m : Machine) (actions : List Action) : Machine :=
  ({ m with outcome := none }).push (.body actions none)

end Machine

end PortLease.Script
