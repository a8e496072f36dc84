import PortLease.Script.Machine
import PortLease.Settings

namespace PortLease

open Script

/-- Where the port table comes from: nowhere, a tool of the host, or a table given once and for all,
which may act on the pool when it is asked for one port. -/
inductive TableSource where
  | none
  | tool
  | fixed (sockets : List Socket) (error : Option PortError) (conclusive : Bool)
      (reaction : List Action)

inductive Command where
  | reserve (number : Int) (slot : Option Slot)
  | reserveAny (slot : Option Slot)
  | reserveMany (count : Int) (slot : Option Slot)
  | find (number : Int) (slot : Option Slot)
  | close (slot : Slot) (verify : Bool)
  | drop (slot : Slot)
  | dropAll
  | clone (slot into : Slot)
  | onClose (slot : Slot) (name : String) (body : List Action)
  | compare (slot other : Slot)
  | describe (slot : Slot)
  | areLeasable (numbers : List Int)
  | capacity
  | taken
  | settings
  | query (port : Option Port)
  | setHost (installed : List (String × Installed))
  | race (programs : Nat) (first last : Int)
  | occupy (port : Port)
  | vacate (port : Port)
  | isBindable (port : Port)

inductive Answer where
  | done
  | taken
  | lease (id : Option LeaseId)
  | error (error : PortError)
  | missing (slot : Slot)
  | any (leasable registered : Bool) (port : Port) (id : LeaseId)
  | many (leases : List (Port × LeaseId)) (leasable : Bool)
  | number (n : Nat)
  | truth (b : Bool)
  | truths (bs : List Bool)
  | same (equal : Bool) (distinct : Nat)
  | description (id : LeaseId) (lease : Lease Hook)
  | capacity (capacity : Nat) (excluded : PortRange)
  | ports (ports : List Port)
  | settings (settings : Settings)
  | sockets (sockets : Except PortError (List Socket)) (conclusive : Bool)
  | race (won distinct taken : Nat)
  | nothing

structure Scenario where
  settings : Settings
  excluded : PortRange
  source : TableSource := .none
  installed : List (String × Installed) := []
  occupied : List Port := []
  scanStart : Nat → Port
  limit : Nat
  machine : Machine := {}

namespace Scenario

def policy (s : Scenario) : Policy := s.settings.policy s.excluded

def TableSource.table (source : TableSource) (host : Host) (program : String) : PortTable :=
  match source with
  | .none => .none
  | .tool => .ofTool host program
  | .fixed sockets error conclusive _ =>
    { conclusive
      query := fun port =>
        match error with
        | some e => { sockets := .error e }
        | Option.none => { sockets := .ok (PortTable.onPort port sockets) } }

def TableSource.reaction : TableSource → List Action
  | .fixed _ _ _ reaction => reaction
  | _ => []

def table (s : Scenario) : PortTable :=
  TableSource.table s.source (.ofInstalled s.installed) s.settings.tableProgram

def setting (s : Scenario) : Setting :=
  let occupied := s.occupied
  let table := s.table
  { policy := s.policy
    world := ⟨s.scanStart, fun _ port => !occupied.contains port⟩
    table := fun _ => table
    reaction := TableSource.reaction s.source }

def ready (s : Scenario) : LogRecord := .ready s.excluded s.policy.checkRelease

def runActions (s : Scenario) (actions : List Action) : Scenario :=
  let setting := s.setting
  { s with machine := (s.machine.start actions).run setting s.limit }

def failure? (s : Scenario) : Option PortError :=
  match s.machine.outcome with
  | some (.error e) => some e
  | _ => none

def act (s : Scenario) (action : Action) (answer : List Event → Answer) : Answer × Scenario :=
  let s := s.runActions [action]
  match s.failure? with
  | some e => (.error e, s)
  | none => (answer s.machine.trace.reverse, s)

def actOn (s : Scenario) (slot : Slot) (action : Action) : Answer × Scenario :=
  if s.machine.slots.contains slot then s.act action fun _ => .done else (.missing slot, s)

def firstAnswer (pick : Event → Option Answer) (events : List Event) : Answer :=
  (events.findSome? pick).getD .nothing

def grantedAnswer : Event → Option Answer
  | .granted _ (some id) => some (.lease (some id))
  | .granted _ none => some .taken
  | _ => none

def grantedAnyAnswer (policy : Policy) : Event → Option Answer
  | .grantedAny port id registered =>
    some (.any (policy.isLeasable port.val) registered port id)
  | _ => none

def grantedManyAnswer (policy : Policy) : Event → Option Answer
  | .grantedMany leases =>
    some (.many leases (leases.all fun lease => policy.isLeasable lease.1.val))
  | _ => none

def foundAnswer : Event → Option Answer
  | .found lease => some (.lease lease)
  | _ => none

def dropAll (s : Scenario) : Scenario :=
  s.machine.slots.keys.foldl
    (fun s slot => if s.machine.slots.contains slot then s.runActions [.drop slot] else s) s

def ask (s : Scenario) (port : Option Port) : Answer × Scenario :=
  let s := { s with machine := s.machine.emit (.queried port) }
  let s := if port.isSome then s.runActions s.setting.reaction else s
  let answer := s.table.query port
  (.sockets answer.sockets s.table.conclusive,
    { s with machine := s.machine.logAll answer.log })

def raceOnce (policy : Policy) (numbers : List Int) (pool : Pool Hook) :
    List LeaseId × Pool Hook :=
  numbers.foldl
    (fun (won, pool) number =>
      match pool.reserve policy number with
      | .ok (some id, pool, _) => (id :: won, pool)
      | .ok (none, pool, _) => (won, pool)
      | .error _ => (won, pool))
    ([], pool)

def race (s : Scenario) (programs : Nat) (first last : Int) : Answer × Scenario :=
  let numbers := (List.range (last - first + 1).toNat).map fun (n : Nat) => first + n
  let (won, pool) := (List.range programs).foldl
    (fun (won, pool) _ =>
      let (more, pool) := raceOnce s.policy numbers pool
      (more ++ won, pool))
    ([], s.machine.pool)
  let ports := PortSet.ofList (won.filterMap fun id => (pool.lease? id).map Lease.port)
  let distinct := ports.size
  let after := won.foldl (fun pool id => ((pool.close id).2.letGo id).2) pool
  (.race won.length distinct pool.takenCount, { s with machine.pool := after })

def perform (s : Scenario) : Command → Answer × Scenario
  | .reserve number slot => s.act (.reserve number slot) (firstAnswer grantedAnswer)
  | .reserveAny slot => s.act (.reserveAny slot) (firstAnswer (grantedAnyAnswer s.policy))
  | .reserveMany count slot =>
    s.act (.reserveMany count slot) (firstAnswer (grantedManyAnswer s.policy))
  | .find number slot => s.act (.find number slot) (firstAnswer foundAnswer)
  | .close slot verify => s.actOn slot (.close slot verify)
  | .drop slot => s.actOn slot (.drop slot)
  | .dropAll => (.number s.machine.slots.size, s.dropAll)
  | .clone slot into => s.actOn slot (.clone slot into)
  | .onClose slot name body => s.actOn slot (.onClose slot name body)
  | .compare slot other =>
    match s.machine.slots[slot]?, s.machine.slots[other]? with
    | none, _ => (.missing slot, s)
    | _, none => (.missing other, s)
    | some a, some b => (.same (a == b) [a, b].eraseDups.length, s)
  | .describe slot =>
    match s.machine.slots[slot]? with
    | none => (.missing slot, s)
    | some id =>
      match s.machine.pool.lease? id with
      | none => (.missing slot, s)
      | some lease => (.description id lease, s)
  | .areLeasable numbers => (.truths (numbers.map s.policy.isLeasable), s)
  | .capacity => (.capacity s.policy.capacity s.excluded, s)
  | .taken => (.ports s.machine.pool.takenPorts, s)
  | .settings => (.settings s.settings, s)
  | .query port => s.ask port
  | .setHost installed => (.nothing, { s with installed })
  | .race programs first last => s.race programs first last
  | .occupy port => (.done, { s with occupied := port :: s.occupied })
  | .vacate port =>
    (.truth (s.occupied.contains port), { s with occupied := s.occupied.filter (· != port) })
  | .isBindable port => (.truth (!s.occupied.contains port), s)

def shown (command : Command) (events : List Event) : List Event :=
  match command with
  | .reserve .. => events.eraseP fun e => (grantedAnswer e).isSome
  | _ => events

def step (s : Scenario) (command : Command) : Answer × List Event × Scenario :=
  let (answer, s) := ({ s with machine.trace := [] }).perform command
  (answer, shown command s.machine.trace.reverse, s)

end Scenario

end PortLease
