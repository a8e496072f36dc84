import Std.Data.TreeMap
import PortLease.Lease
import PortLease.PortSet

/-!
The pool of ports: a bit for each taken port, a registry that names the lease of each, and every lease
ever made, numbered from 1. Each operation here is one indivisible section; longer operations are
made of them.
-/

namespace PortLease

structure Pool (η : Type) where
  taken : PortSet
  registry : Std.TreeMap Port LeaseId
  leases : Array (Lease η)

namespace Pool

variable {η : Type}

def empty : Pool η := ⟨.empty, ∅, #[]⟩

def nextId (pool : Pool η) : LeaseId := pool.leases.size + 1

def lease? (pool : Pool η) (id : LeaseId) : Option (Lease η) :=
  if id = 0 then none else pool.leases[id - 1]?

def setLease (pool : Pool η) (id : LeaseId) (lease : Lease η) : Pool η :=
  { pool with leases := pool.leases.setIfInBounds (id - 1) lease }

def lend : Pool η → Port → LeaseId × Pool η
  | ⟨taken, registry, leases⟩, port =>
    let id := leases.size + 1
    (id, ⟨taken.insert port, registry.insert port id, leases.push { port }⟩)

def claim? (pool : Pool η) (port : Port) : Option (LeaseId × Pool η) :=
  if pool.taken.contains port then none else some (pool.lend port)

def release (pool : Pool η) (id : LeaseId) (port : Port) : Pool η :=
  if pool.registry[port]? = some id then
    { pool with taken := pool.taken.erase port, registry := pool.registry.erase port }
  else pool

/-- The lease that the registry names for a port, while it has a holder. -/
def current? (pool : Pool η) (port : Port) : Option LeaseId :=
  (pool.registry[port]?).filter fun id => (pool.lease? id).any fun lease => 0 < lease.holders

def find? (pool : Pool η) (number : Int) : Option LeaseId :=
  (Port.ofInt? number).bind pool.current?

def retain (pool : Pool η) (id : LeaseId) : Pool η :=
  match pool.lease? id with
  | none => pool
  | some lease => pool.setLease id { lease with holders := lease.holders + 1 }

/-- Ends a lease as `state`. Whoever ends a held lease gets it with its hooks. -/
def finish (pool : Pool η) (id : LeaseId) (state : LeaseState) : Option (Lease η) × Pool η :=
  match pool.lease? id with
  | none => (none, pool)
  | some lease =>
    if lease.isHeld then (some lease, pool.setLease id { lease with state, hooks := [] })
    else (none, pool)

def letGo (pool : Pool η) (id : LeaseId) : Option (Lease η) × Pool η :=
  match pool.lease? id with
  | none => (none, pool)
  | some lease =>
    let pool := pool.setLease id { lease with holders := lease.holders - 1 }
    if lease.holders ≤ 1 then pool.finish id .reclaimed else (none, pool)

def addHook (pool : Pool η) (id : LeaseId) (hook : η) : Bool × Pool η :=
  match pool.lease? id with
  | none => (false, pool)
  | some lease =>
    if lease.isHeld then (true, pool.setLease id { lease with hooks := hook :: lease.hooks })
    else (false, pool)

def close (pool : Pool η) (id : LeaseId) : Option (Lease η) × Pool η :=
  match pool.finish id .closed with
  | (some lease, pool) => (some lease, pool.release id lease.port)
  | (none, pool) => (none, pool)

def takenPorts (pool : Pool η) : List Port := pool.taken.toList

def takenCount (pool : Pool η) : Nat := pool.taken.size

end Pool

end PortLease
