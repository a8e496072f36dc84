import PortLease.Log
import PortLease.Policy
import PortLease.Pool

/-!
Reserving ports: a given one, any free one, or many at once. The scan for a free port begins at a
port it is given and goes round once; a port that turns out to be bound elsewhere is claimed and
closed again, and the scan goes on behind it. Many ports are reserved together or not at all.
-/

namespace PortLease.Pool

variable {η : Type}

def reserve (policy : Policy) (pool : Pool η) (number : Int) :
    Except Refusal (Option LeaseId × Pool η × LogRecord) :=
  match policy.check number with
  | .error refusal => .error refusal
  | .ok port =>
    if pool.taken.contains port then .ok (none, pool, .alreadyReserved port)
    else
      let (id, pool) := pool.lend port
      .ok (some id, pool, .reserved port id)

/-- What the world outside answers: where the n-th scan begins, and whether the port of the n-th probe
can be bound. -/
structure World where
  scanStart : Nat → Port
  bindable : Nat → Port → Bool

structure Asked where
  scans : Nat := 0
  probes : Nat := 0
  deriving DecidableEq, Repr

structure Exhausted where
  busy : Nat
  deriving DecidableEq, Repr

def Exhausted.toError (policy : Policy) (e : Exhausted) : PortError :=
  .portsExhausted ("no free port in 1024-65535 outside the ephemeral range " ++
    s!"{policy.excluded.text} ({e.busy} in use by other processes)")

structure Course (η : Type) where
  pool : Pool η
  asked : Asked
  log : List LogRecord

namespace Course

def note (course : Course η) (record : LogRecord) : Course η :=
  { course with log := record :: course.log }

def discard : Course η → LeaseId → Course η
  | ⟨pool, asked, log⟩, id =>
    let (closed, pool) := pool.close id
    let log := match closed with
      | some lease => .released lease.port id :: log
      | none => log
    ⟨(pool.letGo id).2, asked, log⟩

def scan (policy : Policy) (world : World) :
    (tries : Nat) → (busy : PortSet) → (start : Port) → Course η →
      Except Exhausted LeaseId × Course η
  | 0, busy, _, course => (.error ⟨busy.size⟩, course)
  | tries + 1, busy, start, ⟨pool, asked, log⟩ =>
    match pool.taken.find? start fun p => policy.isCandidate p && !busy.contains p with
    | none => (.error ⟨busy.size⟩, ⟨pool, asked, log⟩)
    | some port =>
      let (id, pool) := pool.lend port
      if policy.probeBind then
        let bindable := world.bindable asked.probes port
        let asked := { asked with probes := asked.probes + 1 }
        if bindable then (.ok id, ⟨pool, asked, .reservedFree port id :: log⟩)
        else
          scan policy world tries (busy.insert port) (port + 1)
            (discard ⟨pool, asked, .boundElsewhere port :: log⟩ id)
      else (.ok id, ⟨pool, asked, .reservedFree port id :: log⟩)

def reserveAny (policy : Policy) (world : World) (course : Course η) :
    Except Exhausted LeaseId × Course η :=
  let start := world.scanStart course.asked.scans
  let course := { course with asked.scans := course.asked.scans + 1 }
  course.scan policy world (Port.count + 1) .empty start

def reserveMore (policy : Policy) (world : World) :
    (left : Nat) → (claimed : List LeaseId) → Course η →
      Except Exhausted (List LeaseId) × Course η
  | 0, claimed, course => (.ok claimed.reverse, course)
  | left + 1, claimed, course =>
    match course.reserveAny policy world with
    | (.ok id, course) => reserveMore policy world left (id :: claimed) course
    | (.error e, course) =>
      let course := course.note (.rollingBack claimed.length (e.toError policy))
      (.error e, claimed.reverse.foldl discard course)

end Course

structure BadCount where
  number : Int
  deriving DecidableEq, Repr

def BadCount.toError (c : BadCount) : PortError :=
  .invalidCount s!"cannot reserve {c.number} ports, count must be within 1-65535"

def checkCount (number : Int) : Except BadCount Nat :=
  if number < 1 ∨ 65535 < number then .error ⟨number⟩ else .ok number.toNat

end PortLease.Pool
