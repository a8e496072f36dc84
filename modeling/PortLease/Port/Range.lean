import PortLease.Json
import PortLease.Port

namespace PortLease

structure PortRange where
  start : Port
  stop : Port
  deriving DecidableEq, Repr

namespace PortRange

def contains (r : PortRange) (p : Port) : Bool :=
  r.start ≤ p && p ≤ r.stop

def size (r : PortRange) : Nat :=
  if r.stop < r.start then 0 else r.stop.val - r.start.val + 1

def isEmpty (r : PortRange) : Bool :=
  r.size == 0

def text (r : PortRange) : String :=
  s!"{r.start.val}-{r.stop.val}"

def toJson (r : PortRange) : Json :=
  .object [("start".toList, .nat r.start.val), ("end".toList, .nat r.stop.val)]

def userSpace : PortRange := ⟨Port.lowest, Port.highest⟩

def meet (r s : PortRange) : PortRange :=
  ⟨if r.start < s.start then s.start else r.start, if r.stop < s.stop then r.stop else s.stop⟩

def defaultExcluded : PortRange := ⟨49152, 65535⟩

def runCons (p : Port) : List PortRange → List PortRange
  | [] => [⟨p, p⟩]
  | r :: rs => if p.val + 1 = r.start.val then ⟨p, r.stop⟩ :: rs else ⟨p, p⟩ :: r :: rs

def runs (ports : List Port) : List PortRange :=
  ports.foldr runCons []

theorem contains_iff {r : PortRange} {p : Port} :
    r.contains p = true ↔ r.start ≤ p ∧ p ≤ r.stop := by
  simp [contains]

theorem isEmpty_iff {r : PortRange} : r.isEmpty = true ↔ r.stop < r.start := by
  by_cases h : r.stop < r.start <;> simp [isEmpty, size, h]

end PortRange

end PortLease
