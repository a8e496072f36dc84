import PortLease.FileBytes
import PortLease.Log
import PortLease.Text.Numeral

/-!
The ephemeral range: ports that the system gives to outgoing connections on its own, so that none of
them may be leased. A detected range is used from port 1024 on; a range that is inverted or ends
below 1024, like one that cannot be read, gives way to the default.
-/

namespace PortLease.Ephemeral

def usable : Option PortRange → PortRange × List LogRecord
  | some r =>
    if r.start ≤ r.stop ∧ Port.lowest ≤ r.stop then
      if Port.lowest ≤ r.start then (r, [])
      else
        let used : PortRange := ⟨Port.lowest, r.stop⟩
        (used, [.rangeClamped r used])
    else (.defaultExcluded, [.rangeRejected r .defaultExcluded])
  | none => (.defaultExcluded, [.rangeUnknown .defaultExcluded])

def procPath : String := "/proc/sys/net/ipv4/ip_local_port_range"

def port? (word : List Char) : Option Port :=
  (Text.natBelow? Port.count word).bind Port.ofNat?

def ofWords? : List (List Char) → Option PortRange
  | first :: last :: _ => do
    let start ← port? first
    let stop ← port? last
    return ⟨start, stop⟩
  | _ => none

def ofProcText? (text : List Char) : Option PortRange := ofWords? (Text.words text)

def detect (file : FileBytes) : Option PortRange × List LogRecord :=
  match file.text with
  | .ok text => (ofProcText? text, [])
  | .error why => (none, [.rangeUnreadable procPath why])

structure Source where
  known : Option PortRange := none
  deriving DecidableEq, Repr

def Source.range (source : Source) (file : FileBytes) : PortRange × List LogRecord × Source :=
  match source.known with
  | some r => (r, [], source)
  | none =>
    let (detected, reading) := detect file
    let (r, judging) := usable detected
    (r, reading ++ judging ++ [.rangeDetected r], { known := some r })

end PortLease.Ephemeral
