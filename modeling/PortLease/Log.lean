import PortLease.Error
import PortLease.Socket

namespace PortLease

inductive Level where
  | error
  | warn
  | info
  | debug
  deriving DecidableEq, Repr

def Level.rank : Level → Nat
  | .error => 1
  | .warn => 2
  | .info => 3
  | .debug => 4

def Level.name : Level → String
  | .error => "ERROR"
  | .warn => "WARN"
  | .info => "INFO"
  | .debug => "DEBUG"

inductive LogRecord where
  | ready (excluded : PortRange) (checksRelease : Bool)
  | reserved (port : Port) (lease : Nat)
  | alreadyReserved (port : Port)
  | reservedFree (port : Port) (lease : Nat)
  | boundElsewhere (port : Port)
  | rollingBack (claimed : Nat) (error : PortError)
  | released (port : Port) (lease : Nat)
  | reclaiming (port : Port) (lease : Nat)
  | hookFailed (port : Port) (failure : String)
  | hookFailedInReclaim (port : Port) (failure : String)
  | checkInconclusive (port : Port) (error : PortError)
  | checkClear (port : Port)
  | checkUnavailable (port : Port)
  | notListening (port : Port) (sockets : Nat)
  | stillListening (port : Port) (socket : Socket)
  | tableQueried (selector : String) (records : Nat)
  | rangeDetected (range : PortRange)
  | rangeClamped (detected used : PortRange)
  | rangeRejected (detected fallback : PortRange)
  | rangeUnknown (fallback : PortRange)
  | rangeUnreadable (path : String) (error : String)
  deriving DecidableEq, Repr

namespace LogRecord

def level : LogRecord → Level
  | .stillListening .. => .error
  | .reclaiming .. | .hookFailed .. | .hookFailedInReclaim .. | .rangeRejected ..
  | .rangeUnknown _ => .warn
  | .ready .. => .info
  | _ => .debug

def message : LogRecord → String
  | .ready .. => "Port manager ready"
  | .reserved .. => "Reserved port"
  | .alreadyReserved _ => "Port already reserved"
  | .reservedFree .. => "Reserved free port"
  | .boundElsewhere _ => "Port is bound by another process, skipping"
  | .rollingBack .. => "Rolling back partial batch"
  | .released .. => "Released port"
  | .reclaiming .. => "Port reservation dropped without close, reclaiming"
  | .hookFailed .. => "on-close callback failed"
  | .hookFailedInReclaim .. => "on-close callback failed during reclaim"
  | .checkInconclusive .. => "Release verification inconclusive"
  | .checkClear _ => "Port table reports no sockets on released port"
  | .checkUnavailable _ => "Release verification unavailable on this platform"
  | .notListening .. => "Port released, remaining sockets are not listening"
  | .stillListening port socket =>
    let state := socket.stateText.getD ""
    s!"Port {port.val} is still in {state} state after its reservation was released; " ++
      "the socket bound to it was closed too late or leaked"
  | .tableQueried .. => "lsof query"
  | .rangeDetected _ => "ephemeral port range"
  | .rangeClamped .. => "Clamped ephemeral port range"
  | .rangeRejected .. => "Ignoring implausible ephemeral port range"
  | .rangeUnknown _ => "Could not determine ephemeral port range, using default"
  | .rangeUnreadable .. => "Cannot read ephemeral port range"

def portField (port : Port) : String × String := ("port", toString port.val)

def fields : LogRecord → List (String × String)
  | .ready excluded checks =>
    [("ephemeral", excluded.text), ("release_check", toString checks)]
  | .reserved port lease | .reservedFree port lease | .released port lease
  | .reclaiming port lease => [portField port, ("id", toString lease)]
  | .alreadyReserved port | .boundElsewhere port | .checkClear port | .checkUnavailable port =>
    [portField port]
  | .rollingBack claimed error => [("claimed", toString claimed), ("error", error.message)]
  | .hookFailed port failure | .hookFailedInReclaim port failure =>
    [portField port, ("error", failure)]
  | .checkInconclusive port error => [portField port, ("error", error.message)]
  | .notListening port sockets => [portField port, ("sockets", toString sockets)]
  | .stillListening port socket =>
    [portField port, ("pid", toString socket.pid), ("command", socket.command.getD "?"),
      ("state", socket.stateText.getD "")]
  | .tableQueried selector records =>
    [("selector", selector), ("records", toString records)]
  | .rangeDetected range => [("range", range.text)]
  | .rangeClamped detected used => [("detected", detected.text), ("used", used.text)]
  | .rangeRejected detected fallback =>
    [("detected", detected.text), ("fallback", fallback.text)]
  | .rangeUnknown fallback => [("fallback", fallback.text)]
  | .rangeUnreadable path error => [("path", path), ("error", error)]

end LogRecord

end PortLease
