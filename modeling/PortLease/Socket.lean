import PortLease.Json
import PortLease.Port
import PortLease.Socket.State

namespace PortLease

structure Socket where
  pid : Nat
  command : Option String
  protocol : String
  localAddress : String
  localPort : Port
  remote : Option String
  state : Option ConnectionState
  deriving DecidableEq, Repr

namespace Socket

def isListening (s : Socket) : Bool :=
  s.state.any ConnectionState.isListening

def stateText (s : Socket) : Option String :=
  s.state.map ConnectionState.text

def toJson (s : Socket) : Json :=
  .object [
    ("pid".toList, .nat s.pid),
    ("command".toList, Json.optional Json.str s.command),
    ("protocol".toList, .str s.protocol),
    ("localAddress".toList, .str s.localAddress),
    ("localPort".toList, .nat s.localPort.val),
    ("remote".toList, Json.optional Json.str s.remote),
    ("state".toList, Json.optional Json.str s.stateText)]

end Socket

end PortLease
