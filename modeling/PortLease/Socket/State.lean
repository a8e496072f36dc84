import PortLease.Text.Blank

namespace PortLease

inductive ConnectionState where
  | listen
  | established
  | synSent
  | synReceived
  | finWait1
  | finWait2
  | timeWait
  | closeWait
  | lastAck
  | closing
  | closed
  | other (name : String)
  deriving DecidableEq, Repr

namespace ConnectionState

def ofName (name : String) : ConnectionState :=
  match name with
  | "LISTEN" => .listen
  | "ESTABLISHED" => .established
  | "SYN_SENT" => .synSent
  | "SYN_RECV" | "SYN_RCVD" | "SYN_RECEIVED" => .synReceived
  | "FIN_WAIT1" | "FIN_WAIT_1" => .finWait1
  | "FIN_WAIT2" | "FIN_WAIT_2" => .finWait2
  | "TIME_WAIT" => .timeWait
  | "CLOSE_WAIT" => .closeWait
  | "LAST_ACK" => .lastAck
  | "CLOSING" => .closing
  | "CLOSED" => .closed
  | unknown => .other unknown

def ofChars (cs : List Char) : ConnectionState :=
  ofName (String.ofList (Text.asciiUpper (Text.trim cs)))

def text : ConnectionState → String
  | .listen => "LISTEN"
  | .established => "ESTABLISHED"
  | .synSent => "SYN_SENT"
  | .synReceived => "SYN_RECV"
  | .finWait1 => "FIN_WAIT1"
  | .finWait2 => "FIN_WAIT2"
  | .timeWait => "TIME_WAIT"
  | .closeWait => "CLOSE_WAIT"
  | .lastAck => "LAST_ACK"
  | .closing => "CLOSING"
  | .closed => "CLOSED"
  | .other name => name

def isListening : ConnectionState → Bool
  | .listen => true
  | _ => false

end ConnectionState

end PortLease
