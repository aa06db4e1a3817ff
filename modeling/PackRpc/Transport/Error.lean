import PackRpc.Duration
import PackRpc.Fault

namespace PackRpc

inductive TransportError where
  | resolve (address : String) (fault : Fault)
  | connect (address : String) (fault : Fault)
  | bind (address : String) (fault : Fault)
  | accept (fault : Fault)
  | io (fault : Fault)
  /-- Nothing came within the time that was given. -/
  | timeout (given : Duration)
  /-- The peer closed the connection before it answered. -/
  | disconnected
  /-- The peer sent something that is no answer. -/
  | protocol (text : String)
  | shutdown
  deriving DecidableEq

namespace TransportError

def message : TransportError → String
  | resolve address fault => "failed to resolve " ++ address ++ ": " ++ fault.message
  | connect address fault => "failed to connect to " ++ address ++ ": " ++ fault.message
  | bind address fault => "failed to bind to " ++ address ++ ": " ++ fault.message
  | accept fault => "failed to accept connection: " ++ fault.message
  | io fault => "transport I/O error: " ++ fault.message
  | timeout given => "timed out after " ++ given.text
  | disconnected => "connection closed by peer"
  | protocol text => "protocol error: " ++ text
  | shutdown => "transport shut down"

def isTimeout : TransportError → Bool
  | timeout _ => true
  | connect _ fault => fault.isTimeout
  | io fault => fault.isTimeout
  | _ => false

end TransportError

end PackRpc
