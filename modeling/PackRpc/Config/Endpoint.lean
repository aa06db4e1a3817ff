import PackRpc.Duration

namespace PackRpc

def defaultHost : String := "127.0.0.1"

def defaultPort : UInt16 := 9199

def defaultTimeout : Duration := .ofSeconds 10

structure Endpoint where
  host : String := defaultHost
  port : UInt16 := defaultPort
  name : String := ""
  /-- A timeout of zero is none. -/
  timeout : Duration := defaultTimeout
  deriving DecidableEq, Inhabited

namespace Endpoint

def default : Endpoint := {}

/-- The address; a host with colons in it stands between brackets. -/
def address (e : Endpoint) : String :=
  let host := if e.host.contains ':' && !e.host.startsWith "[" then "[" ++ e.host ++ "]" else e.host
  host ++ ":" ++ toString e.port.toNat

/-- The address, with the service name before it if there is one. -/
def text (e : Endpoint) : String :=
  if e.name.isEmpty then e.address else e.name ++ "@" ++ e.address

end Endpoint

end PackRpc
