import PackRpc.Loopback.Address
import PackRpc.Loopback.Channel
import PackRpc.OrderedMap

namespace PackRpc.Loopback

/-- A stream: which channel it belongs to, and at which of its ends it is. -/
structure Stream where
  channel : Nat
  side : Side
  deriving DecidableEq

structure Listener where
  port : UInt16
  /-- The channels that wait to be accepted, the first to come being the first. -/
  waiting : List Nat := []

structure Streams where
  ports : Ports := {}
  listener : Option Listener := none
  /-- Every channel there has been, the latest first. -/
  channels : List Channel := []
  /-- The streams by name. -/
  streams : OrderedMap String Stream := .empty

namespace Streams

def index (s : Streams) (channel : Nat) : Nat := s.channels.length - 1 - channel

def channel (s : Streams) (i : Stream) : Channel := s.channels.getD (s.index i.channel) {}

def setChannel (s : Streams) (i : Stream) (c : Channel) : Streams :=
  { s with channels := s.channels.set (s.index i.channel) c }

def release (s : Streams) (i : Stream) : Streams := s.setChannel i ((s.channel i).drop i.side)

/-- Names a stream. What had the name before is dropped. -/
def setStream (s : Streams) (name : String) (i : Stream) : Streams :=
  let s := match s.streams.get? name with
    | some old => s.release old
    | none => s
  { s with streams := s.streams.insert name i }

/-- Closes a listener: its port is free again, and those who wait there meet a closed end. -/
def close (s : Streams) : Streams :=
  match s.listener with
  | none => s
  | some l =>
    let s := l.waiting.foldl (fun s n => s.release ⟨n, .far⟩) s
    { s with listener := none, ports := ⟨s.ports.used.erase l.port⟩ }

/-- Listens on an address, in place of any other. Gives the port. -/
def listen (s : Streams) (address : String) : Except TransportError (UInt16 × Streams) := do
  let (port, ports) ← s.ports.bind address
  let s := close { s with ports }
  return (port, { s with listener := some { port } })

def listenAgain (s : Streams) : Except TransportError Unit :=
  match s.listener with
  | none => .ok ()
  | some l => (s.ports.bind (Ports.addressText Ports.here l.port.toNat)).map fun _ => ()

def connect (s : Streams) (name host : String) (port : UInt16) (timeout : Duration) :
    Except TransportError Streams := do
  s.ports.dial host port timeout
  let n := s.channels.length
  let listener := s.listener.map fun l => { l with waiting := l.waiting ++ [n] }
  return { s with listener, channels := {} :: s.channels }.setStream name ⟨n, .near⟩

/-- Accepts the connection that has waited longest, and names its far end. -/
def accept (s : Streams) (name : String) : Except TransportError Streams :=
  match s.listener with
  | some { port, waiting := n :: waiting } =>
    .ok ({ s with listener := some { port, waiting } }.setStream name ⟨n, .far⟩)
  | _ => .error (.accept .nothingThere)

def clone (s : Streams) (i : Stream) (name : String) : Streams :=
  (s.setChannel i ((s.channel i).clone i.side)).setStream name i

def write (s : Streams) (i : Stream) (bytes : Bytes) : Except Fault Streams :=
  ((s.channel i).write i.side bytes).map (s.setChannel i)

def read (s : Streams) (i : Stream) (n : Nat) : Except Fault (Bytes × Streams) :=
  ((s.channel i).read i.side n).map fun (bytes, c) => (bytes, s.setChannel i c)

def shutdown (s : Streams) (i : Stream) : Streams := s.setChannel i ((s.channel i).shutdown i.side)

def drop (s : Streams) (name : String) : Streams :=
  match s.streams.get? name with
  | none => s
  | some i =>
    { s.release i with streams := ⟨s.streams.entries.filter fun e => e.1 ≠ name⟩ }

/-- Checks how long reads and writes of a stream may wait; without a limit they may wait for ever. -/
def checkTimeout (timeout : Option Duration) : Except TransportError Unit :=
  match timeout with
  | some d =>
    if d.isZero then .error (.io ⟨.invalidInput, some "cannot set a 0 duration timeout"⟩) else .ok ()
  | none => .ok ()

end Streams

/-- The structural text of a stream, up to the address of its peer. -/
def Stream.structural : String := "RpcStream \x7b type: \"tcp\", peer: Some("

end PackRpc.Loopback
