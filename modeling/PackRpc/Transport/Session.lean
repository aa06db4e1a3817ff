import PackRpc.Client.Error
import PackRpc.Config.Endpoint
import PackRpc.Stream.Reader
import PackRpc.Stream.Writer
import PackRpc.Text.Quoted
/-!
# Sessions

A session makes calls over one connection at a time. It connects when it has to, numbers its requests,
and waits for the answer with the number of its request. Whatever goes wrong below the answer drops the
connection, so that an answer that comes too late is never taken for that of another call.

What a call meets is given beforehand: how connecting ends, what the clock shows, what writes meet, and
what arrives once bytes have been sent. That a socket refuses the timeout it is given is not among these:
it would end the call as a fault of the write or the read behind it does.
-/
namespace PackRpc

structure Conditions where
  /-- How an attempt to connect ends. -/
  dial : Except TransportError Unit := .ok ()
  /-- What the clock shows, the first, second, … time it is read. -/
  clock : Nat → Instant := fun _ => ⟨0⟩
  writes : List WriteEvent := []
  flushes : List (Option Fault) := []
  /-- What arrives after the bytes that were sent. -/
  arrivals : Bytes → Source

/-- An open connection, with what has arrived on it and was not needed yet. -/
structure Link where
  reader : StreamReader
  incoming : List ReadEvent := []

structure Session where
  host : String
  port : UInt16
  connectTimeout : Duration
  limits : Limits := .default
  link : Option Link := none
  nextId : UInt32 := 0

namespace Session

def ofEndpoint (e : Endpoint) (limits : Limits := .default) : Session :=
  { host := e.host, port := e.port, connectTimeout := e.timeout, limits }

def isConnected (s : Session) : Bool := s.link.isSome

def disconnect (s : Session) : Session := { s with link := none }

def structural (s : Session) : String :=
  "TcpTransport \x7b host: " ++ Text.quoted s.host ++ ", port: " ++ toString s.port.toNat ++
    ", connected: " ++ toString s.isConnected ++ " \x7d"

/-- What became of a call: its outcome, the session after it, and the bytes that were sent. -/
structure Exchange where
  outcome : Except InvokeError Packed
  session : Session
  sent : Bytes := []

def failure (timeout : Duration) (e : StreamError) : TransportError :=
  if e.isTimeout then .timeout timeout
  else
    match e with
    | .io fault => .io fault
    | .closed => .disconnected
    | e => .protocol e.message

/-- Whether a deadline has passed. A timeout of zero sets none. -/
def expired (timeout : Duration) (deadline now : Instant) : Bool :=
  !timeout.isZero && decide (deadline.nanos ≤ now.nanos)

def guard (c : Conditions) (timeout : Duration) (deadline : Instant) (readings : Nat) :
    Option StreamError :=
  if expired timeout deadline (c.clock readings) then some (.io (.ofKind .timedOut)) else none

inductive Reception where
  | answer (outcome : Except InvokeError Packed)
  | violation (text : String)
  | ignored

def receive (id : UInt32) : Message → Reception
  | .response found error result =>
    if found = id then
      .answer <| match Message.outcome error result with
        | .ok w => .ok w
        | .error w => .error (.remote w)
    else
      .violation ("response msgid " ++ toString found.toNat ++ " does not match request " ++
        toString id.toNat)
  | .notification .. => .ignored
  | .request _ method _ => .violation ("unexpected request '" ++ method ++ "' from server")

/-- Waits for the answer to a request. Gives the connection back if it can still be used. The clock has
been read `readings` times. -/
def await (c : Conditions) (timeout : Duration) (deadline : Instant) (id : UInt32) :
    (fuel : Nat) → (readings : Nat) → StreamReader → Source →
      Except InvokeError Packed × Option Link
  | 0, _, _, _ => (.error (.transport .disconnected), none)
  | fuel + 1, readings, reader, source =>
    let p := reader.readMessage (fun n => guard c timeout deadline (readings + n)) source
    match p.result with
    | .error e => (.error (.transport (failure timeout e)), none)
    | .ok m =>
      match receive id m with
      | .answer outcome => (outcome, some ⟨p.reader, p.source.events⟩)
      | .violation text => (.error (.transport (.protocol text)), none)
      | .ignored => await c timeout deadline id fuel (readings + p.guards) p.reader p.source

/-- Each message that is ignored takes at least one byte. -/
def awaitFuel (reader : StreamReader) (source : Source) : Nat :=
  source.size + reader.buffer.bytes.length + 1

def roundTrip (c : Conditions) (s : Session) (link : Link) (id : UInt32) (method : String)
    (params : List Packed) (timeout : Duration) (deadline : Instant) : Exchange :=
  if expired timeout deadline (c.clock 1) then
    ⟨.error (.transport (.timeout timeout)), s.disconnect, []⟩
  else
    let sink : Sink := { writes := c.writes, flushes := c.flushes }
    match sink.writeMessage s.limits (.request id method params) with
    | (.error (.format (.tooLarge size max)), sink) =>
      ⟨.error (.tooLarge size max), { s with link := some link }, sink.taken⟩
    | (.error e, sink) => ⟨.error (.transport (failure timeout e)), s.disconnect, sink.taken⟩
    | (.ok (), sink) =>
      let arrived := c.arrivals sink.taken
      let source : Source := ⟨link.incoming ++ arrived.events, arrived.ending⟩
      let (outcome, link) :=
        await c timeout deadline id (awaitFuel link.reader source) 2 link.reader source
      ⟨outcome, { s with link }, sink.taken⟩

/-- The connection to use, a new one if there is none. -/
def connected (c : Conditions) (s : Session) : Except TransportError Link :=
  match s.link with
  | some link => .ok link
  | none => c.dial.map fun () => ⟨.new s.limits, []⟩

/-- Calls a method. There is no outcome at all if the clock cannot tell the deadline: then the caller stops,
with an id taken and nothing sent. -/
def invoke (c : Conditions) (s : Session) (method : String) (params : List Packed)
    (timeout : Duration) : Option Exchange :=
  match connected c s with
  | .error e => some ⟨.error (.transport e), s, []⟩
  | .ok link =>
    match (c.clock 0).after? timeout with
    | none => none
    | some deadline =>
      some (roundTrip c { s with nextId := s.nextId + 1 } link s.nextId method params timeout deadline)

end Session

end PackRpc
