import PackRpc.Server.Basic
import PackRpc.Stream.Reader
import PackRpc.Stream.Writer

namespace PackRpc

/-- One connection: what has arrived on it, what was sent, whether it is still served, and the requests
it brought, the last one first. -/
structure Connection where
  reader : StreamReader
  sink : Sink := {}
  isOpen : Bool := true
  requests : List Request := []

namespace Connection

variable {σ : Type}

def new (limits : Limits) : Connection := { reader := .new limits }

def handle (server : Server σ) (c : Connection) (state : σ) : Message → Connection × σ
  | .request id method params =>
    let (outcome, state) := server.dispatch method params state
    let (written, sink) := c.sink.writeMessage c.reader.limits (.ofOutcome id outcome)
    let requests := ⟨id, method, params⟩ :: c.requests
    ({ c with sink, isOpen := written.isOk, requests }, state)
  | .notification method params => (c, (server.dispatch method params state).2)
  | .response .. => (c, state)

/-- Takes messages for as long as there are any. A silent stream is left as it is. -/
def serveFrom (server : Server σ) : (fuel : Nat) → Connection → σ → Source → Connection × σ
  | 0, c, state, _ => (c, state)
  | fuel + 1, c, state, source =>
    let p := c.reader.readMessage StreamReader.unguarded source
    let c := { c with reader := p.reader }
    match p.result with
    | .ok m =>
      let (c, state) := handle server c state m
      if c.isOpen then serveFrom server fuel c state p.source else (c, state)
    | .error e =>
      if e.isTimeout then
        if p.source.events.isEmpty && p.source.ending == .silent then (c, state)
        else serveFrom server fuel c state p.source
      else ({ c with isOpen := false }, state)

/-- Serves what arrives on a connection. Each message takes at least one byte and each read that fails
an event, so the work in the stream bounds the number of steps. -/
def serve (server : Server σ) (c : Connection) (state : σ) (source : Source) : Connection × σ :=
  if c.isOpen then
    serveFrom server (source.size + c.reader.buffer.bytes.length + 1) c state source
  else (c, state)

end Connection

end PackRpc
