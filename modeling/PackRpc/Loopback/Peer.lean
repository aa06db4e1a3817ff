import PackRpc.Loopback.Address
import PackRpc.Server.Connection
import PackRpc.Transport.Session
import PackRpc.Client.Basic
/-!
# Peers inside of one process

A peer is the program at the far end of connections, of which one is open at a time. It takes bytes as
they are sent and gives what it sends back. A session and a peer together make calls without a network:
time stands still, writes take everything, and what a peer does not send never comes.
-/
namespace PackRpc.Loopback

structure Peer (σ : Type) where
  /-- Takes a new connection in place of any other. -/
  accept : σ → σ
  /-- Takes bytes. Gives what it sends back, and how the connection goes on after that. -/
  receive : Bytes → σ → Source × σ

/-- A peer with its state, the ports that are listened on and a session. -/
structure World (σ : Type) where
  ports : Ports
  peer : Peer σ
  state : σ
  session : Session

namespace World

variable {σ : Type}

def new (peer : Peer σ) (state : σ) : World σ :=
  let port := Ports.firstFree
  { ports := ⟨[port]⟩, peer, state, session := .ofEndpoint { host := Ports.here, port } }

def dial (w : World σ) : Except TransportError Unit :=
  w.ports.dial w.session.host w.session.port w.session.connectTimeout

/-- The peer during the next call: it has taken a new connection if there was none and there is one now,
whether or not anything is sent over it. -/
def reached (w : World σ) : σ :=
  match w.session.isConnected, w.dial with
  | false, .ok () => w.peer.accept w.state
  | _, _ => w.state

def conditions (w : World σ) : Conditions where
  dial := w.dial
  arrivals sent := (w.peer.receive sent w.reached).1

def afterSent (w : World σ) (sent : Bytes) : σ :=
  if sent.isEmpty then w.reached else (w.peer.receive sent w.reached).2

/-- Makes a call. There is none if its deadline cannot be told. -/
def invoke (method : String) (params : List Packed) (timeout : Duration) :
    StateT (World σ) Option (Except InvokeError Packed) := fun w =>
  match w.session.invoke w.conditions method params timeout with
  | none => none
  | some x => some (x.outcome, { w with session := x.session, state := w.afterSent x.sent })

end World

/-! A server as a peer. -/

structure Serving (σ : Type) where
  server : Server σ
  limits : Limits := .default
  state : σ
  connection : Connection := { reader := .new .default, isOpen := false }

namespace Serving

variable {σ : Type}

def accept (s : Serving σ) : Serving σ := { s with connection := .new s.limits }

def receive (bytes : Bytes) (s : Serving σ) : Source × Serving σ :=
  let connection := { s.connection with sink := {} }
  let (connection, state) := connection.serve s.server s.state ⟨[.data bytes], .silent⟩
  let answers := connection.sink.taken
  (⟨if answers.isEmpty then [] else [.data answers], if connection.isOpen then .silent else .closed⟩,
    { s with connection, state })

def peer : Peer (Serving σ) := ⟨accept, receive⟩

def world (server : Server σ) (state : σ) (limits : Limits := .default) : World (Serving σ) :=
  .new peer { server, limits, state }

/-- Stops the server: nobody listens any more and its connection is closed. -/
def stop (w : World (Serving σ)) : World (Serving σ) :=
  { w with
    ports := {}
    state := { w.state with connection := { w.state.connection with isOpen := false } } }

end Serving

/-! A peer that follows a script. -/

inductive Act where
  /-- Answers with the number of the request plus an offset. -/
  | reply (result error : Packed) (offset : UInt32)
  | send (message : Message)
  | raw (bytes : Bytes)
  | close

/-- A script: for each connection, what is done for its first, second, … request. What was requested is
kept, the last request first. -/
structure Script where
  connections : List (List (List Act))
  exchanges : List (List Act) := []
  reader : StreamReader := .new .default
  isOpen : Bool := false
  requests : List Request := []

namespace Script

def accept (s : Script) : Script :=
  { s with
    connections := s.connections.drop 1
    exchanges := s.connections.headD []
    reader := .new .default
    isOpen := true }

/-- Does one thing for the request with this number. Gives what is sent and whether the connection stays
open. -/
def perform (id : UInt32) : Act → Bytes × Bool
  | .reply result error offset => ((Message.response (id + offset) error result).toPacked.encode, true)
  | .send message => (message.toPacked.encode, true)
  | .raw bytes => (bytes, true)
  | .close => ([], false)

def performAll (id : UInt32) : List Act → Bytes × Bool
  | [] => ([], true)
  | act :: acts =>
    match perform id act with
    | (bytes, false) => (bytes, false)
    | (bytes, true) =>
      let (more, isOpen) := performAll id acts
      (bytes ++ more, isOpen)

def take : (fuel : Nat) → Script → Source → Bytes → Bytes × Script
  | 0, s, _, out => (out, s)
  | fuel + 1, s, source, out =>
    if !s.isOpen then (out, s)
    else
      let p := s.reader.readMessage StreamReader.unguarded source
      let s := { s with reader := p.reader }
      match p.result with
      | .ok (.request id method params) =>
        let (bytes, isOpen) := performAll id (s.exchanges.headD [])
        take fuel
          { s with
            exchanges := s.exchanges.drop 1
            isOpen
            requests := ⟨id, method, params⟩ :: s.requests }
          p.source (out ++ bytes)
      | .ok _ => take fuel s p.source out
      | .error _ => (out, s)

def receive (bytes : Bytes) (s : Script) : Source × Script :=
  let fuel := bytes.length + s.reader.buffer.bytes.length + 1
  let (out, s) := take fuel s ⟨[.data bytes], .silent⟩ []
  (⟨if out.isEmpty then [] else [.data out], if s.isOpen then .silent else .closed⟩, s)

def peer : Peer Script := ⟨accept, receive⟩

end Script

end PackRpc.Loopback
