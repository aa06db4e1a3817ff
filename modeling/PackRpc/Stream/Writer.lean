import PackRpc.Stream.Error
import PackRpc.Packed.Encoding
import PackRpc.Limits
/-!
# Writing messages to a stream

A sink takes as much of each write as its schedule says, or fails; without a schedule it takes
everything. `writeValue` sends the whole encoding of a value and flushes it, or reports why not; a value
that is too large is refused before the first byte. A `StreamWriter` does so through a buffer that all its
calls share.
-/
namespace PackRpc

/-- What one write or flush meets. -/
inductive WriteEvent where
  /-- At most this many bytes are taken. -/
  | accept (count : Nat)
  | fault (fault : Fault)

/-- A sink: what its next writes and flushes will meet, and what it has taken so far. -/
structure Sink where
  writes : List WriteEvent := []
  /-- A flush without an event succeeds. -/
  flushes : List (Option Fault) := []
  taken : Bytes := []
  writeCalls : Nat := 0
  flushCalls : Nat := 0

namespace Sink

def take (s : Sink) (bytes : Bytes) (writes : List WriteEvent) : Sink :=
  { s with writes, taken := s.taken ++ bytes, writeCalls := s.writeCalls + 1 }

/-- Writes until all bytes are taken or a write fails. An interrupted write is made again. -/
def sendWith (s : Sink) (bytes : Bytes) : List WriteEvent → Except StreamError Unit × Sink
  | [] => if bytes.isEmpty then (.ok (), { s with writes := [] }) else (.ok (), s.take bytes [])
  | event :: rest =>
    if bytes.isEmpty then (.ok (), { s with writes := event :: rest })
    else
      match event with
      | .fault fault =>
        if fault.kind = .interrupted then sendWith (s.take [] rest) bytes rest
        else (.error (.io fault), s.take [] rest)
      | .accept 0 => (.error .closed, s.take [] rest)
      | .accept count => sendWith (s.take (bytes.take count) rest) (bytes.drop count) rest

def send (s : Sink) (bytes : Bytes) : Except StreamError Unit × Sink :=
  s.sendWith bytes s.writes

def flushWith (s : Sink) : List (Option Fault) → Except StreamError Unit × Sink
  | [] => (.ok (), { s with flushes := [], flushCalls := s.flushCalls + 1 })
  | none :: rest => (.ok (), { s with flushes := rest, flushCalls := s.flushCalls + 1 })
  | some fault :: rest =>
    let s := { s with flushes := rest, flushCalls := s.flushCalls + 1 }
    if fault.kind = .interrupted then s.flushWith rest else (.error (.io fault), s)

def flush (s : Sink) : Except StreamError Unit × Sink :=
  s.flushWith s.flushes

def writeValue (limits : Limits) (s : Sink) (v : Packed) : Except StreamError Unit × Sink :=
  match v.toBytes with
  | .error e => (.error (.format e), s)
  | .ok bytes =>
    if bytes.length > limits.maxSize then
      (.error (.format (.tooLarge bytes.length limits.maxSize)), s)
    else
      match s.send bytes with
      | (.ok (), s) => s.flush
      | (.error e, s) => (.error e, s)

def writeMessage (limits : Limits) (s : Sink) (m : Message) : Except StreamError Unit × Sink :=
  s.writeValue limits m.toPacked

end Sink

/-- A writer: its limits, the buffer that every value is encoded into, and the sink behind it. -/
structure StreamWriter where
  limits : Limits
  buffer : Bytes
  sink : Sink

namespace StreamWriter

def new (limits : Limits) (sink : Sink) : StreamWriter := ⟨limits, [], sink⟩

def clear (w : StreamWriter) : StreamWriter := { w with buffer := [] }

def encode (w : StreamWriter) (v : Packed) : Except FormatError Unit × StreamWriter :=
  let (bytes, overlong) := v.put
  let w := { w with buffer := w.buffer ++ bytes }
  match overlong with
  | some length => (.error (.tooLarge length (2 ^ 32 - 1)), w)
  | none => (.ok (), w)

def flush (w : StreamWriter) : Except StreamError Unit × StreamWriter :=
  let (result, sink) := w.sink.flush
  (result, { w with sink })

def send (w : StreamWriter) : Except StreamError Unit × StreamWriter :=
  match w.sink.send w.buffer with
  | (.ok (), sink) => { w with sink }.flush
  | (.error e, sink) => (.error e, { w with sink })

def writeValue (w : StreamWriter) (v : Packed) : Except StreamError Unit × StreamWriter :=
  match w.clear.encode v with
  | (.error e, w) => (.error (.format e), w)
  | (.ok (), w) =>
    if w.buffer.length > w.limits.maxSize then
      (.error (.format (.tooLarge w.buffer.length w.limits.maxSize)), w)
    else w.send

def writeMessage (w : StreamWriter) (m : Message) : Except StreamError Unit × StreamWriter :=
  w.writeValue m.toPacked

end StreamWriter

end PackRpc
