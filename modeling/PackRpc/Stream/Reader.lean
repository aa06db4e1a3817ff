import PackRpc.Stream.Error
import PackRpc.Packed.Scanner
/-!
# Reading messages from a stream

A stream is the list of what its reads will give: data, or a fault; after the last event it has ended, or
is silent. A `StreamReader` keeps what it has received beyond the last value. `readValue` reads until a
value is complete and calls a guard before every read, so that a caller can give up in between.
-/
namespace PackRpc

/-- What one read of a stream meets. -/
inductive ReadEvent where
  | data (bytes : Bytes)
  | fault (fault : Fault)

/-- What reads meet when all events are used up. -/
inductive Ending where
  /-- The stream has ended: nothing comes, at once. -/
  | closed
  /-- Nothing comes for as long as one waits. -/
  | silent
  deriving DecidableEq

structure Source where
  events : List ReadEvent
  ending : Ending := .closed

namespace Source

def chunkSize : Nat := 8 * 1024

def weight : List ReadEvent → Nat
  | [] => 0
  | .data bytes :: rest => bytes.length + 1 + weight rest
  | .fault _ :: rest => 1 + weight rest

def size (s : Source) : Nat := weight s.events

/-- One read of a stream that has events left: at most `chunkSize` bytes of the first one. -/
def read (event : ReadEvent) (rest : List ReadEvent) : Except Fault Bytes × List ReadEvent :=
  match event with
  | .data bytes =>
    if bytes.length ≤ chunkSize then (.ok bytes, rest)
    else (.ok (bytes.take chunkSize), .data (bytes.drop chunkSize) :: rest)
  | .fault fault => (.error fault, rest)

theorem weight_read_lt (event : ReadEvent) (rest : List ReadEvent) :
    weight (read event rest).2 < weight (event :: rest) := by
  cases event with
  | fault fault => simp [read, weight]
  | data bytes =>
    by_cases h : bytes.length ≤ chunkSize
    · simp only [read, if_pos h, weight]; omega
    · have : 0 < chunkSize := by decide
      simp only [read, if_neg h, weight, List.length_drop]; omega

end Source

/-- A reader of values: its limits, and what it has received and not yet given out. -/
structure StreamReader where
  limits : Limits
  buffer : Buffer

namespace StreamReader

def new (limits : Limits) : StreamReader := ⟨limits, .empty⟩

def hasBuffered (r : StreamReader) : Bool := !r.buffer.bytes.isEmpty

/-- How a read went, and where it left the reader and the stream. -/
structure Progress (α : Type) where
  result : Except StreamError α
  reader : StreamReader
  source : Source
  /-- How often the stream was read. -/
  reads : Nat
  /-- How often the guard was asked. -/
  guards : Nat

def unguarded : Nat → Option StreamError := fun _ => none

/-- Reads the next value. `guard n` is asked before the read that follows `n` others; what it
objects ends the call. -/
def readValueFrom (guard : Nat → Option StreamError) (ending : Ending) (asked reads : Nat)
    (r : StreamReader) (events : List ReadEvent) : Progress Packed :=
  match r.buffer.next r.limits with
  | (.ok (some v), buffer) => ⟨.ok v, { r with buffer }, ⟨events, ending⟩, reads, asked⟩
  | (.error e, buffer) => ⟨.error (.format e), { r with buffer }, ⟨events, ending⟩, reads, asked⟩
  | (.ok none, buffer) =>
    match guard asked with
    | some e => ⟨.error e, { r with buffer }, ⟨events, ending⟩, reads, asked + 1⟩
    | none =>
      match events with
      | [] =>
        let e := match ending with
          | .closed => .closed
          | .silent => .io .nothingThere
        ⟨.error e, { r with buffer }, ⟨[], ending⟩, reads + 1, asked + 1⟩
      | event :: rest =>
        match _read : Source.read event rest with
        | (.error fault, left) =>
          if fault.kind = .interrupted then
            readValueFrom guard ending (asked + 1) (reads + 1) { r with buffer } left
          else ⟨.error (.io fault), { r with buffer }, ⟨left, ending⟩, reads + 1, asked + 1⟩
        | (.ok [], left) =>
          ⟨.error .closed, { r with buffer }, ⟨left, ending⟩, reads + 1, asked + 1⟩
        | (.ok (byte :: bytes), left) =>
          readValueFrom guard ending (asked + 1) (reads + 1)
            { r with buffer := buffer.append (byte :: bytes) } left
termination_by Source.weight events
decreasing_by all_goals simpa [_read] using Source.weight_read_lt event rest

def readValue (guard : Nat → Option StreamError) (r : StreamReader) (source : Source) :
    Progress Packed :=
  readValueFrom guard source.ending 0 0 r source.events

def asMessage (result : Except StreamError Packed) : Except StreamError Message :=
  match result with
  | .error e => .error e
  | .ok v =>
    match Message.ofPacked v with
    | .ok m => .ok m
    | .error e => .error (.envelope e)

/-- Reads the next message of a stream. A value that is no message is used up all the same. -/
def readMessage (guard : Nat → Option StreamError) (r : StreamReader) (source : Source) :
    Progress Message :=
  let p := r.readValue guard source
  { p with result := asMessage p.result }

end StreamReader

end PackRpc
