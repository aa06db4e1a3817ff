import PackRpc.Server.Connection
import PackRpc.Proofs.Message.Carriage
import PackRpc.Proofs.Stream.Reader
import PackRpc.Proofs.Stream.Writer

namespace PackRpc.Connection
open StreamReader (Holds load)

variable {σ : Type} {server : Server σ} {limits : Limits}

/-- The faults after which a server reads on. -/
def Tolerated (fault : Fault) : Prop := fault.kind = .interrupted ∨ fault.isTimeout = true

theorem Tolerated.isTimeout {fault : Fault} (h : Tolerated fault) (other : fault.kind ≠ .interrupted) :
    (StreamError.io fault).isTimeout = true :=
  h.resolve_left other

/-- How serving may end on bytes from which no value can be read. -/
inductive TailLaw (limits : Limits) (ending : Ending) (tail : Bytes) (c : Connection) (state : σ) :
    Connection × σ → Prop
  | ended {reader} : ending = .closed →
      TailLaw limits ending tail c state ({ c with reader, isOpen := false }, state)
  | refused {reader events e} : Holds Tolerated limits reader events tail →
      StreamReader.answer limits reader = .error e →
      TailLaw limits ending tail c state ({ c with reader, isOpen := false }, state)
  | waiting {reader} : ending = .silent → Holds Tolerated limits reader [] tail →
      TailLaw limits ending tail c state ({ c with reader }, state)

theorem serveFrom_tail (server : Server σ) (state : σ) (ending : Ending) {c : Connection}
    {events : List ReadEvent} {tail : Bytes} {fuel : Nat} (h : Holds Tolerated limits c.reader events tail)
    (undecodable : ∀ front v, front <+: tail → Packed.ofBytes limits front ≠ .ok v)
    (enough : load c.reader events < fuel) :
    TailLaw limits ending tail c state (serveFrom server fuel c state ⟨events, ending⟩) := by
  induction fuel generalizing c events with
  | zero => exact absurd enough (Nat.not_lt_zero _)
  | succ fuel ih =>
      have law := StreamReader.readValue_law StreamReader.unguarded ending h
      generalize read : c.reader.readValue StreamReader.unguarded ⟨events, ending⟩ = q at law
      cases law with
      | value split accepted => exact absurd accepted (undecodable _ _ ⟨_, split.symm⟩)
      | stopped objected => cases objected
      | @refused e reader _ _ _ holds refused =>
          simp only [serveFrom, StreamReader.readMessage, read, StreamReader.asMessage, StreamError.isTimeout]
          exact .refused holds refused
      | @failed fault reader left _ _ allowed other holds _ less _ =>
          simp only [serveFrom, StreamReader.readMessage, read, StreamReader.asMessage,
            allowed.isTimeout other, if_true]
          split
          · next silent =>
              rw [Bool.and_eq_true, beq_iff_eq, List.isEmpty_iff] at silent
              obtain ⟨rfl, silent⟩ := silent
              exact .waiting silent holds
          · have law := ih (c := { c with reader }) holds
              (Nat.lt_of_lt_of_le less (Nat.le_of_lt_succ enough))
            generalize serveFrom server fuel { c with reader } state _ = out at law ⊢
            cases law with
            | ended closed => exact .ended closed
            | refused holds refused => exact .refused holds refused
            | waiting silent holds => exact .waiting silent holds
      | @exhausted reader _ _ holds =>
          simp only [serveFrom, StreamReader.readMessage, read, StreamReader.asMessage]
          cases ending with
          | closed => exact .ended rfl
          | silent => exact .waiting rfl holds

theorem serveFrom_idle (server : Server σ) {c : Connection} (state : σ) {events : List ReadEvent}
    {fuel : Nat} (h : Holds Tolerated limits c.reader events []) (enough : load c.reader events < fuel) :
    ∃ reader, Holds Tolerated limits reader [] [] ∧
      serveFrom server fuel c state ⟨events, .silent⟩ = ({ c with reader }, state) := by
  have nothing : StreamReader.Part limits [] := .inl rfl
  have law := serveFrom_tail server state .silent h (fun _ _ ⟨_, split⟩ => nothing.incomplete split.symm) enough
  generalize serveFrom server fuel c state ⟨events, .silent⟩ = out at law
  cases law with
  | ended closed => cases closed
  | refused holds refused =>
      rw [nothing.answer ⟨_, holds.whole⟩] at refused
      cases refused
  | @waiting reader _ holds => exact ⟨reader, holds, rfl⟩

/-- What a server does with a value that it has read. -/
def receive (server : Server σ) (fuel : Nat) (c : Connection) (state : σ) (v : Packed) (source : Source) :
    Connection × σ :=
  match Message.ofPacked v with
  | .ok m =>
    let (c, state) := handle server c state m
    if c.isOpen then serveFrom server fuel c state source else (c, state)
  | .error _ => ({ c with isOpen := false }, state)

/-- A value that stands first in the stream is received, after the faults before its end. -/
theorem serveFrom_front (server : Server σ) (state : σ) (ending : Ending) {c : Connection}
    {events : List ReadEvent} {front rest : Bytes} {v : Packed} {fuel : Nat}
    (h : Holds Tolerated limits c.reader events (front ++ rest)) (enough : load c.reader events < fuel)
    (accepted : Packed.ofBytes limits front = .ok v) (small : front.length ≤ limits.maxSize) :
    ∃ reader left fuel', Holds Tolerated limits reader left rest ∧ load reader left < fuel' ∧
      serveFrom server fuel c state ⟨events, ending⟩ =
        receive server fuel' { c with reader } state v ⟨left, ending⟩ := by
  induction fuel generalizing c events with
  | zero => exact absurd enough (Nat.not_lt_zero _)
  | succ fuel ih =>
      have law := StreamReader.readValue_front StreamReader.unguarded ending h accepted small
      generalize read : c.reader.readValue StreamReader.unguarded ⟨events, ending⟩ = q at law
      cases law with
      | @value reader left _ _ holds less _ =>
          refine ⟨reader, left, fuel, holds, Nat.lt_of_lt_of_le less (Nat.le_of_lt_succ enough), ?_⟩
          simp only [serveFrom, StreamReader.readMessage, read, StreamReader.asMessage, receive]
          cases Message.ofPacked v <;> rfl
      | stopped objected => cases objected
      | @failed fault reader left _ _ allowed other more holds less _ =>
          obtain ⟨event, later, rfl⟩ := List.exists_cons_of_ne_nil more
          simp only [serveFrom, StreamReader.readMessage, read, StreamReader.asMessage,
            allowed.isTimeout other, if_true]
          exact ih (c := { c with reader }) holds (Nat.lt_of_lt_of_le less (Nat.le_of_lt_succ enough))

theorem serveFrom_request {c : Connection} {state after : σ} {events : List ReadEvent} {fuel : Nat}
    {bytes answer : Bytes} {id : UInt32} {method : String} {params : List Packed}
    {outcome : Except Packed Packed} (h : Holds Tolerated limits c.reader events bytes)
    (enough : load c.reader events < fuel)
    (accepted : Packed.ofBytes limits bytes = .ok (Message.request id method params).toPacked)
    (small : bytes.length ≤ limits.maxSize) (reliable : c.sink.Reliable)
    (dispatched : server.dispatch method params state = (outcome, after))
    (encoded : (Message.ofOutcome id outcome).toPacked.toBytes = .ok answer)
    (sendable : answer.length ≤ limits.maxSize) :
    ∃ reader sink, Holds Tolerated limits reader [] [] ∧ sink.taken = c.sink.taken ++ answer ∧
      serveFrom server fuel c state ⟨events, .silent⟩ =
        ({ reader, sink, isOpen := true, requests := ⟨id, method, params⟩ :: c.requests }, after) := by
  rw [← List.append_nil bytes] at h
  obtain ⟨reader, left, fuel', holds, enough', run⟩ :=
    serveFrom_front server state .silent h enough accepted small
  obtain ⟨sink, write, taken⟩ := Sink.writeValue_reliable reliable encoded sendable
  obtain ⟨last, idle, rest⟩ := serveFrom_idle server
    (c := ⟨reader, sink, true, ⟨id, method, params⟩ :: c.requests⟩) after holds enough'
  refine ⟨last, sink, idle, taken, run.trans ?_⟩
  simp only [receive, Message.ofPacked_toPacked, handle, dispatched, Sink.writeMessage, holds.limits_eq, write,
    Except.isOk, Except.toBool, if_true]
  exact rest

theorem serve_request {c : Connection} {state after : σ} {events : List ReadEvent}
    {bytes answer : Bytes} {id : UInt32} {method : String} {params : List Packed}
    {outcome : Except Packed Packed} (isOpen : c.isOpen = true)
    (h : Holds Tolerated limits c.reader events bytes)
    (accepted : Packed.ofBytes limits bytes = .ok (Message.request id method params).toPacked)
    (small : bytes.length ≤ limits.maxSize) (reliable : c.sink.Reliable)
    (dispatched : server.dispatch method params state = (outcome, after))
    (encoded : (Message.ofOutcome id outcome).toPacked.toBytes = .ok answer)
    (sendable : answer.length ≤ limits.maxSize) :
    ∃ reader sink, Holds Tolerated limits reader [] [] ∧ sink.taken = c.sink.taken ++ answer ∧
      c.serve server state ⟨events, .silent⟩ =
        ({ reader, sink, isOpen := true, requests := ⟨id, method, params⟩ :: c.requests }, after) := by
  rw [serve, if_pos isOpen]
  exact serveFrom_request h (Nat.lt_succ_self _) accepted small reliable dispatched encoded sendable

end PackRpc.Connection
