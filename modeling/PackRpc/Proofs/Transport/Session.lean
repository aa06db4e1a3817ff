import PackRpc.Transport.Session
import PackRpc.Proofs.Message.Carriage
import PackRpc.Proofs.Stream.Reader
import PackRpc.Proofs.Stream.Writer

namespace PackRpc.Session
open StreamReader (Holds)

/-- The faults after which a read is made again at once. -/
def Interrupted (fault : Fault) : Prop := fault.kind = .interrupted

/-- An error as the caller of a session sees it. -/
def seen (outcome : Except Packed Packed) : Except InvokeError Packed :=
  match outcome with
  | .ok w => .ok w
  | .error w => .error (.remote w)

/-- The answer to a request says what became of it, unless an error is nil. -/
theorem receive_ofOutcome (id : UInt32) {outcome : Except Packed Packed}
    (full : ∀ w, outcome = .error w → w.isNil = false) :
    receive id (.ofOutcome id outcome) = .answer (seen outcome) := by
  cases outcome with
  | ok w => simp [Message.ofOutcome, Message.ok, receive, Message.outcome, seen, Packed.isNil]
  | error w => simp [Message.ofOutcome, Message.err, receive, Message.outcome, seen, full w rfl]

section
variable {c : Conditions} {s : Session} {timeout : Duration} {deadline : Instant} {limits : Limits}
  {id : UInt32} {outcome : Except Packed Packed} {answer : Bytes}

theorem guard_eq_none (timely : ∀ n, expired timeout deadline (c.clock n) = false) (n : Nat) :
    guard c timeout deadline n = none := by
  rw [guard, timely n]
  rfl

/-- The answer is awaited however it is cut. -/
theorem await_answer {reader : StreamReader} {events : List ReadEvent} (ending : Ending)
    (readings fuel : Nat) (timely : ∀ n, expired timeout deadline (c.clock n) = false)
    (h : Holds Interrupted limits reader events answer)
    (accepted : Packed.ofBytes limits answer = .ok (Message.ofOutcome id outcome).toPacked)
    (small : answer.length ≤ limits.maxSize) (full : ∀ w, outcome = .error w → w.isNil = false) :
    ∃ link : Link, Holds Interrupted limits link.reader link.incoming [] ∧
      await c timeout deadline id (fuel + 1) readings reader ⟨events, ending⟩ =
        (seen outcome, some link) := by
  have quiet := fun n => guard_eq_none (c := c) timely (readings + n)
  rw [← List.append_nil answer] at h
  have law := StreamReader.readValue_front (fun n => guard c timeout deadline (readings + n)) ending h
    accepted small
  generalize read : reader.readValue (fun n => guard c timeout deadline (readings + n)) ⟨events, ending⟩ = q
    at law
  cases law with
  | @value reader events _ _ holds less _ =>
      refine ⟨⟨reader, events⟩, holds, ?_⟩
      simp only [await, StreamReader.readMessage, read, StreamReader.asMessage, Message.ofPacked_toPacked,
        receive_ofOutcome id full]
  | stopped objected =>
      rw [quiet] at objected
      cases objected
  | failed interrupted other => exact absurd interrupted other

theorem invoke_answered {link : Link} {method : String} {params : List Packed} {request : Bytes}
    (connected : connected c s = .ok link) (ready : Holds Interrupted s.limits link.reader link.incoming [])
    (started : (c.clock 0).after? timeout = some deadline)
    (timely : ∀ n, expired timeout deadline (c.clock n) = false)
    (reliable : Sink.Reliable { writes := c.writes, flushes := c.flushes })
    (encoded : (Message.request s.nextId method params).toPacked.toBytes = .ok request)
    (sendable : request.length ≤ s.limits.maxSize)
    (sound : Source.Sound Interrupted (c.arrivals request).events)
    (accepted : Packed.ofBytes s.limits (Source.payload (c.arrivals request).events) =
      .ok (Message.ofOutcome s.nextId outcome).toPacked)
    (small : (Source.payload (c.arrivals request).events).length ≤ s.limits.maxSize)
    (full : ∀ w, outcome = .error w → w.isNil = false) :
    ∃ next : Link, Holds Interrupted s.limits next.reader next.incoming [] ∧
      s.invoke c method params timeout =
        some ⟨seen outcome, { s with nextId := s.nextId + 1, link := some next }, request⟩ := by
  obtain ⟨sink, write, taken⟩ := Sink.writeValue_reliable reliable encoded sendable
  rw [List.nil_append] at taken
  have holds : Holds Interrupted s.limits link.reader (link.incoming ++ (c.arrivals request).events)
      (Source.payload (c.arrivals request).events) := by
    refine ⟨ready.limits_eq, ready.resumable, ready.sound.append sound, ?_⟩
    rw [Source.payload_append, ready.empty.1, ready.empty.2, List.nil_append, List.nil_append]
  have awaited := fun fuel =>
    await_answer (c.arrivals request).ending 2 fuel timely holds accepted small full
  obtain ⟨next, clean, run⟩ := awaited _
  refine ⟨next, clean, ?_⟩
  simp only [invoke, connected, started, roundTrip, timely, Sink.writeMessage, write, taken, awaitFuel]
  rw [run]
  rfl

end

end PackRpc.Session
