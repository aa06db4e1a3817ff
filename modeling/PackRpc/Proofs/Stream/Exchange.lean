import PackRpc.Proofs.Message.Carriage
import PackRpc.Proofs.Packed.Narrowing
import PackRpc.Proofs.Stream.Transcript
import PackRpc.Proofs.Stream.Writer
/-!
# Messages between equal limits

A writer holds the limit on size against what it sends, and no limit on nesting. A reader holds both against
what it receives, and the levels of the message itself count. So a reader with the limits of the writer takes
exactly the messages that do not nest too deep.
-/
namespace PackRpc

namespace Message
open Packed (depth depthItems)

def nesting : Message → Nat
  | .request _ _ params | .notification _ params => depthItems params + 2
  | .response _ error result => max error.depth result.depth + 1

theorem depth_toPacked (m : Message) : m.toPacked.depth = m.nesting := by
  have number (n : Nat) : (Packed.ofNat n).depth = 0 := rfl
  cases m with
  | request id method params | notification method params =>
      simp [toPacked, nesting, depth, depthItems, number]
  | response id error result => simp [toPacked, nesting, depth, depthItems, number]

end Message

namespace StreamReader

variable {soft : Fault → Prop} {limits : Limits} {r : StreamReader} {events : List ReadEvent}
  {bytes rest : Bytes} {v : Packed}

/-- A value that nests too deep is refused for that, wherever it is cut. -/
theorem Holds.readValue_deep (ending : Ending) (encoded : v.toBytes = .ok bytes)
    (small : bytes.length ≤ limits.maxSize) (deep : limits.maxDepth < v.depth)
    (h : Holds soft limits r events (bytes ++ rest)) (calm : Source.failures events = []) :
    (r.readValue unguarded ⟨events, ending⟩).result = .error (.format (.tooDeep limits.maxDepth)) := by
  -- With more levels the value would be accepted, so no other reason is left to refuse it.
  let wide : Limits := { limits with maxDepth := v.depth }
  have sendable : v.Sendable wide bytes := ⟨encoded, small, Nat.le_refl _⟩
  have accepted : Packed.ofBytes wide bytes = .ok v := sendable.accepted
  have less := Packed.decodeFirst_shallower (show wide.maxSize = limits.maxSize from rfl) (Nat.le_of_lt deep)
  have law := readValue_law unguarded ending h
  rw [calm] at law
  generalize r.readValue unguarded ⟨events, ending⟩ = p at law ⊢
  cases law with
  | @value w _ _ front back _ _ split read =>
      obtain ⟨rfl, rfl⟩ := Packed.ofBytes_prefix_unique (List.prefix_append bytes rest)
        ⟨back, split.symm⟩ accepted read
      have fits := (Packed.ofBytes_eq_ok.mp read).fits.1
      exact absurd fits.2 (Nat.not_le.mpr deep)
  | @refused e r _ _ _ holds refused =>
      rcases less r.buffer.bytes with same | too_deep
      · rw [answer, same] at refused
        exact absurd refused (holds.answer_ne_error accepted small e)
      · rw [answer, too_deep] at refused
        cases refused
        rfl
  | stopped objected => cases objected
  | failed _ _ _ _ _ others => cases others
  | @exhausted r _ _ holds waits =>
      rcases less r.buffer.bytes with same | too_deep
      · rw [answer, same] at waits
        exact absurd rfl (holds.events_ne_nil accepted waits)
      · rw [answer, too_deep] at waits
        cases waits

theorem Holds.readValue_shallow (ending : Ending) (sendable : v.Sendable limits bytes)
    (h : Holds soft limits r events (bytes ++ rest)) (calm : Source.failures events = []) :
    let p := r.readValue unguarded ⟨events, ending⟩
    p.result = .ok v ∧ Holds soft limits p.reader p.source.events rest ∧
      Source.failures p.source.events = [] := by
  have law := readValue_front unguarded ending h sendable.accepted sendable.small
  rw [calm] at law
  dsimp only
  generalize r.readValue unguarded ⟨events, ending⟩ = p at law ⊢
  cases law with
  | value holds _ others => exact ⟨rfl, holds, others⟩
  | stopped objected => cases objected
  | failed _ _ _ _ _ others => cases others

/-- What a writer has sent, on a sink of any sort, a reader with the same limits takes exactly when it does
not nest too deep, in pieces of any size and among interruptions, and goes on with what was sent after it.
Otherwise it refuses it. -/
theorem readMessage_sent {s written : Sink} {m : Message} (ending : Ending)
    (sent : s.writeMessage limits m = (.ok (), written)) (taken : written.taken = s.taken ++ bytes)
    (h : Holds (fun _ => True) limits r events (bytes ++ rest)) (calm : Source.failures events = []) :
    let p := r.readMessage unguarded ⟨events, ending⟩
    (p.result = .ok m ↔ m.nesting ≤ limits.maxDepth) ∧
      (m.nesting ≤ limits.maxDepth → Holds (fun _ => True) limits p.reader p.source.events rest ∧
        Source.failures p.source.events = []) ∧
      (limits.maxDepth < m.nesting → p.result = .error (.format (.tooDeep limits.maxDepth))) := by
  intro p
  obtain ⟨again, encoded, small, same⟩ := Sink.writeValue_sent sent
  obtain rfl : bytes = again := List.append_cancel_left (taken.symm.trans same)
  rw [← Message.depth_toPacked]
  by_cases shallow : m.toPacked.depth ≤ limits.maxDepth
  · obtain ⟨given, goes_on⟩ := h.readValue_shallow ending ⟨encoded, small, shallow⟩ calm
    have read : p.result = .ok m := by
      simp only [p, readMessage, given, asMessage, Message.ofPacked_toPacked]
    exact ⟨iff_of_true read shallow, fun _ => goes_on, fun deep => absurd shallow (Nat.not_le.mpr deep)⟩
  · have given := h.readValue_deep ending encoded small (Nat.not_le.mp shallow) calm
    have refused : p.result = .error (.format (.tooDeep limits.maxDepth)) := by
      simp only [p, readMessage, given, asMessage]
    refine ⟨iff_of_false ?_ shallow, fun fits => absurd fits shallow, fun _ => refused⟩
    rw [refused]
    exact nofun

/-- Two requests on one sink, which takes two bytes first. The parameter of the second one nests one level
too deep. -/
theorem readMessage_sent_twice :
    let limits : Limits := ⟨16, 3⟩
    let first : Message := .request 0 "f" [.array []]
    let second : Message := .request 1 "g" [.array [.array []]]
    let start : Sink := { writes := [.accept 2] }
    let middle := (start.writeMessage limits first).2
    let last := (middle.writeMessage limits second).2
    let p := (new limits).readMessage unguarded ⟨[.data last.taken], .closed⟩
    start.writeMessage limits first = (.ok (), middle) ∧ middle.writeMessage limits second = (.ok (), last) ∧
      p.result = .ok first ∧
      (p.reader.readMessage unguarded p.source).result = .error (.format (.tooDeep 3)) := by
  intro limits first second start middle last p
  have first_sent : start.writeMessage limits first = (.ok (), middle) := by rfl
  have second_sent : middle.writeMessage limits second = (.ok (), last) := by rfl
  have front : middle.taken = start.taken ++ [0x94, 0x00, 0x00, 0xa1, 0x66, 0x91, 0x90] := by rfl
  have back : last.taken = middle.taken ++ [0x94, 0x00, 0x01, 0xa1, 0x67, 0x91, 0x91, 0x90] := by rfl
  have holds : Holds (fun _ => True) limits (.new limits) [.data last.taken]
      ([0x94, 0x00, 0x00, 0xa1, 0x66, 0x91, 0x90] ++ [0x94, 0x00, 0x01, 0xa1, 0x67, 0x91, 0x91, 0x90]) := by
    refine ⟨rfl, Buffer.ofBytes_resumable limits [], ⟨?_, fun _ _ => trivial⟩, by rfl⟩
    intro bytes member
    cases List.mem_singleton.mp member
    exact List.ne_nil_of_length_pos (by decide)
  obtain ⟨given, goes_on, -⟩ := readMessage_sent .closed first_sent front holds rfl
  have shallow : first.nesting ≤ limits.maxDepth := by decide
  obtain ⟨holds, calm⟩ := goes_on shallow
  rw [← List.append_nil [0x94, 0x00, 0x01, 0xa1, 0x67, 0x91, 0x91, 0x90]] at holds
  obtain ⟨-, -, refused⟩ := readMessage_sent p.source.ending second_sent back holds calm
  exact ⟨first_sent, second_sent, given.mpr shallow, refused (by decide)⟩

/-- A request without parameters is sent where only one level is allowed, and not taken. -/
theorem sent_and_refused :
    let limits : Limits := ⟨16, 1⟩
    let m : Message := .request 0 "f" []
    let start : Sink := {}
    let bytes : Bytes := [0x94, 0x00, 0x00, 0xa1, 0x66, 0x90]
    (start.writeMessage limits m).1 = .ok () ∧ (start.writeMessage limits m).2.taken = bytes ∧
      ((new limits).readMessage unguarded ⟨[.data bytes], .closed⟩).result =
        .error (.format (.tooDeep 1)) := by
  intro limits m start bytes
  have holds : Holds (fun _ => True) limits (.new limits) [.data bytes] (bytes ++ []) :=
    ⟨rfl, Buffer.ofBytes_resumable limits [], ⟨by simp [bytes], fun _ _ => trivial⟩, by rfl⟩
  have encoded : m.toPacked.toBytes = .ok bytes := by rfl
  have given := holds.readValue_deep .closed encoded (by decide) (by decide) rfl
  refine ⟨by rfl, by rfl, ?_⟩
  simp only [readMessage, given, asMessage]
  rfl

end StreamReader

end PackRpc
