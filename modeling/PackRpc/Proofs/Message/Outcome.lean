import PackRpc.Proofs.Message.Carriage
/-!
# Outcomes on the wire

What a request came to is told by one array: its result where the error is nil, and its error otherwise. The
caller reads off it what the answer was made from, if the answer keeps within the limits. One failure is not
told: an error that is nil itself is read as a result.
-/
namespace PackRpc.Message

def payload : Except Packed Packed → Packed
  | .ok result => result
  | .error error => error

/-- The outcome that the answer to a request tells. -/
def told : Except Packed Packed → Except Packed Packed
  | .error .nil => .ok .nil
  | outcome => outcome

/-- What a caller reads from the bytes of an answer: the request that it belongs to, and the outcome. -/
def readOutcome (limits : Limits) (bytes : Bytes) : Option (UInt32 × Except Packed Packed) :=
  match Packed.ofBytes limits bytes with
  | .error _ => none
  | .ok w =>
    match ofPacked w with
    | .ok (.response id error result) => some (id, outcome error result)
    | _ => none

section
variable {limits : Limits} {id : UInt32} {given : Except Packed Packed} {bytes : Bytes}

theorem told_eq_self_iff : told given = given ↔ given ≠ .error .nil := by
  cases given with
  | ok result => simp [told]
  | error error => cases error <;> simp [told]

theorem ofOutcome_eq (id : UInt32) (given : Except Packed Packed) :
    ∃ error result, ofOutcome id given = .response id error result ∧ outcome error result = told given := by
  cases given with
  | ok result => exact ⟨.nil, result, rfl, rfl⟩
  | error error =>
      refine ⟨error, .nil, rfl, ?_⟩
      cases error <;> rfl

/-- The array of an answer has four items, of which the payload alone may be long. -/
theorem longest_ofOutcome (id : UInt32) (given : Except Packed Packed) :
    (ofOutcome id given).toPacked.longest = max 4 (payload given).longest := by
  have number (n : Nat) : (Packed.ofNat n).longest = 0 := rfl
  cases given <;>
    simp [ofOutcome, ok, err, toPacked, payload, Packed.longest, Packed.longestItems, number]

theorem depth_ofOutcome (id : UInt32) (given : Except Packed Packed) :
    (ofOutcome id given).toPacked.depth = (payload given).depth + 1 := by
  have number (n : Nat) : (Packed.ofNat n).depth = 0 := rfl
  cases given <;>
    simp [ofOutcome, ok, err, toPacked, payload, Packed.depth, Packed.depthItems, number]

/-- The limits within which an answer with this outcome is read. -/
def Readable (limits : Limits) (given : Except Packed Packed) : Prop :=
  max 4 (payload given).longest ≤ limits.maxSize ∧ (payload given).depth + 1 ≤ limits.maxDepth

theorem readable_iff (id : UInt32) : Readable limits given ↔
    Packed.Fits limits limits.maxDepth (ofOutcome id given).toPacked := by
  rw [Packed.Fits, longest_ofOutcome, depth_ofOutcome, Readable]

theorem readOutcome_readable (encoded : (ofOutcome id given).toPacked.toBytes = .ok bytes)
    (readable : Readable limits given) : readOutcome limits bytes = some (id, told given) := by
  obtain ⟨short, rfl⟩ := Packed.toBytes_eq_ok.mp encoded
  have accepted := (Packed.ofBytes_encode short).mpr ((readable_iff id).mp readable)
  obtain ⟨error, result, answer, tells⟩ := ofOutcome_eq id given
  rw [answer] at accepted
  simp only [readOutcome, answer, accepted, ofPacked_toPacked, tells]

theorem readOutcome_refused (encoded : (ofOutcome id given).toPacked.toBytes = .ok bytes)
    (large : ¬Readable limits given) : readOutcome limits bytes = none := by
  obtain ⟨short, rfl⟩ := Packed.toBytes_eq_ok.mp encoded
  rw [readable_iff id] at large
  obtain ⟨e, refused, -⟩ := Packed.ofBytes_encode_refused short large
  simp only [readOutcome, refused]

end

/-- The outcome of a request comes back as it was, with the number of the request, unless it is an error that
is nil: that one, and no other failure, is taken for a result. An answer can be sent when the lengths in its
payload have four bytes, and is read exactly within the limits on its payload; otherwise nothing is read, and
so nothing false either. -/
theorem outcome_returned (limits : Limits) (id : UInt32) (given : Except Packed Packed) :
    ((∃ bytes, (ofOutcome id given).toPacked.toBytes = .ok bytes) ↔ (payload given).longest < 2 ^ 32) ∧
      ∀ bytes, (ofOutcome id given).toPacked.toBytes = .ok bytes →
        (readOutcome limits bytes = some (id, given) ↔ Readable limits given ∧ given ≠ .error .nil) ∧
        (∀ id' read, readOutcome limits bytes = some (id', read) →
          id' = id ∧ Readable limits given ∧ (read = given ∨ given = .error .nil ∧ read = .ok .nil)) ∧
        (readOutcome limits bytes = none ↔ ¬Readable limits given) := by
  constructor
  · have short : (ofOutcome id given).toPacked.longest < 2 ^ 32 ↔ (payload given).longest < 2 ^ 32 := by
      rw [longest_ofOutcome, Nat.max_lt]
      exact and_iff_right (by decide)
    rw [← short]
    constructor
    · rintro ⟨bytes, encoded⟩
      exact (Packed.toBytes_eq_ok.mp encoded).1
    · intro few
      exact ⟨_, Packed.toBytes_eq_ok.mpr ⟨few, rfl⟩⟩
  · intro bytes encoded
    by_cases readable : Readable limits given
    · have read := readOutcome_readable encoded readable
      refine ⟨?_, ?_, ?_⟩
      · rw [read, ← told_eq_self_iff]
        simp [readable]
      · intro id' other again
        rw [read] at again
        cases again
        refine ⟨rfl, readable, ?_⟩
        by_cases absent : given = .error .nil
        · exact .inr ⟨absent, by rw [absent]; rfl⟩
        · exact .inl (told_eq_self_iff.mpr absent)
      · rw [read]
        exact iff_of_false nofun (not_not_intro readable)
    · have read := readOutcome_refused encoded readable
      refine ⟨?_, ?_, ?_⟩
      · rw [read]
        exact iff_of_false nofun fun h => readable h.1
      · intro id' other again
        rw [read] at again
        cases again
      · exact iff_of_true read readable

/-- A failure with a payload comes back, and is not read by a caller that takes no nested arrays. -/
theorem outcome_returned_failed :
    let given : Except Packed Packed := .error (.array [.str "no", .ofNat 2])
    let bytes : Bytes := [0x94, 0x01, 0x07, 0x92, 0xa2, 0x6e, 0x6f, 0x02, 0xc0]
    (ofOutcome 7 given).toPacked.toBytes = .ok bytes ∧ readOutcome .default bytes = some (7, given) ∧
      readOutcome ⟨16, 1⟩ bytes = none := by
  intro given bytes
  have encoded : (ofOutcome 7 given).toPacked.toBytes = .ok bytes := by rfl
  obtain ⟨-, wide⟩ := outcome_returned .default 7 given
  obtain ⟨-, narrow⟩ := outcome_returned ⟨16, 1⟩ 7 given
  have fits : Readable .default given := ⟨by decide, by decide⟩
  have deep : ¬Readable ⟨16, 1⟩ given := fun readable => absurd readable.2 (by decide)
  have carried : given ≠ .error .nil := by simp [given]
  exact ⟨encoded, (wide bytes encoded).1.mpr ⟨fits, carried⟩, (narrow bytes encoded).2.2.mpr deep⟩

/-- A handler that fails with nil is read as one that has nil for its result: both answers are the same. -/
theorem failure_told_as_result :
    ∃ bytes : Bytes, (ofOutcome 7 (.error .nil)).toPacked.toBytes = .ok bytes ∧
      (ofOutcome 7 (.ok .nil)).toPacked.toBytes = .ok bytes ∧
      readOutcome .default bytes = some (7, .ok .nil) :=
  ⟨[0x94, 0x01, 0x07, 0xc0, 0xc0], by rfl, by rfl, by rfl⟩

end PackRpc.Message
