import Mathlib
import PackRpc.Proofs.Packed.Scanning
/-!
# Buffers filled in pieces

A buffer is `Resumable` when measuring on from its scanner finds what measuring from the start finds, now
and after any further bytes. Every operation keeps that, so that the scanner never shows in the answers.
-/
namespace PackRpc.Buffer

variable {limits : Limits} {b : Buffer} {p rest : Bytes} {v : Packed}

/-- Measuring on finds what measuring from the start finds, whatever bytes are to come. -/
def Resumable (limits : Limits) (b : Buffer) : Prop :=
  ∀ more, b.scanner.scan limits (b.bytes ++ more) = Scanner.start.scan limits (b.bytes ++ more)

theorem ofBytes_resumable (limits : Limits) (bytes : Bytes) : (ofBytes bytes).Resumable limits :=
  fun _ => rfl

theorem Resumable.append (h : b.Resumable limits) (bytes : Bytes) :
    (b.append bytes).Resumable limits := by
  intro more
  simp only [Buffer.append, List.append_assoc]
  exact h (bytes ++ more)

theorem Resumable.scan (h : b.Resumable limits) :
    b.scanner.scan limits b.bytes = Scanner.start.scan limits b.bytes := by
  simpa only [List.append_nil] using h []

/-- A scanner that stopped for want of bytes may be kept. -/
theorem Resumable.paused (h : b.Resumable limits) {s : Scanner}
    (paused : b.scanner.scan limits b.bytes = .more s) : { b with scanner := s }.Resumable limits := by
  intro more
  rw [h.scan] at paused
  exact (Scanner.scan_more paused more).symm

theorem Resumable.next (h : b.Resumable limits) : (b.next limits).2.Resumable limits := by
  unfold Buffer.next
  cases found : b.scanner.scan limits b.bytes with
  | complete size =>
      dsimp only
      cases Packed.ofBytes limits (b.bytes.take size) <;> exact ofBytes_resumable limits _
  | more s =>
      dsimp only
      split
      · exact ofBytes_resumable limits _
      · exact h.paused found
  | refused e => exact ofBytes_resumable limits _

/-- An answer depends on the scanner only through what measuring finds. -/
theorem next_congr {s t : Scanner} {bytes : Bytes}
    (h : s.scan limits bytes = t.scan limits bytes) :
    ((next limits ⟨bytes, s⟩).1, (next limits ⟨bytes, s⟩).2.bytes) =
      ((next limits ⟨bytes, t⟩).1, (next limits ⟨bytes, t⟩).2.bytes) := by
  simp only [Buffer.next, h]

theorem Resumable.next_eq (h : b.Resumable limits) :
    ((b.next limits).1, (b.next limits).2.bytes) = Packed.decodeFirst limits b.bytes :=
  next_congr h.scan

theorem Resumable.scan_accepted (h : b.Resumable limits) (accepted : Packed.ofBytes limits p = .ok v)
    (bytes : b.bytes = p ++ rest) : b.scanner.scan limits b.bytes = .complete p.length := by
  rw [h.scan, bytes]
  exact Scanner.scan_spells (Packed.ofBytes_eq_ok.mp accepted) rest

theorem Resumable.next_accepted (h : b.Resumable limits) (accepted : Packed.ofBytes limits p = .ok v)
    (bytes : b.bytes = p ++ rest) : b.next limits = (.ok (some v), ofBytes rest) := by
  simp only [Buffer.next, h.scan_accepted accepted bytes]
  simp only [bytes, List.take_left, accepted, List.drop_left]

/-- Measuring a part of an accepted byte string comes to no end. -/
theorem Resumable.scan_partial (h : b.Resumable limits) (accepted : Packed.ofBytes limits p = .ok v)
    (bytes : p = b.bytes ++ rest) (missing : rest ≠ []) : ∃ s, b.scanner.scan limits b.bytes = .more s := by
  have whole : Scanner.start.scan limits (b.bytes ++ rest) = .complete (b.bytes ++ rest).length := by
    have whole := Scanner.scan_spells (Packed.ofBytes_eq_ok.mp accepted) []
    rwa [List.append_nil, bytes] at whole
  -- Had measuring come to an end, it would have come to the same end in the whole.
  have final := fun h => (Scanner.scan_final h rest).symm.trans whole
  rw [h.scan]
  cases found : Scanner.start.scan limits b.bytes with
  | more s => exact ⟨s, rfl⟩
  | complete size =>
      have ended := final (by rw [found]; exact fun s e => by cases e)
      rw [found] at ended
      cases ended
      have inside := Scanner.scan_complete found
      rw [List.length_append] at inside
      have := List.length_pos_iff.mpr missing
      omega
  | refused e =>
      have ended := final (by rw [found]; exact fun s e => by cases e)
      rw [found] at ended
      cases ended

theorem Resumable.next_partial (h : b.Resumable limits) (accepted : Packed.ofBytes limits p = .ok v)
    (bytes : p = b.bytes ++ rest) (missing : rest ≠ []) (small : b.bytes.length ≤ limits.maxSize) :
    ∃ s, b.next limits = (.ok none, { b with scanner := s }) := by
  obtain ⟨s, found⟩ := h.scan_partial accepted bytes missing
  refine ⟨s, ?_⟩
  simp only [Buffer.next, found]
  rw [if_neg (Nat.not_lt.mpr small)]

/-- A part that is over the limit is refused, whatever the limit says of the whole. -/
theorem Resumable.next_overrun (h : b.Resumable limits) (accepted : Packed.ofBytes limits p = .ok v)
    (bytes : p = b.bytes ++ rest) (missing : rest ≠ []) (large : limits.maxSize < b.bytes.length) :
    b.next limits = (.error (.tooLarge b.bytes.length limits.maxSize), ofBytes b.bytes) := by
  obtain ⟨s, found⟩ := h.scan_partial accepted bytes missing
  simp only [Buffer.next, found]
  rw [if_pos large]

theorem next_none (h : (b.next limits).1 = .ok none) : b.bytes.length ≤ limits.maxSize := by
  unfold Buffer.next at h
  cases found : b.scanner.scan limits b.bytes with
  | complete size =>
      rw [found] at h
      dsimp only at h
      split at h <;> cases h
  | more s =>
      rw [found] at h
      dsimp only at h
      split at h
      · cases h
      · next small => exact Nat.not_lt.mp small
  | refused e =>
      rw [found] at h
      cases h

theorem next_length_le (limits : Limits) (b : Buffer) : (b.next limits).2.bytes.length ≤ b.bytes.length := by
  unfold Buffer.next
  cases b.scanner.scan limits b.bytes with
  | complete size =>
      dsimp only
      split
      · exact (List.drop_sublist size b.bytes).length_le
      · exact Nat.le_refl _
  | more s =>
      dsimp only
      split <;> exact Nat.le_refl _
  | refused e => exact Nat.le_refl _

theorem next_some (h : (b.next limits).1 = .ok (some v)) :
    ∃ p, p <+: b.bytes ∧ Packed.ofBytes limits p = .ok v := by
  unfold Buffer.next at h
  cases found : b.scanner.scan limits b.bytes with
  | complete size =>
      rw [found] at h
      dsimp only at h
      cases read : Packed.ofBytes limits (b.bytes.take size) with
      | error e =>
          rw [read] at h
          cases h
      | ok w =>
          rw [read] at h
          cases h
          exact ⟨_, List.take_prefix size b.bytes, read⟩
  | more s =>
      rw [found] at h
      dsimp only at h
      split at h <;> cases h
  | refused e =>
      rw [found] at h
      cases h

theorem next_unchanged (limits : Limits) (b : Buffer) (h : ∀ v, (b.next limits).1 ≠ .ok (some v)) :
    (b.next limits).2.bytes = b.bytes := by
  unfold Buffer.next at h ⊢
  cases found : b.scanner.scan limits b.bytes with
  | complete size =>
      rw [found] at h
      dsimp only at h ⊢
      cases read : Packed.ofBytes limits (b.bytes.take size) with
      | error e => rfl
      | ok v =>
          rw [read] at h
          exact absurd rfl (h v)
  | more s =>
      dsimp only
      split <;> rfl
  | refused e => rfl

/-- The buffer after chunks, each of which was followed by an attempt to take a value out. -/
def received (limits : Limits) (chunks : List Bytes) : Buffer :=
  chunks.foldl (fun b chunk => ((b.append chunk).next limits).2) .empty

theorem received_resumable (limits : Limits) (chunks : List Bytes) :
    (received limits chunks).Resumable limits := by
  unfold received
  generalize start : Buffer.empty = b
  have h : b.Resumable limits := by
    rw [← start]
    exact ofBytes_resumable limits []
  clear start
  induction chunks generalizing b with
  | nil => exact h
  | cons chunk chunks ih => exact ih _ (h.append chunk).next

/-- A buffer that is filled in pieces, whatever it was asked before, answers as one that is read afresh:
with a value exactly when some front of its bytes is accepted, which is then the only such front and all
that is taken away. -/
theorem next_received (limits : Limits) (chunks : List Bytes) (chunk : Bytes) :
    let b := (received limits chunks).append chunk
    let answer := (b.next limits).1
    let left := (b.next limits).2.bytes
    (answer, left) = Packed.decodeFirst limits b.bytes ∧
      (∀ v, answer = .ok (some v) ↔ ∃ p, p <+: b.bytes ∧ Packed.ofBytes limits p = .ok v) ∧
      (∀ p v, p <+: b.bytes → Packed.ofBytes limits p = .ok v → b.bytes = p ++ left ∧
        ∀ q w, q <+: b.bytes → Packed.ofBytes limits q = .ok w → q = p) ∧
      ((∀ v, answer ≠ .ok (some v)) → left = b.bytes) := by
  intro b answer left
  have resumable : b.Resumable limits := (received_resumable limits chunks).append chunk
  refine ⟨resumable.next_eq, fun v => ⟨?_, ?_⟩, ?_, b.next_unchanged limits⟩
  · exact b.next_some
  · rintro ⟨p, ⟨back, bytes⟩, accepted⟩
    rw [show answer = .ok (some v) from congrArg Prod.fst
      (resumable.next_accepted accepted bytes.symm)]
  · rintro p v ⟨back, bytes⟩ accepted
    have taken := resumable.next_accepted accepted bytes.symm
    refine ⟨?_, fun q w hq w_read => ?_⟩
    · rw [show left = back from congrArg (fun r => r.2.bytes) taken, bytes]
    · exact (Packed.ofBytes_prefix_unique ⟨back, bytes⟩ hq accepted w_read).1

/-- A text that comes in two pieces, the second with the start of what follows. -/
theorem next_received_text :
    let b := (received .default [[0xa2, 0xc3]]).append [0xa9, 0x92]
    (b.next .default).1 = .ok (some (.str "é")) ∧ (b.next .default).2.bytes = [0x92] := by
  have bytes : ((received .default [[0xa2, 0xc3]]).append [0xa9, 0x92]).bytes =
      [0xa2, 0xc3, 0xa9] ++ [0x92] := by cbv
  intro b
  obtain ⟨-, accepted, taken, -⟩ := next_received .default [[0xa2, 0xc3]] [0xa9, 0x92]
  have front : [0xa2, 0xc3, 0xa9] <+: b.bytes := ⟨[0x92], bytes.symm⟩
  have read : Packed.ofBytes .default [0xa2, 0xc3, 0xa9] = .ok (.str "é") := by cbv
  have left : [0xa2, 0xc3, 0xa9] ++ [0x92] = [0xa2, 0xc3, 0xa9] ++ (b.next .default).2.bytes :=
    bytes.symm.trans (taken _ _ front read).1
  refine ⟨(accepted _).mpr ⟨_, front, read⟩, ?_⟩
  rw [List.append_right_inj] at left
  exact left.symm

/-! ## Uses -/

/-- What may be done with a buffer: more bytes are received, or its first value is asked for. -/
inductive Use where
  | append (bytes : Bytes)
  | next

def perform (limits : Limits) (b : Buffer) : List Use → List (Except FormatError (Option Packed)) × Buffer
  | [] => ([], b)
  | .append bytes :: uses => perform limits (b.append bytes) uses
  | .next :: uses =>
    let (answer, b) := b.next limits
    let (answers, b) := perform limits b uses
    (answer :: answers, b)

def Use.received : List Use → Bytes
  | [] => []
  | .append bytes :: uses => bytes ++ received uses
  | .next :: uses => received uses

theorem perform_next (limits : Limits) (uses : List Use) (b : Buffer) :
    b.perform limits (.next :: uses) = ((b.next limits).1 :: ((b.next limits).2.perform limits uses).1,
      ((b.next limits).2.perform limits uses).2) := rfl

/-- As long as nothing is found and nothing refused, all that was received is kept. -/
theorem perform_quiet (uses : List Use) (b : Buffer)
    (quiet : ∀ answer ∈ (b.perform limits uses).1, answer = .ok none) :
    (b.perform limits uses).2.bytes = b.bytes ++ Use.received uses := by
  induction uses generalizing b with
  | nil => exact (List.append_nil _).symm
  | cons use uses ih =>
      cases use with
      | append bytes =>
          rw [perform, ih _ quiet]
          exact List.append_assoc _ _ _
      | next =>
          rw [perform_next] at quiet ⊢
          obtain ⟨first, others⟩ := List.forall_mem_cons.mp quiet
          rw [ih _ others, b.next_unchanged limits (by rw [first]; exact nofun)]
          rfl

end PackRpc.Buffer
