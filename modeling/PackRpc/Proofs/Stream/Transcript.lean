import PackRpc.Proofs.Packed.RoundTrip
import PackRpc.Proofs.Stream.Reader
import Mathlib.Data.List.Forall2

namespace PackRpc
open scoped List

/-- The bytes of a value that may be sent to a reader with these limits. -/
structure Packed.Sendable (limits : Limits) (v : Packed) (bytes : Bytes) : Prop where
  encoded : v.toBytes = .ok bytes
  small : bytes.length ≤ limits.maxSize
  shallow : v.depth ≤ limits.maxDepth

theorem Packed.Sendable.accepted {limits : Limits} {v : Packed} {bytes : Bytes}
    (h : v.Sendable limits bytes) : Packed.ofBytes limits bytes = .ok v :=
  Packed.ofBytes_toBytes h.encoded h.small h.shallow

/-- Bytes that end after so many whole pieces, or inside the piece that follows these. -/
structure Bytes.Cut (pieces : List Bytes) (bytes : Bytes) (count : Nat) (rest : Bytes) : Prop where
  whole : bytes = (pieces.take count).flatten ++ rest
  count_le : count ≤ pieces.length
  inside : rest = [] ∨ ∃ piece ∈ pieces[count]?, ∃ missing, piece = rest ++ missing ∧ missing ≠ []

/-- Wherever a sequence of pieces is cut, it is cut between two of them or inside one. -/
theorem Bytes.exists_cut {pieces : List Bytes} {bytes : Bytes} (h : bytes <+: pieces.flatten) :
    ∃ count rest, Cut pieces bytes count rest := by
  induction pieces generalizing bytes with
  | nil =>
      obtain rfl := List.prefix_nil.mp h
      exact ⟨0, [], rfl, Nat.le_refl _, .inl rfl⟩
  | cons piece pieces ih =>
      rw [List.flatten_cons] at h
      obtain ⟨later, rfl⟩ | ⟨missing, more, split⟩ := within_or_part (List.prefix_append piece _) h
      · obtain ⟨count, rest, cut⟩ := ih ((List.prefix_append_right_inj piece).mp h)
        refine ⟨count + 1, rest, ?_, Nat.succ_le_succ cut.count_le, ?_⟩
        · rw [List.take_succ_cons, List.flatten_cons, List.append_assoc, ← cut.whole]
        · simpa only [List.getElem?_cons_succ] using cut.inside
      · exact ⟨0, bytes, rfl, Nat.zero_le _, .inr ⟨piece, rfl, missing, split, more⟩⟩

theorem Bytes.Cut.eq_length {pieces : List Bytes} {count : Nat} {rest : Bytes}
    (h : Cut pieces pieces.flatten count rest) (full : ∀ piece ∈ pieces, piece ≠ []) :
    count = pieces.length ∧ rest = [] := by
  have others : (pieces.drop count).flatten = rest := by
    have whole := h.whole
    rw [← List.take_append_drop count pieces, List.flatten_append, List.take_append_drop] at whole
    exact List.append_cancel_left whole
  by_cases last : count = pieces.length
  · rw [last, List.drop_length] at others
    exact ⟨last, others.symm⟩
  · have less : count < pieces.length := Nat.lt_of_le_of_ne h.count_le last
    have longer : pieces[count].length ≤ rest.length := by
      rw [← others, List.drop_eq_getElem_cons less, List.flatten_cons, List.length_append]
      exact Nat.le_add_right _ _
    have nonempty := List.length_pos_iff.mpr (full _ (List.getElem_mem less))
    obtain rfl | ⟨piece, next, missing, rfl, more⟩ := h.inside
    · exact absurd longer (Nat.not_le.mpr nonempty)
    · rw [List.getElem?_eq_getElem less, Option.mem_some_iff] at next
      have := List.length_pos_iff.mpr more
      rw [next, List.length_append] at longer
      omega

namespace StreamReader

abbrev Guard := Nat → Option StreamError

/-- Calls one after another, each with its guard: how each of them went. -/
def readings : List Guard → StreamReader → Source → List (Progress Packed)
  | [], _, _ => []
  | guard :: guards, r, source =>
    let p := r.readValue guard source
    p :: readings guards p.reader p.source

/-- How calls go through a stream in which some values are complete, with `rest` behind the last of them,
and in which some failures happen. The last two lists are what is left of the values and of the failures
after the calls. -/
inductive Transcript (rest : Bytes) : List Packed → List Fault → List Guard → List (Progress Packed) →
    List Packed → List Fault → Prop
  | done {vs faults} : Transcript rest vs faults [] [] vs faults
  | value {v vs faults guard guards p ps vs' faults'} : p.result = .ok v →
      Transcript rest vs faults guards ps vs' faults' →
      Transcript rest (v :: vs) faults (guard :: guards) (p :: ps) vs' faults'
  | failed {vs fault faults guard guards p ps vs' faults'} : p.result = .error (.io fault) →
      Transcript rest vs faults guards ps vs' faults' →
      Transcript rest vs (fault :: faults) (guard :: guards) (p :: ps) vs' faults'
  /-- The guard has objected, the last time it was asked. -/
  | stopped {vs faults guard guards p ps vs' faults' n e} : guard n = some e → p.guards = n + 1 →
      p.result = .error e → Transcript rest vs faults guards ps vs' faults' →
      Transcript rest vs faults (guard :: guards) (p :: ps) vs' faults'
  /-- The stream has ended. -/
  | closed {guard guards p ps vs' faults'} : p.result = .error .closed →
      (p.reader.hasBuffered = true ↔ rest ≠ []) → Transcript rest [] [] guards ps vs' faults' →
      Transcript rest [] [] (guard :: guards) (p :: ps) vs' faults'

def Progress.value? (p : Progress Packed) : Option Packed :=
  match p.result with
  | .ok v => some v
  | .error _ => none

/-- An objection of its guard is what a call returns. -/
def Heeds (guard : Guard) (p : Progress Packed) : Prop :=
  ∀ n e, n < p.guards → guard n = some e → p.result = .error e

variable {limits : Limits} {vs vs' : List Packed} {pieces : List Bytes} {rest : Bytes}
  {faults faults' : List Fault} {guards : List Guard} {ps : List (Progress Packed)}

theorem hasBuffered_iff (r : StreamReader) : r.hasBuffered = true ↔ r.buffer.bytes ≠ [] := by
  simp [hasBuffered]

/-- The values that calls return, and those that they leave, are the values of the stream. -/
theorem Transcript.values (h : Transcript rest vs faults guards ps vs' faults') :
    ps.filterMap Progress.value? ++ vs' = vs := by
  induction h with
  | done => rfl
  | @value v _ _ _ _ p _ _ _ given _ ih =>
      have shown : p.value? = some v := by rw [Progress.value?, given]
      rw [List.filterMap_cons_some shown, List.cons_append, ih]
  | @failed _ _ _ _ _ p _ _ _ given _ ih | @stopped _ _ _ _ p _ _ _ _ _ _ _ given _ ih
  | @closed _ _ p _ _ _ given _ _ ih =>
      have shown : p.value? = none := by rw [Progress.value?, given]
      rw [List.filterMap_cons_none shown, ih]

theorem tail_unguarded {n : Nat} {guard : Guard}
    (h : List.replicate n unguarded <+ guard :: guards) : List.replicate (n - 1) unguarded <+ guards := by
  simpa only [List.tail_replicate, List.tail_cons] using h.tail

theorem skip_guarded {n m : Nat} {e : StreamError} {guard : Guard} (objected : guard m = some e)
    (h : List.replicate n unguarded <+ guard :: guards) : List.replicate n unguarded <+ guards := by
  obtain later | ⟨others, first, -⟩ := List.sublist_cons_iff.mp h
  · exact later
  · have member : guard ∈ List.replicate n unguarded := by
      rw [first]
      exact List.mem_cons_self
    rw [List.eq_of_mem_replicate member] at objected
    cases objected

/-- Each call without a guard takes a value or a failure, if there is any left. -/
theorem Transcript.length_le (h : Transcript rest vs faults guards ps vs' faults') {n : Nat}
    (unstopped : List.replicate n unguarded <+ guards) :
    vs'.length + faults'.length ≤ vs.length + faults.length - n := by
  induction h generalizing n with
  | done =>
      have empty := unstopped.length_le
      simp only [List.length_replicate, List.length_nil, Nat.le_zero] at empty
      simp [empty]
  | value _ _ ih | failed _ _ ih =>
      have left := ih (tail_unguarded unstopped)
      simp only [List.length_cons]
      omega
  | stopped objected _ _ _ ih => exact ih (skip_guarded objected unstopped)
  | closed _ _ _ ih =>
      have left := ih (tail_unguarded unstopped)
      simp only [List.length_nil] at left ⊢
      omega

theorem Transcript.closes (h : Transcript rest vs faults guards ps vs' faults')
    (unstopped : List.replicate (vs.length + faults.length + 1) unguarded <+ guards) :
    ∃ p ∈ ps, p.result = .error .closed := by
  have later : ∀ {p : Progress Packed} {ps : List (Progress Packed)},
      (∃ q ∈ ps, q.result = .error .closed) → ∃ q ∈ p :: ps, q.result = .error .closed :=
    fun ⟨q, member, ended⟩ => ⟨q, .tail _ member, ended⟩
  induction h with
  | done => cases unstopped
  | value _ _ ih =>
      have fewer := tail_unguarded unstopped
      rw [List.length_cons, Nat.add_sub_cancel, Nat.add_right_comm] at fewer
      exact later (ih fewer)
  | failed _ _ ih => exact later (ih (tail_unguarded unstopped))
  | stopped objected _ _ _ ih => exact later (ih (skip_guarded objected unstopped))
  | closed given => exact ⟨_, .head _, given⟩

/-- A reader that holds the stream goes through it as a transcript says. -/
theorem Holds.readings_transcript {r : StreamReader} {events : List ReadEvent}
    (each : List.Forall₂ (Packed.Sendable limits) vs pieces) (part : Part limits rest)
    (h : Holds (fun _ => True) limits r events (pieces.flatten ++ rest)) (guards : List Guard) :
    ∃ vs' faults', Transcript rest vs (Source.failures events) guards
      (readings guards r ⟨events, .closed⟩) vs' faults' := by
  -- One call takes one step of the transcript and leaves a reader that holds what is left of the stream.
  induction guards generalizing vs pieces r events with
  | nil => exact ⟨vs, _, .done⟩
  | cons guard guards ih =>
      cases each with
      | nil =>
          have law := readValue_rest guard .closed h part
          rw [readings]
          generalize r.readValue guard ⟨events, .closed⟩ = p at law ⊢
          cases law with
          | stopped objected holds others =>
              obtain ⟨vs', faults', later⟩ := ih .nil holds
              rw [others] at later
              exact ⟨vs', faults', .stopped objected rfl rfl later⟩
          | failed _ _ holds _ others =>
              obtain ⟨vs', faults', later⟩ := ih .nil holds
              rw [← others]
              exact ⟨vs', faults', .failed rfl later⟩
          | @exhausted r _ _ holds none =>
              obtain ⟨vs', faults', later⟩ := ih .nil holds
              have kept : r.buffer.bytes = rest := by
                have whole := holds.whole
                rwa [Source.payload, List.append_nil] at whole
              rw [none]
              exact ⟨vs', faults', .closed rfl (by rw [hasBuffered_iff, kept]) later⟩
      | @cons v piece vs pieces first others =>
          rw [List.flatten_cons, List.append_assoc] at h
          have law := readValue_front guard .closed h first.accepted first.small
          rw [readings]
          generalize r.readValue guard ⟨events, .closed⟩ = p at law ⊢
          cases law with
          | value holds _ same =>
              obtain ⟨vs', faults', later⟩ := ih others holds
              rw [same] at later
              exact ⟨vs', faults', .value rfl later⟩
          | stopped objected holds same =>
              rw [← List.append_assoc, ← List.flatten_cons] at holds
              obtain ⟨vs', faults', later⟩ := ih (.cons first others) holds
              rw [same] at later
              exact ⟨vs', faults', .stopped objected rfl rfl later⟩
          | failed _ _ _ holds _ same =>
              rw [← List.append_assoc, ← List.flatten_cons] at holds
              obtain ⟨vs', faults', later⟩ := ih (.cons first others) holds
              rw [← same]
              exact ⟨vs', faults', .failed rfl later⟩

theorem readings_heed (guards : List Guard) (r : StreamReader) (source : Source) :
    List.Forall₂ Heeds guards (readings guards r source) := by
  induction guards generalizing r source with
  | nil => exact .nil
  | cons guard guards ih =>
      exact .cons (fun n e raised objected => readValueFrom_heeds (Nat.zero_le n) raised objected) (ih _ _)

theorem part_of_cut {bytes : Bytes} {count : Nat}
    (each : List.Forall₂ (Packed.Sendable limits) vs pieces) (cut : Bytes.Cut pieces bytes count rest) :
    Part limits rest := by
  obtain rfl | ⟨piece, next, missing, rfl, more⟩ := cut.inside
  · exact .inl rfl
  · obtain ⟨less, found⟩ := List.getElem?_eq_some_iff.mp next
    have sendable := each.get (by rw [each.length_eq]; exact less) less
    rw [List.get_eq_getElem, List.get_eq_getElem, found] at sendable
    exact .inr ⟨_, missing, sendable.accepted, more, sendable.small⟩

theorem ne_nil_of_sendable (each : List.Forall₂ (Packed.Sendable limits) vs pieces) :
    ∀ piece ∈ pieces, piece ≠ [] := by
  induction each with
  | nil => exact List.forall_mem_nil _
  | cons first _ ih =>
      exact List.forall_mem_cons.mpr ⟨(Packed.ofBytes_eq_ok.mp first.accepted).ne_nil, ih⟩

/-- Calls of a new reader, on a stream that brings the bytes of values in pieces of any size among
faults of any sort, and may end anywhere. The calls go through the values that are complete, in order,
and through the failures; only when none of either is left they say that the stream has ended, and then
something is kept exactly if it has ended inside a value. With as many calls without a guard as there are
values and failures nothing is left, and one more finds the end. -/
theorem readings_delivered {events : List ReadEvent}
    (each : List.Forall₂ (Packed.Sendable limits) vs pieces)
    (sound : Source.Sound (fun _ => True) events) (cut : Source.payload events <+: pieces.flatten)
    (guards : List Guard) :
    let ps := readings guards (.new limits) ⟨events, .closed⟩
    let failures := Source.failures events
    ∃ count rest, Bytes.Cut pieces (Source.payload events) count rest ∧
      (Source.payload events = pieces.flatten → vs.take count = vs ∧ rest = []) ∧
      List.Forall₂ Heeds guards ps ∧
      ∃ vs' faults', Transcript rest (vs.take count) failures guards ps vs' faults' ∧
        ps.filterMap Progress.value? ++ vs' = vs.take count ∧
        (List.replicate (count + failures.length) unguarded <+ guards → vs' = [] ∧ faults' = []) ∧
        (List.replicate (count + failures.length + 1) unguarded <+ guards →
          ∃ p ∈ ps, p.result = .error .closed) := by
  intro ps failures
  obtain ⟨count, rest, cut⟩ := Bytes.exists_cut cut
  have holds : Holds (fun _ => True) limits (.new limits) events ((pieces.take count).flatten ++ rest) :=
    ⟨rfl, Buffer.ofBytes_resumable limits [], sound, cut.whole⟩
  obtain ⟨vs', faults', transcript⟩ := holds.readings_transcript
    (List.forall₂_take count each) (part_of_cut each cut) guards
  have size : (vs.take count).length = count := by
    rw [List.length_take_of_le]
    rw [each.length_eq]
    exact cut.count_le
  refine ⟨count, rest, cut, fun all => ?_, readings_heed guards _ _, vs', faults', transcript,
    transcript.values, fun enough => ?_, fun enough => transcript.closes (by rwa [size])⟩
  · rw [all] at cut
    obtain ⟨rfl, none⟩ := cut.eq_length (ne_nil_of_sendable each)
    exact ⟨List.take_of_length_le (Nat.le_of_eq each.length_eq), none⟩
  · have left := transcript.length_le enough
    rw [size, Nat.sub_self, Nat.le_zero, Nat.add_eq_zero_iff] at left
    exact ⟨List.eq_nil_of_length_eq_zero left.1, List.eq_nil_of_length_eq_zero left.2⟩

/-- Two values of which the second is cut, in pieces that fit neither, with an interruption, a read that
takes too long and a guard that objects the second time it is asked. -/
theorem readings_delivered_cut :
    let limits : Limits := ⟨16, 2⟩
    let pieces : List Bytes := [[0xa2, 0xc3, 0xa9], [0x91, 0xc0]]
    let events : List ReadEvent := [.data [0xa2], .fault (.ofKind .interrupted), .data [0xc3],
      .fault .nothingThere, .data [0xa9, 0x91]]
    let objects : Guard := fun n => if n = 1 then some (.io (.ofKind .timedOut)) else none
    let ps := readings [objects, unguarded, unguarded, unguarded] (.new limits) ⟨events, .closed⟩
    List.Forall₂ (Packed.Sendable limits) [.str "é", .array [.nil]] pieces ∧
      Source.Sound (fun _ => True) events ∧ Source.payload events <+: pieces.flatten ∧
      ps.filterMap Progress.value? = [.str "é"] ∧ ∃ p ∈ ps, p.result = .error .closed := by
  intro limits pieces events objects ps
  have each : List.Forall₂ (Packed.Sendable limits) [.str "é", .array [.nil]] pieces :=
    .cons ⟨by rfl, by decide, by decide⟩ (.cons ⟨by rfl, by decide, by decide⟩ .nil)
  have sound : Source.Sound (fun _ => True) events := ⟨by simp [events], fun _ _ => trivial⟩
  have cut : Source.payload events <+: pieces.flatten := ⟨[0xc0], by rfl⟩
  obtain ⟨count, rest, ⟨whole, le, inside⟩, -, -, vs', faults', -, values, none_left, closes⟩ :=
    readings_delivered each sound cut [objects, unguarded, unguarded, unguarded]
  have one : count = 1 := by
    match count, le with
    | 0, _ =>
        obtain rfl : [0xa2, 0xc3, 0xa9, 0x91] = rest := whole
        simp [pieces] at inside
    | 1, _ => rfl
    | 2, _ => cases whole
  subst one
  have enough : List.replicate 3 unguarded <+ [objects, unguarded, unguarded, unguarded] :=
    List.sublist_cons_self _ _
  obtain ⟨rfl, -⟩ := none_left ((List.sublist_cons_self _ _).trans enough)
  rw [List.append_nil] at values
  exact ⟨each, sound, cut, values, closes enough⟩

end StreamReader

end PackRpc
