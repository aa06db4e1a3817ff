import PackRpc.Stream.Reader
import PackRpc.Proofs.Packed.Buffer
/-!
# What a reader does with a stream

Between two reads a stream stands partly in the buffer of the reader and partly in the events to come. No
read loses any of it: a read takes a value off the front of the stream, or ends otherwise and leaves the
stream as it is.
-/
namespace PackRpc

namespace Source

def payload : List ReadEvent → Bytes
  | [] => []
  | .data bytes :: rest => bytes ++ payload rest
  | .fault _ :: rest => payload rest

/-- The faults that end a read, in order. After an interruption the read is made again. -/
def failures : List ReadEvent → List Fault
  | [] => []
  | .data _ :: rest => failures rest
  | .fault fault :: rest =>
    if fault.kind = .interrupted then failures rest else fault :: failures rest

/-- Events that bring no empty piece and only faults of an admitted sort. -/
structure Sound (soft : Fault → Prop) (events : List ReadEvent) : Prop where
  pieces : ∀ bytes, ReadEvent.data bytes ∈ events → bytes ≠ []
  faults : ∀ fault, ReadEvent.fault fault ∈ events → soft fault

variable {soft : Fault → Prop} {event : ReadEvent} {events rest : List ReadEvent}

theorem payload_append (first second : List ReadEvent) :
    payload (first ++ second) = payload first ++ payload second := by
  induction first with
  | nil => rfl
  | cons event first ih => cases event <;> simp [payload, ih]

theorem Sound.nil : Sound soft [] :=
  ⟨fun _ => nofun, fun _ => nofun⟩

theorem Sound.tail (h : Sound soft (event :: rest)) : Sound soft rest :=
  ⟨fun bytes hb => h.pieces bytes (.tail _ hb), fun fault hf => h.faults fault (.tail _ hf)⟩

theorem Sound.append (first : Sound soft events) (second : Sound soft rest) :
    Sound soft (events ++ rest) where
  pieces bytes h := (List.mem_append.mp h).elim (first.pieces bytes) (second.pieces bytes)
  faults fault h := (List.mem_append.mp h).elim (first.faults fault) (second.faults fault)

inductive ReadsAs (soft : Fault → Prop) (events : List ReadEvent) :
    Except Fault Bytes × List ReadEvent → Prop
  | fault {fault left} : soft fault → Sound soft left → payload left = payload events →
      (if fault.kind = .interrupted then failures left else fault :: failures left) = failures events →
      weight left < weight events → ReadsAs soft events (.error fault, left)
  | data {byte bytes left} : Sound soft left → byte :: bytes ++ payload left = payload events →
      failures left = failures events → weight left + (byte :: bytes).length ≤ weight events →
      ReadsAs soft events (.ok (byte :: bytes), left)

theorem read_sound (h : Sound soft (event :: rest)) : ReadsAs soft (event :: rest) (read event rest) := by
  cases event with
  | fault fault => exact .fault (h.faults fault (.head _)) h.tail rfl rfl (by simp [weight])
  | data bytes =>
      obtain ⟨byte, others, rfl⟩ := List.exists_cons_of_ne_nil (h.pieces bytes (.head _))
      by_cases small : (byte :: others).length ≤ chunkSize
      · rw [read, if_pos small]
        exact .data h.tail rfl rfl (by simp only [weight]; omega)
      · rw [read, if_neg small]
        -- What is left of a piece that one read cannot take is a piece.
        have left : Sound soft (.data ((byte :: others).drop chunkSize) :: rest) := by
          refine ⟨fun bytes member => ?_, fun fault member => ?_⟩
          · rcases List.mem_cons.mp member with same | member
            · cases same
              rw [← List.length_pos_iff, List.length_drop]
              omega
            · exact h.pieces bytes (.tail _ member)
          · rcases List.mem_cons.mp member with same | member
            · cases same
            · exact h.faults fault (.tail _ member)
        have taken : (byte :: others).take chunkSize = byte :: others.take (chunkSize - 1) := rfl
        have split := List.take_append_drop chunkSize (byte :: others)
        rw [taken] at split ⊢
        refine .data left ?_ rfl ?_
        · rw [payload, payload, ← List.append_assoc, split]
        · have size := congrArg List.length split
          rw [List.length_append] at size
          simp only [weight]
          omega

end Source

namespace StreamReader

variable {soft : Fault → Prop} {limits : Limits} {guard : Nat → Option StreamError} {ending : Ending}
  {r : StreamReader} {events : List ReadEvent} {stream : Bytes}

/-- The buffer of a reader and the events to come hold a stream of bytes. -/
structure Holds (soft : Fault → Prop) (limits : Limits) (r : StreamReader) (events : List ReadEvent)
    (stream : Bytes) : Prop where
  limits_eq : r.limits = limits
  resumable : r.buffer.Resumable limits
  sound : Source.Sound soft events
  whole : r.buffer.bytes ++ Source.payload events = stream

/-- The work that is left to a reader. -/
def load (r : StreamReader) (events : List ReadEvent) : Nat :=
  Source.weight events + r.buffer.bytes.length

def answer (limits : Limits) (r : StreamReader) : Except FormatError (Option Packed) :=
  (Packed.decodeFirst limits r.buffer.bytes).1

theorem Holds.next_value {v : Packed} {buffer : Buffer} (h : Holds soft limits r events stream)
    (next : r.buffer.next r.limits = (.ok (some v), buffer)) :
    ∃ front rest, stream = front ++ rest ∧ Packed.ofBytes limits front = .ok v ∧
      Holds soft limits { r with buffer } events rest ∧
      load { r with buffer } events < load r events := by
  obtain ⟨rfl, resumable, sound, rfl⟩ := h
  obtain ⟨front, ⟨back, bytes⟩, accepted⟩ := Buffer.next_some (congrArg Prod.fst next)
  rw [resumable.next_accepted accepted bytes.symm] at next
  cases next
  refine ⟨front, back ++ Source.payload events, ?_, accepted,
    ⟨rfl, Buffer.ofBytes_resumable _ _, sound, rfl⟩, ?_⟩
  · rw [← bytes, List.append_assoc]
  · have := List.length_pos_iff.mpr (Packed.ofBytes_eq_ok.mp accepted).ne_nil
    simp only [load, Buffer.ofBytes, ← bytes, List.length_append]
    omega

theorem Holds.next_other {answered : Except FormatError (Option Packed)} {buffer : Buffer}
    (h : Holds soft limits r events stream) (next : r.buffer.next r.limits = (answered, buffer))
    (none : ∀ v, answered ≠ .ok (some v)) :
    Holds soft limits { r with buffer } events stream ∧ answer limits { r with buffer } = answered ∧
      load { r with buffer } events = load r events := by
  obtain ⟨rfl, resumable, sound, rfl⟩ := h
  have kept : buffer.bytes = r.buffer.bytes := by
    have kept := r.buffer.next_unchanged r.limits
    rw [next] at kept
    exact kept none
  have later : buffer.Resumable r.limits := by
    have later := resumable.next
    rwa [next] at later
  have same := resumable.next_eq
  rw [next] at same
  refine ⟨⟨rfl, later, sound, ?_⟩, ?_, ?_⟩
  · rw [kept]
  · rw [answer, kept, ← same]
  · rw [load, load, kept]

section
variable {event : ReadEvent} {rest left : List ReadEvent}

theorem Holds.read_fault {fault : Fault} (h : Holds soft limits r (event :: rest) stream)
    (read : Source.read event rest = (.error fault, left)) :
    soft fault ∧ Holds soft limits r left stream ∧
      (if fault.kind = .interrupted then Source.failures left else fault :: Source.failures left) =
        Source.failures (event :: rest) ∧
      load r left < load r (event :: rest) := by
  have law := Source.read_sound h.sound
  rw [read] at law
  cases law with
  | fault allowed sound payload awaited less =>
      refine ⟨allowed, ⟨h.limits_eq, h.resumable, sound, ?_⟩, awaited, Nat.add_lt_add_right less _⟩
      rw [payload, h.whole]

theorem Holds.read_data {bytes : Bytes} (h : Holds soft limits r (event :: rest) stream)
    (read : Source.read event rest = (.ok bytes, left)) :
    bytes ≠ [] ∧ Holds soft limits { r with buffer := r.buffer.append bytes } left stream ∧
      Source.failures left = Source.failures (event :: rest) ∧
      load { r with buffer := r.buffer.append bytes } left ≤ load r (event :: rest) := by
  have law := Source.read_sound h.sound
  rw [read] at law
  cases law with
  | data sound payload awaited less =>
      refine ⟨List.cons_ne_nil _ _, ⟨h.limits_eq, h.resumable.append _, sound, ?_⟩, awaited, ?_⟩
      · rw [Buffer.append, List.append_assoc, payload, h.whole]
      · simp only [load, Buffer.append, List.length_append]
        omega

end

/-- How a read of a stream may end, `awaited` being the failures that the events hold before it. -/
inductive ReadLaw (soft : Fault → Prop) (limits : Limits) (guard : Nat → Option StreamError)
    (ending : Ending) (stream : Bytes) (awaited : List Fault) (bound : Nat) : Progress Packed → Prop
  /-- A value was taken off the front. -/
  | value {v r events front rest reads guards} : stream = front ++ rest →
      Packed.ofBytes limits front = .ok v → Holds soft limits r events rest → load r events < bound →
      Source.failures events = awaited →
      ReadLaw soft limits guard ending stream awaited bound ⟨.ok v, r, ⟨events, ending⟩, reads, guards⟩
  | refused {e r events reads guards} : Holds soft limits r events stream →
      answer limits r = .error e → Source.failures events = awaited →
      ReadLaw soft limits guard ending stream awaited bound
        ⟨.error (.format e), r, ⟨events, ending⟩, reads, guards⟩
  /-- The guard has objected, the last time it was asked. -/
  | stopped {n e r events reads} : guard n = some e → Holds soft limits r events stream →
      answer limits r = .ok none → Source.failures events = awaited →
      ReadLaw soft limits guard ending stream awaited bound
        ⟨.error e, r, ⟨events, ending⟩, reads, n + 1⟩
  | failed {fault r events reads guards} : soft fault → fault.kind ≠ .interrupted →
      Holds soft limits r events stream → answer limits r = .ok none → load r events < bound →
      fault :: Source.failures events = awaited →
      ReadLaw soft limits guard ending stream awaited bound
        ⟨.error (.io fault), r, ⟨events, ending⟩, reads, guards⟩
  | exhausted {r reads guards} : Holds soft limits r [] stream → answer limits r = .ok none →
      awaited = [] →
      ReadLaw soft limits guard ending stream awaited bound
        ⟨.error (match ending with | .closed => .closed | .silent => .io .nothingThere), r, ⟨[], ending⟩,
          reads, guards⟩

theorem readValueFrom_law {awaited : List Fault} {asked reads bound : Nat}
    (h : Holds soft limits r events stream) (pending : Source.failures events = awaited)
    (le : load r events ≤ bound) :
    ReadLaw soft limits guard ending stream awaited bound
      (readValueFrom guard ending asked reads r events) := by
  fun_induction readValueFrom guard ending asked reads r events with
  | case1 asked reads r events v buffer next =>
      obtain ⟨front, rest, split, accepted, holds, less⟩ := h.next_value next
      exact .value split accepted holds (Nat.lt_of_lt_of_le less le) pending
  | case2 asked reads r events e buffer next =>
      obtain ⟨holds, answered, -⟩ := h.next_other next nofun
      exact .refused holds answered pending
  | case3 asked reads r events buffer next e objected =>
      obtain ⟨holds, answered, -⟩ := h.next_other next nofun
      exact .stopped objected holds answered pending
  | case4 asked reads r buffer next passed =>
      obtain ⟨holds, answered, -⟩ := h.next_other next nofun
      exact .exhausted holds answered pending.symm
  | case5 asked reads r buffer next passed event rest fault left read interrupted ih =>
      obtain ⟨holds, -, same⟩ := h.next_other next nofun
      obtain ⟨-, holds, others, less⟩ := holds.read_fault read
      rw [if_pos interrupted, pending] at others
      exact ih holds others (Nat.le_trans (Nat.le_of_lt less) (same ▸ le))
  | case6 asked reads r buffer next passed event rest fault left read other =>
      obtain ⟨holds, answered, same⟩ := h.next_other next nofun
      obtain ⟨allowed, holds, others, less⟩ := holds.read_fault read
      rw [if_neg other, pending] at others
      exact .failed allowed other holds answered (Nat.lt_of_lt_of_le less (same ▸ le)) others
  | case7 asked reads r buffer next passed event rest left read =>
      obtain ⟨holds, -, -⟩ := h.next_other next nofun
      exact absurd rfl (holds.read_data read).1
  | case8 asked reads r buffer next passed event rest byte bytes left read ih =>
      obtain ⟨holds, -, same⟩ := h.next_other next nofun
      obtain ⟨-, holds, others, less⟩ := holds.read_data read
      exact ih holds (others.trans pending) (Nat.le_trans less (same ▸ le))

theorem readValue_law (guard : Nat → Option StreamError) (ending : Ending)
    (h : Holds soft limits r events stream) :
    ReadLaw soft limits guard ending stream (Source.failures events) (load r events)
      (r.readValue guard ⟨events, ending⟩) :=
  readValueFrom_law h rfl (Nat.le_refl _)

/-- What the guard objects is what the call returns. -/
theorem readValueFrom_heeds {asked reads n : Nat} {e : StreamError} (from_asked : asked ≤ n)
    (raised : n < (readValueFrom guard ending asked reads r events).guards) (objected : guard n = some e) :
    (readValueFrom guard ending asked reads r events).result = .error e := by
  fun_induction readValueFrom guard ending asked reads r events with
  | case1 asked reads r events v buffer next | case2 asked reads r events refusal buffer next =>
      exact absurd raised (Nat.not_lt.mpr from_asked)
  | case3 asked reads r events buffer next other objection =>
      obtain rfl : n = asked := Nat.le_antisymm (Nat.le_of_lt_succ raised) from_asked
      rw [objected] at objection
      cases objection
      rfl
  | case4 asked reads r buffer next passed | case6 asked reads r buffer next passed
  | case7 asked reads r buffer next passed =>
      obtain rfl : n = asked := Nat.le_antisymm (Nat.le_of_lt_succ raised) from_asked
      rw [objected] at passed
      cases passed
  | case5 asked reads r buffer next passed event rest fault left read interrupted ih
  | case8 asked reads r buffer next passed event rest byte bytes left read ih =>
      refine ih (Nat.lt_of_le_of_ne from_asked ?_) raised
      rintro rfl
      rw [objected] at passed
      cases passed

theorem answer_of_front {front : Bytes} {v : Packed} (accepted : Packed.ofBytes limits front = .ok v)
    (within : front <+: r.buffer.bytes) : answer limits r = .ok (some v) := by
  obtain ⟨back, bytes⟩ := within
  have fresh := Buffer.ofBytes_resumable limits r.buffer.bytes
  rw [answer, Packed.decodeFirst, fresh.next_accepted accepted bytes.symm]

theorem answer_of_partial {front missing : Bytes} {v : Packed}
    (accepted : Packed.ofBytes limits front = .ok v) (small : front.length ≤ limits.maxSize)
    (bytes : front = r.buffer.bytes ++ missing) (more : missing ≠ []) :
    answer limits r = .ok none := by
  have fresh := Buffer.ofBytes_resumable limits r.buffer.bytes
  have short : r.buffer.bytes.length ≤ limits.maxSize := by
    rw [bytes, List.length_append] at small
    omega
  obtain ⟨s, next⟩ := fresh.next_partial accepted bytes more short
  rw [answer, Packed.decodeFirst, next]

theorem Holds.empty (h : Holds soft limits r events []) :
    r.buffer.bytes = [] ∧ Source.payload events = [] :=
  List.append_eq_nil_iff.mp h.whole

/-- Of what stands first in a stream the buffer holds all, or a part. -/
theorem Holds.within_or_part {front rest : Bytes} (h : Holds soft limits r events (front ++ rest)) :
    front <+: r.buffer.bytes ∨ ∃ missing, missing ≠ [] ∧ front = r.buffer.bytes ++ missing :=
  Bytes.within_or_part (List.prefix_append front rest) ⟨_, h.whole⟩

/-- A value that stands first in a stream is not refused. -/
theorem Holds.answer_ne_error {limits' : Limits} {front rest : Bytes} {v : Packed}
    (h : Holds soft limits r events (front ++ rest)) (accepted : Packed.ofBytes limits' front = .ok v)
    (small : front.length ≤ limits'.maxSize) (e : FormatError) : answer limits' r ≠ .error e := by
  intro refused
  obtain within | ⟨missing, more, bytes⟩ := h.within_or_part
  · rw [answer_of_front accepted within] at refused
    cases refused
  · rw [answer_of_partial accepted small bytes more] at refused
    cases refused

theorem Holds.events_ne_nil {limits' : Limits} {front rest : Bytes} {v : Packed}
    (h : Holds soft limits r events (front ++ rest)) (accepted : Packed.ofBytes limits' front = .ok v)
    (waits : answer limits' r = .ok none) : events ≠ [] := by
  rintro rfl
  have whole := h.whole
  rw [Source.payload, List.append_nil] at whole
  rw [answer_of_front accepted ⟨rest, whole.symm⟩] at waits
  cases waits

/-- How a read may end when a value that fits the limits stands first in the stream. -/
inductive FrontLaw (soft : Fault → Prop) (limits : Limits) (guard : Nat → Option StreamError)
    (ending : Ending) (v : Packed) (front rest : Bytes) (awaited : List Fault) (bound : Nat) :
    Progress Packed → Prop
  | value {r events reads guards} : Holds soft limits r events rest → load r events < bound →
      Source.failures events = awaited →
      FrontLaw soft limits guard ending v front rest awaited bound
        ⟨.ok v, r, ⟨events, ending⟩, reads, guards⟩
  | stopped {n e r events reads} : guard n = some e → Holds soft limits r events (front ++ rest) →
      Source.failures events = awaited →
      FrontLaw soft limits guard ending v front rest awaited bound
        ⟨.error e, r, ⟨events, ending⟩, reads, n + 1⟩
  | failed {fault r events reads guards} : soft fault → fault.kind ≠ .interrupted → events ≠ [] →
      Holds soft limits r events (front ++ rest) → load r events < bound →
      fault :: Source.failures events = awaited →
      FrontLaw soft limits guard ending v front rest awaited bound
        ⟨.error (.io fault), r, ⟨events, ending⟩, reads, guards⟩

theorem readValue_front (guard : Nat → Option StreamError) (ending : Ending) {front rest : Bytes}
    {v : Packed} (h : Holds soft limits r events (front ++ rest))
    (accepted : Packed.ofBytes limits front = .ok v) (small : front.length ≤ limits.maxSize) :
    FrontLaw soft limits guard ending v front rest (Source.failures events) (load r events)
      (r.readValue guard ⟨events, ending⟩) := by
  have law := readValue_law guard ending h
  generalize r.readValue guard ⟨events, ending⟩ = q at law ⊢
  cases law with
  | @value w _ _ other back _ _ split read holds less others =>
      obtain ⟨rfl, rfl⟩ := Packed.ofBytes_prefix_unique (List.prefix_append front rest)
        ⟨back, split.symm⟩ accepted read
      rw [List.append_cancel_left split]
      exact .value holds less others
  | refused holds refused => exact absurd refused (holds.answer_ne_error accepted small _)
  | stopped objected holds waits others => exact .stopped objected holds others
  | failed allowed other holds waits less others =>
      exact .failed allowed other (holds.events_ne_nil accepted waits) holds less others
  | exhausted holds waits => exact absurd rfl (holds.events_ne_nil accepted waits)

/-- How a read may end when no value is complete in the stream. -/
inductive RestLaw (soft : Fault → Prop) (limits : Limits) (guard : Nat → Option StreamError)
    (ending : Ending) (rest : Bytes) (awaited : List Fault) (bound : Nat) : Progress Packed → Prop
  | stopped {n e r events reads} : guard n = some e → Holds soft limits r events rest →
      Source.failures events = awaited →
      RestLaw soft limits guard ending rest awaited bound ⟨.error e, r, ⟨events, ending⟩, reads, n + 1⟩
  | failed {fault r events reads guards} : soft fault → fault.kind ≠ .interrupted →
      Holds soft limits r events rest → load r events < bound → fault :: Source.failures events = awaited →
      RestLaw soft limits guard ending rest awaited bound
        ⟨.error (.io fault), r, ⟨events, ending⟩, reads, guards⟩
  | exhausted {r reads guards} : Holds soft limits r [] rest → awaited = [] →
      RestLaw soft limits guard ending rest awaited bound
        ⟨.error (match ending with | .closed => .closed | .silent => .io .nothingThere), r, ⟨[], ending⟩,
          reads, guards⟩

/-- Bytes that are waited on: nothing, or the front of a value that fits the limits. -/
def Part (limits : Limits) (rest : Bytes) : Prop :=
  rest = [] ∨ ∃ v missing, Packed.ofBytes limits (rest ++ missing) = .ok v ∧ missing ≠ [] ∧
    (rest ++ missing).length ≤ limits.maxSize

theorem Part.answer {rest : Bytes} (h : Part limits rest) (within : r.buffer.bytes <+: rest) :
    answer limits r = .ok none := by
  obtain ⟨back, bytes⟩ := within
  obtain rfl | ⟨v, missing, accepted, more, small⟩ := h
  · rw [StreamReader.answer, (List.append_eq_nil_iff.mp bytes).1]
    simp [Packed.decodeFirst, Buffer.next, Buffer.ofBytes, Scanner.scan, Scanner.start, Scanner.walk]
  · have split : rest ++ missing = r.buffer.bytes ++ (back ++ missing) := by
      rw [← bytes, List.append_assoc]
    exact answer_of_partial accepted small split (List.append_ne_nil_of_right_ne_nil back more)

theorem Part.incomplete {rest front back : Bytes} {v : Packed} (h : Part limits rest)
    (split : rest = front ++ back) : Packed.ofBytes limits front ≠ .ok v := by
  intro read
  obtain rfl | ⟨w, missing, accepted, more, -⟩ := h
  · obtain ⟨rfl, rfl⟩ := List.append_eq_nil_iff.mp split.symm
    exact absurd rfl (Packed.ofBytes_eq_ok.mp read).ne_nil
  · subst split
    obtain ⟨same, -⟩ := Packed.ofBytes_prefix_unique (List.prefix_refl _)
      ⟨back ++ missing, (List.append_assoc _ _ _).symm⟩ accepted read
    have size := congrArg List.length same
    have := List.length_pos_iff.mpr more
    simp only [List.length_append] at size
    omega

theorem readValue_rest (guard : Nat → Option StreamError) (ending : Ending) {rest : Bytes}
    (h : Holds soft limits r events rest) (part : Part limits rest) :
    RestLaw soft limits guard ending rest (Source.failures events) (load r events)
      (r.readValue guard ⟨events, ending⟩) := by
  have law := readValue_law guard ending h
  generalize r.readValue guard ⟨events, ending⟩ = q at law ⊢
  cases law with
  | value split read => exact absurd read (part.incomplete split)
  | refused holds refused =>
      rw [part.answer ⟨_, holds.whole⟩] at refused
      cases refused
  | stopped objected holds waits others => exact .stopped objected holds others
  | failed allowed other holds waits less others => exact .failed allowed other holds less others
  | exhausted holds waits others => exact .exhausted holds others

end StreamReader

end PackRpc
