import PackRpc.Proofs.Stream.Overrun

namespace PackRpc

namespace Buffer

variable {limits : Limits} {b : Buffer} {e : FormatError}

theorem append_nil (b : Buffer) : b.append [] = b := by
  rw [append, List.append_nil]

theorem next_refused {left : Buffer} (h : b.next limits = (.error e, left)) : left = ofBytes b.bytes := by
  unfold Buffer.next at h
  cases found : b.scanner.scan limits b.bytes with
  | complete size =>
      rw [found] at h
      dsimp only at h
      split at h <;> cases h
      rfl
  | more s =>
      rw [found] at h
      dsimp only at h
      split at h <;> cases h
      rfl
  | refused other =>
      rw [found] at h
      cases h
      rfl

/-- What is refused once is refused again, for the same reason. -/
theorem Resumable.next_again {left : Buffer} (resumable : b.Resumable limits)
    (h : b.next limits = (.error e, left)) : left.next limits = (.error e, left) := by
  have same := resumable.next_eq
  have fresh := (ofBytes_resumable limits b.bytes).next_eq
  obtain rfl := next_refused h
  rw [h, ← show (ofBytes b.bytes).bytes = b.bytes from rfl, ← fresh] at same
  have answered : ((ofBytes b.bytes).next limits).1 = .error e := (congrArg Prod.fst same).symm
  have again : (ofBytes b.bytes).next limits = (.error e, ((ofBytes b.bytes).next limits).2) :=
    Prod.ext answered rfl
  rw [next_refused again] at again
  exact again

end Buffer

namespace Source

variable {event : ReadEvent} {rest left : List ReadEvent}

theorem payload_read_fault {fault : Fault} (h : read event rest = (.error fault, left)) :
    payload left = payload (event :: rest) := by
  cases event with
  | fault other =>
      cases h
      rfl
  | data bytes =>
      rw [read] at h
      split at h <;> cases h

theorem payload_read_data {bytes : Bytes} (h : read event rest = (.ok bytes, left)) :
    bytes ++ payload left = payload (event :: rest) := by
  cases event with
  | fault other => cases h
  | data all =>
      rw [read] at h
      split at h
      · cases h
        rfl
      · cases h
        rw [payload, payload, ← List.append_assoc, List.take_append_drop]

end Source

namespace StreamReader

/-- A call for a value or for a message, with the guard of the call. -/
inductive Reading where
  | value (guard : Guard)
  | message (guard : Guard)

namespace Reading

def guard : Reading → Guard
  | value guard => guard
  | message guard => guard

def outcome (v : Packed) : Reading → Except StreamError (Packed ⊕ Message)
  | value _ => .ok (.inl v)
  | message _ => (asMessage (.ok v)).map .inr

def run (c : Reading) (r : StreamReader) (source : Source) : Progress (Packed ⊕ Message) :=
  match c with
  | value guard =>
    let p := r.readValue guard source
    { p with result := p.result.map .inl }
  | message guard =>
    let p := r.readMessage guard source
    { p with result := p.result.map .inr }

end Reading

/-- Calls one after another: how each of them went. -/
def runs : List Reading → StreamReader → Source → List (Progress (Packed ⊕ Message))
  | [], _, _ => []
  | c :: cs, r, source =>
    let p := c.run r source
    p :: runs cs p.reader p.source

/-- Where calls one after another leave the reader and the stream. -/
def reached : List Reading → StreamReader → Source → StreamReader × Source
  | [], r, source => (r, source)
  | c :: cs, r, source =>
    let p := c.run r source
    reached cs p.reader p.source

variable {limits : Limits} {guard : Guard} {ending : Ending} {r : StreamReader} {events : List ReadEvent}
  {source : Source} {stream : Bytes} {e : FormatError}

/-- The reader refuses what it holds. -/
def Stuck (e : FormatError) (r : StreamReader) : Prop :=
  r.buffer.next r.limits = (.error e, r.buffer)

theorem Stuck.readValue (stuck : r.Stuck e) (guard : Guard) (source : Source) :
    r.readValue guard source = ⟨.error (.format e), r, source, 0, 0⟩ := by
  rw [StreamReader.readValue, readValueFrom.eq_def, stuck]

theorem Stuck.run (stuck : r.Stuck e) (c : Reading) (source : Source) :
    c.run r source = ⟨.error (.format e), r, source, 0, 0⟩ := by
  cases c with
  | value guard => simp only [Reading.run, stuck.readValue, Except.map]
  | message guard => simp only [Reading.run, readMessage, stuck.readValue, asMessage, Except.map]

theorem Stuck.runs (stuck : r.Stuck e) (cs : List Reading) (source : Source) :
    runs cs r source = List.replicate cs.length ⟨.error (.format e), r, source, 0, 0⟩ := by
  induction cs with
  | nil => rfl
  | cons c cs ih => rw [StreamReader.runs, stuck.run, List.length_cons, List.replicate_succ, ih]

/-- The buffer of a reader and the events to come, of any sort, hold a stream of bytes. -/
structure Keeps (limits : Limits) (stream : Bytes) (r : StreamReader) (events : List ReadEvent) : Prop where
  limits_eq : r.limits = limits
  resumable : r.buffer.Resumable limits
  whole : r.buffer.bytes ++ Source.payload events = stream

theorem Keeps.next_other {answered : Except FormatError (Option Packed)} {buffer : Buffer}
    (h : Keeps limits stream r events) (next : r.buffer.next r.limits = (answered, buffer))
    (none : ∀ v, answered ≠ .ok (some v)) : Keeps limits stream { r with buffer } events := by
  obtain ⟨rfl, resumable, whole⟩ := h
  have kept := r.buffer.next_unchanged r.limits
  have later := resumable.next
  rw [next] at kept later
  exact ⟨rfl, later, by rw [kept none, whole]⟩

theorem Keeps.next_waits {buffer : Buffer} (h : Keeps limits stream r events)
    (next : r.buffer.next r.limits = (.ok none, buffer)) : Keeps limits stream { r with buffer } events :=
  h.next_other next (by rintro _ ⟨⟩)

theorem Keeps.next_stuck {buffer : Buffer} (h : Keeps limits stream r events)
    (next : r.buffer.next r.limits = (.error e, buffer)) :
    Stuck e { r with buffer } ∧ Keeps limits stream { r with buffer } events := by
  refine ⟨?_, h.next_other next (by rintro _ ⟨⟩)⟩
  obtain ⟨rfl, resumable, -⟩ := h
  exact resumable.next_again next

theorem Keeps.read_fault {event : ReadEvent} {rest left : List ReadEvent} {fault : Fault}
    (h : Keeps limits stream r (event :: rest)) (read : Source.read event rest = (.error fault, left)) :
    Keeps limits stream r left :=
  ⟨h.limits_eq, h.resumable, by rw [Source.payload_read_fault read, h.whole]⟩

theorem Keeps.read_data {event : ReadEvent} {rest left : List ReadEvent} {bytes : Bytes}
    (h : Keeps limits stream r (event :: rest)) (read : Source.read event rest = (.ok bytes, left)) :
    Keeps limits stream { r with buffer := r.buffer.append bytes } left :=
  ⟨h.limits_eq, h.resumable.append bytes, by
    rw [Buffer.append, List.append_assoc, Source.payload_read_data read, h.whole]⟩

/-- How a read of any stream may end. -/
inductive EndLaw (limits : Limits) (guard : Guard) (stream : Bytes) : Progress Packed → Prop
  /-- A value was taken off the front. -/
  | value {v front rest p} : p.result = .ok v → stream = front ++ rest → Packed.ofBytes limits front = .ok v →
      Keeps limits rest p.reader p.source.events → EndLaw limits guard stream p
  | refused {e p} : p.result = .error (.format e) → p.reader.Stuck e →
      Keeps limits stream p.reader p.source.events → EndLaw limits guard stream p
  | stopped {n e p} : guard n = some e → p.guards = n + 1 → p.result = .error e →
      Keeps limits stream p.reader p.source.events → EndLaw limits guard stream p
  | failed {fault p} : p.result = .error (.io fault) → Keeps limits stream p.reader p.source.events →
      EndLaw limits guard stream p
  | closed {p} : p.result = .error .closed → Keeps limits stream p.reader p.source.events →
      EndLaw limits guard stream p

theorem readValueFrom_ends {asked reads : Nat} (h : Keeps limits stream r events) :
    EndLaw limits guard stream (readValueFrom guard ending asked reads r events) := by
  fun_induction readValueFrom guard ending asked reads r events with
  | case1 asked reads r events v buffer next =>
      obtain ⟨rfl, resumable, rfl⟩ := h
      obtain ⟨front, ⟨back, bytes⟩, accepted⟩ := Buffer.next_some (congrArg Prod.fst next)
      rw [resumable.next_accepted accepted bytes.symm] at next
      cases next
      refine .value rfl ?_ accepted ⟨rfl, Buffer.ofBytes_resumable _ _, rfl⟩
      rw [← bytes, List.append_assoc]
      rfl
  | case2 asked reads r events e buffer next =>
      obtain ⟨stuck, kept⟩ := h.next_stuck next
      exact .refused rfl stuck kept
  | case3 asked reads r events buffer next e objected => exact .stopped objected rfl rfl (h.next_waits next)
  | case4 asked reads r buffer next passed =>
      cases ending with
      | closed => exact .closed rfl (h.next_waits next)
      | silent => exact .failed rfl (h.next_waits next)
  | case5 asked reads r buffer next passed event rest fault left read interrupted ih =>
      exact ih ((h.next_waits next).read_fault read)
  | case6 asked reads r buffer next passed event rest fault left read other =>
      exact .failed rfl ((h.next_waits next).read_fault read)
  | case7 asked reads r buffer next passed event rest left read =>
      have kept := (h.next_waits next).read_data read
      rw [Buffer.append_nil] at kept
      exact .closed rfl kept
  | case8 asked reads r buffer next passed event rest byte bytes left read ih =>
      exact ih ((h.next_waits next).read_data read)

theorem Keeps.readValue (h : Keeps limits stream r source.events) (guard : Guard) :
    EndLaw limits guard stream (r.readValue guard source) :=
  readValueFrom_ends h

/-- What a reader and its stream have still to give out. -/
def remaining (r : StreamReader) (source : Source) : Bytes :=
  r.buffer.bytes ++ Source.payload source.events

theorem Keeps.remaining_eq (h : Keeps limits stream r source.events) : r.remaining source = stream :=
  h.whole

/-- A call for a message reads a value and makes of it what it makes of values. -/
theorem Reading.run_eq (c : Reading) (r : StreamReader) (source : Source) :
    let p := r.readValue c.guard source
    c.run r source = { p with result := p.result.bind c.outcome } := by
  intro p
  cases c with
  | value guard =>
      rw [Reading.run]
      cases given : p.result <;> simp only [p, Reading.guard] at given <;> rw [given] <;> rfl
  | message guard =>
      rw [Reading.run, readMessage]
      cases given : p.result <;> simp only [p, Reading.guard] at given <;> rw [given] <;> rfl

theorem Keeps.reached (h : Keeps limits stream r source.events) (history : List Reading) :
    ∃ stream, Keeps limits stream (reached history r source).1 (reached history r source).2.events := by
  induction history generalizing stream r source with
  | nil => exact ⟨stream, h⟩
  | cons c cs ih =>
      rw [StreamReader.reached, Reading.run_eq]
      cases h.readValue c.guard with
      | value _ _ _ kept => exact ih kept
      | refused _ _ kept => exact ih kept
      | stopped _ _ _ kept => exact ih kept
      | failed _ kept => exact ih kept
      | closed _ kept => exact ih kept

/-- How a call may end that meets a value: with what it makes of the value, or its guard or a fault of the
stream ends it before. -/
inductive Meets (c : Reading) (source : Source) (v : Packed) (rest : Bytes)
    (p : Progress (Packed ⊕ Message)) : Prop
  | given : p.result = c.outcome v → p.reader.remaining p.source = rest → Meets c source v rest p
  | stopped {n e} : c.guard n = some e → p.guards = n + 1 → p.result = .error e → Meets c source v rest p
  | failed {fault} : .fault fault ∈ source.events → fault.kind ≠ .interrupted →
      p.result = .error (.io fault) → Meets c source v rest p

theorem Keeps.meets {front rest : Bytes} {v : Packed} (h : Keeps limits (front ++ rest) r source.events)
    (accepted : Packed.ofBytes limits front = .ok v) (small : front.length ≤ limits.maxSize)
    (pieces : ∀ bytes, ReadEvent.data bytes ∈ source.events → bytes ≠ []) (c : Reading) :
    Meets c source v rest (c.run r source) := by
  have holds : Holds (.fault · ∈ source.events) limits r source.events (front ++ rest) :=
    ⟨h.limits_eq, h.resumable, ⟨pieces, fun _ member => member⟩, h.whole⟩
  have law := readValue_front c.guard source.ending holds accepted small
  rw [Reading.run_eq]
  rw [show source = ⟨source.events, source.ending⟩ from rfl]
  generalize r.readValue c.guard ⟨source.events, source.ending⟩ = p at law
  cases law with
  | value holds => exact .given rfl holds.whole
  | stopped objected => exact .stopped objected rfl rfl
  | failed member other => exact .failed member other rfl

theorem Reading.outcome_eq_error {c : Reading} {v : Packed} {error : StreamError}
    (h : c.outcome v = .error error) : ∃ e, error = .envelope e ∧ Message.ofPacked v = .error e := by
  cases c with
  | value guard => cases h
  | message guard =>
      rw [Reading.outcome, asMessage] at h
      cases read : Message.ofPacked v with
      | ok m =>
          rw [read] at h
          cases h
      | error e =>
          rw [read] at h
          cases h
          exact ⟨e, rfl, rfl⟩

/-- After a refusal that its guard did not raise a reader is stuck. -/
theorem Keeps.run_refused (h : Keeps limits stream r source.events) {c : Reading}
    (refused : (c.run r source).result = .error (.format e)) :
    (∃ n, (c.run r source).guards = n + 1 ∧ c.guard n = some (.format e)) ∨
      (c.run r source).reader.Stuck e := by
  have ends := h.readValue c.guard
  rw [Reading.run_eq] at refused ⊢
  generalize r.readValue c.guard source = p at ends refused
  cases ends with
  | value given =>
      rw [given] at refused
      obtain ⟨_, impossible, -⟩ := Reading.outcome_eq_error refused
      cases impossible
  | refused given stuck =>
      rw [given] at refused
      cases refused
      exact .inr stuck
  | @stopped n _ _ objected asked given =>
      rw [given] at refused
      cases refused
      exact .inl ⟨n, asked, objected⟩
  | failed given | closed given =>
      rw [given] at refused
      cases refused

/-- A value that was to be a message and is none is used up. -/
theorem Keeps.run_misread (h : Keeps limits stream r source.events) {c : Reading} {e : EnvelopeError}
    (misread : (c.run r source).result = .error (.envelope e)) :
    (∃ n, (c.run r source).guards = n + 1 ∧ c.guard n = some (.envelope e)) ∨
      ∃ v front rest, stream = front ++ rest ∧ Packed.ofBytes limits front = .ok v ∧
        Message.ofPacked v = .error e ∧
        Keeps limits rest (c.run r source).reader (c.run r source).source.events := by
  have ends := h.readValue c.guard
  rw [Reading.run_eq] at misread ⊢
  generalize r.readValue c.guard source = p at ends misread
  cases ends with
  | @value v front rest _ given split accepted kept =>
      rw [given] at misread
      obtain ⟨_, same, read⟩ := Reading.outcome_eq_error misread
      cases same
      exact .inr ⟨v, front, rest, split, accepted, read, kept⟩
  | @stopped n _ _ objected asked given =>
      rw [given] at misread
      cases misread
      exact .inl ⟨n, asked, objected⟩
  | refused given | failed given | closed given =>
      rw [given] at misread
      cases misread

/-- What a reader has refused once, after any calls on any stream, all later calls refuse for the same reason,
without asking their guards, without reading, and with everything left as it is. A value that was to be a
message and is none is used up, and nothing else: the next call meets the value behind it. An error that the
guard of a call raises is the guard's own and says nothing about the stream. -/
theorem refused_for_good (limits : Limits) (source : Source) (history : List Reading) (c : Reading) :
    let here := reached history (.new limits) source
    let p := c.run here.1 here.2
    (∀ e, p.result = .error (.format e) → (∃ n, p.guards = n + 1 ∧ c.guard n = some (.format e)) ∨
      ∀ later, runs later p.reader p.source =
        List.replicate later.length ⟨.error (.format e), p.reader, p.source, 0, 0⟩) ∧
    ∀ e, p.result = .error (.envelope e) → (∃ n, p.guards = n + 1 ∧ c.guard n = some (.envelope e)) ∨
      ∃ v front, here.1.remaining here.2 = front ++ p.reader.remaining p.source ∧
        Packed.ofBytes limits front = .ok v ∧ Message.ofPacked v = .error e ∧
        ∀ next w front' rest, p.reader.remaining p.source = front' ++ rest →
          Packed.ofBytes limits front' = .ok w → front'.length ≤ limits.maxSize →
          (∀ bytes, ReadEvent.data bytes ∈ p.source.events → bytes ≠ []) →
          Meets next p.source w rest (next.run p.reader p.source) := by
  have start : Keeps limits (Source.payload source.events) (.new limits) source.events :=
    ⟨rfl, Buffer.ofBytes_resumable limits [], rfl⟩
  obtain ⟨stream, kept⟩ := start.reached history
  intro here p
  refine ⟨fun e refused => ?_, fun e misread => ?_⟩
  · exact (kept.run_refused refused).imp_right fun stuck later => stuck.runs later p.source
  · refine (kept.run_misread misread).imp_right ?_
    rintro ⟨v, front, rest, rfl, accepted, read, left⟩
    refine ⟨v, front, ?_, accepted, read, fun next w front' rest split accepted small pieces => ?_⟩
    · rw [kept.remaining_eq, left.remaining_eq]
    · rw [left.remaining_eq] at split
      subst split
      exact left.meets accepted small pieces next

/-- A number where a message should be, a nil, and the reserved marker, in two pieces. -/
theorem refused_for_good_reserved :
    let limits : Limits := ⟨16, 2⟩
    let source : Source := ⟨[.data [0x05], .data [0xc0, 0xc1]], .closed⟩
    let first := (Reading.message unguarded).run (.new limits) source
    let second := (Reading.value unguarded).run first.reader first.source
    let third := (Reading.value unguarded).run second.reader second.source
    first.result = .error (.envelope (.notArray .int)) ∧ Meets (.value unguarded) first.source .nil [0xc1] second ∧
      third.result = .error (.format (.malformed .reservedMarker)) ∧
      ∀ later, runs later third.reader third.source = List.replicate later.length
        ⟨.error (.format (.malformed .reservedMarker)), third.reader, third.source, 0, 0⟩ := by
  intro limits source first second third
  have misread : first.result = .error (.envelope (.notArray .int)) := by cbv
  have reserved : third.result = .error (.format (.malformed .reservedMarker)) := by cbv
  refine ⟨misread, ?_, reserved, ?_⟩
  · obtain ⟨n, -, objected⟩ | ⟨v, front, -, -, -, meets⟩ :=
      (refused_for_good limits source [] (.message unguarded)).2 _ misread
    · cases objected
    · refine meets (.value unguarded) .nil [0xc0] [0xc1] (by cbv) (by cbv) (by decide) fun bytes member => ?_
      have left : first.source.events = [.data [0xc0, 0xc1]] := by cbv
      change ReadEvent.data bytes ∈ first.source.events at member
      rw [left] at member
      cases List.mem_singleton.mp member
      exact List.cons_ne_nil _ _
  · obtain ⟨n, -, objected⟩ | later :=
      (refused_for_good limits source [.message unguarded, .value unguarded] (.value unguarded)).1 _ reserved
    · cases objected
    · exact later

end StreamReader

end PackRpc
