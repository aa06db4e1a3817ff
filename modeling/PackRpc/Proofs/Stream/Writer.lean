import PackRpc.Stream.Writer
/-!
# What a writer does

On any sink a write that succeeds has sent the whole value and flushed it, one that refuses the value has sent
nothing, and any other that fails has sent a front of the value, or all of it when only the flush has failed.
A sink is reliable when each write takes something and nothing fails but what is to be tried again. On such
a sink a value that is within the limit arrives whole.
-/
namespace PackRpc

/-- A write after which no other is made, and what the writer says of it. -/
inductive WriteEvent.Stops : StreamError → WriteEvent → Prop
  | nothing : Stops .closed (.accept 0)
  | fault {fault : Fault} : fault.kind ≠ .interrupted → Stops (.io fault) (.fault fault)

theorem WriteEvent.Stops.ne_format {e : StreamError} {event : WriteEvent} (h : event.Stops e)
    (refusal : FormatError) : e ≠ .format refusal := by
  cases h <;> exact nofun

/-- A write that takes at least one byte, or has to be made again. -/
def WriteEvent.Reliable : WriteEvent → Prop
  | .accept count => 0 < count
  | .fault f => f.kind = .interrupted

theorem WriteEvent.Reliable.not_stops {event : WriteEvent} (h : event.Reliable) {e : StreamError} :
    ¬ event.Stops e := by
  intro stops
  cases stops with
  | nothing => exact Nat.lt_irrefl 0 h
  | fault other => exact other h

namespace Sink

/-- A sink has taken some bytes more, and was not flushed. -/
structure Took (s : Sink) (bytes : Bytes) (later : Sink) : Prop where
  taken : later.taken = s.taken ++ bytes
  flushes : later.flushes = s.flushes
  flushCalls : later.flushCalls = s.flushCalls

theorem take_took (s : Sink) (bytes : Bytes) (writes : List WriteEvent) : Took s bytes (s.take bytes writes) :=
  ⟨rfl, rfl, rfl⟩

theorem Took.trans {s mid later : Sink} {front rest : Bytes} (first : Took s front mid)
    (second : Took mid rest later) : Took s (front ++ rest) later :=
  ⟨by rw [second.taken, first.taken, List.append_assoc], second.flushes.trans first.flushes,
    second.flushCalls.trans first.flushCalls⟩

/-- How sending may end: all of the bytes are taken, or a write ends it and the last of them are not. -/
inductive SendLaw (s : Sink) (bytes : Bytes) (events : List WriteEvent) : Except StreamError Unit × Sink → Prop
  | sent {whole} : Took s bytes whole → SendLaw s bytes events (.ok (), whole)
  | cut {part missing event e cut} : bytes = part ++ missing → missing ≠ [] → Took s part cut →
      event ∈ events → event.Stops e → SendLaw s bytes events (.error e, cut)

theorem SendLaw.after {s mid : Sink} {front rest : Bytes} {event : WriteEvent} {events : List WriteEvent}
    {result : Except StreamError Unit × Sink} (h : SendLaw mid rest events result) (took : Took s front mid) :
    SendLaw s (front ++ rest) (event :: events) result := by
  cases h with
  | sent more => exact .sent (took.trans more)
  | cut split missing more member stops =>
      exact .cut (by rw [split, List.append_assoc]) missing (took.trans more) (.tail _ member) stops

theorem sendWith_law (s : Sink) (bytes : Bytes) (events : List WriteEvent) :
    SendLaw s bytes events (s.sendWith bytes events) := by
  fun_induction sendWith s bytes events with
  | case1 s bytes empty | case3 s bytes event rest empty =>
      rw [List.isEmpty_iff.mp empty]
      exact .sent ⟨(List.append_nil _).symm, rfl, rfl⟩
  | case2 s bytes more => exact .sent (take_took s bytes [])
  | case4 s bytes rest more fault again ih => exact ih.after (take_took s [] rest)
  | case5 s bytes rest more fault other =>
      exact .cut rfl (mt List.isEmpty_iff.mpr more) (take_took s [] rest) (.head _) (.fault other)
  | case6 s bytes rest more =>
      exact .cut rfl (mt List.isEmpty_iff.mpr more) (take_took s [] rest) (.head _) .nothing
  | case7 s bytes rest more count _ ih =>
      have all : SendLaw s (bytes.take count ++ bytes.drop count) (.accept count :: rest) _ :=
        ih.after (take_took s (bytes.take count) rest)
      rwa [List.take_append_drop] at all

/-- The flushes that are made of those to come: all that are interrupted, and one that is not. -/
inductive Flushes : List (Option Fault) → Nat → Option Fault → List (Option Fault) → Prop
  | free : Flushes [] 1 none []
  | done {left} : Flushes (none :: left) 1 none left
  | failed {fault left} : fault.kind ≠ .interrupted → Flushes (some fault :: left) 1 (some fault) left
  | again {fault events calls last left} : fault.kind = .interrupted → Flushes events calls last left →
      Flushes (some fault :: events) (calls + 1) last left

def flushed : Option Fault → Except StreamError Unit
  | none => .ok ()
  | some fault => .error (.io fault)

theorem flushWith_law (s : Sink) (events : List (Option Fault)) :
    ∃ calls last left, Flushes events calls last left ∧
      s.flushWith events = (flushed last, { s with flushes := left, flushCalls := s.flushCalls + calls }) := by
  fun_induction flushWith s events with
  | case1 s => exact ⟨1, none, [], .free, rfl⟩
  | case2 s left => exact ⟨1, none, left, .done, rfl⟩
  | case3 s fault rest tried again ih =>
      obtain ⟨calls, last, left, flushes, result⟩ := ih
      refine ⟨calls + 1, last, left, .again again flushes, ?_⟩
      rw [result]
      simp only [tried, Nat.add_assoc, Nat.add_comm 1]
  | case4 s fault rest tried other => exact ⟨1, some fault, rest, .failed other, rfl⟩

/-- How much of a value a sink takes, what the writer says, and the sink afterwards. -/
inductive Delivery (limits : Limits) (s : Sink) (v : Packed) : Bytes → Except StreamError Unit → Sink → Prop
  /-- All of the value is taken, and then the sink flushed. -/
  | sent {bytes whole calls left} : v.toBytes = .ok bytes → bytes.length ≤ limits.maxSize → Took s bytes whole →
      Flushes whole.flushes calls none left → Delivery limits s v bytes (.ok ())
        { whole with flushes := left, flushCalls := whole.flushCalls + calls }
  /-- All of the value is taken, but flushing the sink fails. -/
  | unflushed {bytes whole calls fault left} : v.toBytes = .ok bytes → bytes.length ≤ limits.maxSize →
      Took s bytes whole → Flushes whole.flushes calls (some fault) left →
      Delivery limits s v bytes (.error (.io fault))
        { whole with flushes := left, flushCalls := whole.flushCalls + calls }
  /-- A write ends it before all of the value is taken, and the sink is not flushed. -/
  | cut {part missing event e cut} : v.toBytes = .ok (part ++ missing) → missing ≠ [] →
      (part ++ missing).length ≤ limits.maxSize → Took s part cut → event ∈ s.writes → event.Stops e →
      Delivery limits s v part (.error e) cut
  /-- The value has no encoding. Nothing is written. -/
  | overlong {length} : v.oversize? = some length →
      Delivery limits s v [] (.error (.format (.tooLarge length (2 ^ 32 - 1)))) s
  /-- The encoding is beyond the limit. Nothing is written. -/
  | large {bytes} : v.toBytes = .ok bytes → limits.maxSize < bytes.length →
      Delivery limits s v [] (.error (.format (.tooLarge bytes.length limits.maxSize))) s

theorem writeValue_delivers (limits : Limits) (s : Sink) (v : Packed) :
    ∃ part, Delivery limits s v part (s.writeValue limits v).1 (s.writeValue limits v).2 := by
  fun_cases writeValue limits s v with
  | case1 e refused =>
      unfold Packed.toBytes at refused
      split at refused
      · next length overlong =>
          cases refused
          exact ⟨[], .overlong overlong⟩
      · cases refused
  | case2 bytes encoded large => exact ⟨[], .large encoded large⟩
  | case3 bytes encoded small whole send =>
      have sending := sendWith_law s bytes s.writes
      rw [← Sink.send, send] at sending
      cases sending with
      | sent took =>
          obtain ⟨calls, last, left, flushes, result⟩ := flushWith_law whole whole.flushes
          rw [Sink.flush, result]
          cases last with
          | none => exact ⟨bytes, .sent encoded (Nat.not_lt.mp small) took flushes⟩
          | some fault => exact ⟨bytes, .unflushed encoded (Nat.not_lt.mp small) took flushes⟩
  | case4 bytes encoded small sink e send =>
      have sending := sendWith_law s bytes s.writes
      rw [← Sink.send, send] at sending
      cases sending with
      | @cut part _ _ _ _ split missing took member stops =>
          subst split
          exact ⟨part, .cut encoded missing (Nat.not_lt.mp small) took member stops⟩

/-- How sending a value may end, as far as the value is concerned. -/
inductive WriteLaw (s : Sink) (v : Packed) : Except StreamError Unit × Sink → Prop
  | sent {bytes} {sink : Sink} : v.toBytes = .ok bytes → sink.taken = s.taken ++ bytes →
      WriteLaw s v (.ok (), sink)
  /-- Nothing has been written. -/
  | refused {refusal} : WriteLaw s v (.error (.format refusal), s)
  | failed {e bytes part} {sink : Sink} : (∀ refusal, e ≠ .format refusal) → v.toBytes = .ok bytes →
      part <+: bytes → sink.taken = s.taken ++ part → WriteLaw s v (.error e, sink)

theorem Delivery.writeLaw {limits : Limits} {s later : Sink} {v : Packed} {part : Bytes}
    {result : Except StreamError Unit} (h : Delivery limits s v part result later) :
    WriteLaw s v (result, later) := by
  cases h with
  | sent encoded small took flushes => exact .sent encoded took.taken
  | unflushed encoded small took flushes => exact .failed nofun encoded (List.prefix_refl _) took.taken
  | cut encoded missing small took member stops =>
      exact .failed stops.ne_format encoded (List.prefix_append _ _) took.taken
  | overlong | large => exact .refused

theorem writeValue_law (limits : Limits) (s : Sink) (v : Packed) :
    WriteLaw s v (s.writeValue limits v) := by
  obtain ⟨_, delivery⟩ := writeValue_delivers limits s v
  exact delivery.writeLaw

/-- What has been sent is the encoding of the value, and within the limit. -/
theorem writeValue_sent {limits : Limits} {s written : Sink} {v : Packed}
    (h : s.writeValue limits v = (.ok (), written)) :
    ∃ bytes, v.toBytes = .ok bytes ∧ bytes.length ≤ limits.maxSize ∧ written.taken = s.taken ++ bytes := by
  have law := writeValue_law limits s v
  rw [h] at law
  cases law with
  | @sent bytes _ encoded taken =>
      refine ⟨bytes, encoded, Nat.not_lt.mp fun large => ?_, taken⟩
      simp only [writeValue, encoded, if_pos large] at h
      cases h

/-- A value that is refused leaves the sink as it is; of one that could not be sent a front may be taken. -/
theorem writeValue_failed {limits : Limits} {s written : Sink} {v : Packed} {e : StreamError}
    (h : s.writeValue limits v = (.error e, written)) :
    (∀ refusal, e = .format refusal → written = s) ∧
      ∃ part, written.taken = s.taken ++ part ∧ ∀ bytes, v.toBytes = .ok bytes → part <+: bytes := by
  have law := writeValue_law limits s v
  rw [h] at law
  cases law with
  | refused => exact ⟨fun _ _ => rfl, [], (List.append_nil _).symm, fun _ _ => List.nil_prefix⟩
  | @failed _ bytes part _ other encoded within taken =>
      refine ⟨fun refusal same => absurd same (other refusal), part, taken, fun again same => ?_⟩
      rw [encoded] at same
      cases same
      exact within

/-- A sink on which nothing fails for good. -/
structure Reliable (s : Sink) : Prop where
  writes : ∀ event ∈ s.writes, event.Reliable
  flushes : ∀ fault, some fault ∈ s.flushes → fault.kind = .interrupted

theorem sendWith_reliable (s : Sink) (bytes : Bytes) (events : List WriteEvent)
    (h : ∀ event ∈ events, event.Reliable) :
    ∃ sent, s.sendWith bytes events = (.ok (), sent) ∧ Took s bytes sent := by
  have law := sendWith_law s bytes events
  generalize s.sendWith bytes events = result at law
  cases law with
  | @sent whole took => exact ⟨whole, rfl, took⟩
  | cut _ _ _ member stops => exact absurd stops (h _ member).not_stops

theorem Flushes.reliable {events left : List (Option Fault)} {calls : Nat} {last : Option Fault}
    (h : Flushes events calls last left) (reliable : ∀ fault, some fault ∈ events → fault.kind = .interrupted) :
    last = none := by
  induction h with
  | free | done => rfl
  | failed other => exact absurd (reliable _ (.head _)) other
  | again interrupted _ ih => exact ih fun fault member => reliable fault (.tail _ member)

theorem flushWith_reliable (s : Sink) (events : List (Option Fault))
    (h : ∀ fault, some fault ∈ events → fault.kind = .interrupted) :
    ∃ flushed, s.flushWith events = (.ok (), flushed) ∧ flushed.taken = s.taken := by
  obtain ⟨calls, last, left, flushes, result⟩ := flushWith_law s events
  obtain rfl := flushes.reliable h
  exact ⟨_, result, rfl⟩

/-- A value within the limit is sent whole. -/
theorem writeValue_reliable {s : Sink} {limits : Limits} {v : Packed} {bytes : Bytes}
    (reliable : s.Reliable) (encoded : v.toBytes = .ok bytes) (small : bytes.length ≤ limits.maxSize) :
    ∃ written, s.writeValue limits v = (.ok (), written) ∧ written.taken = s.taken ++ bytes := by
  obtain ⟨sent, send, took⟩ := sendWith_reliable s bytes s.writes reliable.writes
  obtain ⟨flushed, flush, same⟩ :=
    flushWith_reliable sent sent.flushes (by rw [took.flushes]; exact reliable.flushes)
  refine ⟨flushed, ?_, by rw [same, took.taken]⟩
  simp only [writeValue, encoded, if_neg (Nat.not_lt.mpr small), Sink.send, send, Sink.flush, flush]

end Sink

end PackRpc
