import PackRpc.Proofs.Stream.Transcript
/-!
# Values over the limit

The limit on size is held against every length that a value declares, and against the bytes that a reader
holds of a value that is not complete. It is not held against the bytes of a complete value. So what becomes
of a value over the limit depends on the sizes of the buffer at which the reader looks.
-/
namespace PackRpc
open scoped List

namespace Source

variable {event : ReadEvent} {events rest left : List ReadEvent} {held : Nat}

def arrived : Except Fault Bytes → Nat
  | .ok bytes => bytes.length
  | .error _ => 0

/-- How many bytes a reader that starts with `held` of them has, each time that it looks at them. -/
def looks (held : Nat) : List ReadEvent → List Nat
  | [] => [held]
  | event :: rest => held :: looks (held + arrived (read event rest).1) (read event rest).2
termination_by events => weight events
decreasing_by exact weight_read_lt event rest

theorem looks_read {got : Except Fault Bytes} (h : read event rest = (got, left)) :
    looks held (event :: rest) = held :: looks (held + arrived got) left := by
  rw [looks, h]

theorem exists_looks (held : Nat) (events : List ReadEvent) : ∃ later, looks held events = held :: later := by
  cases events with
  | nil => exact ⟨[], by rw [looks]⟩
  | cons event rest => exact ⟨_, looks_read rfl⟩

theorem le_of_mem_looks {n : Nat} (h : n ∈ looks held events) : held ≤ n := by
  fun_induction looks held events with
  | case1 held => exact Nat.le_of_eq (List.mem_singleton.mp h).symm
  | case2 held event rest ih =>
      rcases List.mem_cons.mp h with same | later
      · exact Nat.le_of_eq same.symm
      · exact Nat.le_trans (Nat.le_add_right _ _) (ih later)

theorem read_length_le {bytes : Bytes} (h : read event rest = (.ok bytes, left)) :
    bytes.length ≤ chunkSize := by
  cases event with
  | fault fault => cases h
  | data all =>
      rw [read] at h
      split at h
      · next small =>
          cases h
          exact small
      · cases h
        exact List.length_take_le _ _

end Source

namespace StreamReader

open Source (looks arrived)

variable {soft : Fault → Prop} {limits : Limits} {guard : Guard} {ending : Ending} {r : StreamReader}
  {events : List ReadEvent} {v : Packed} {front rest : Bytes}

/-! ## How much a reader holds -/

/-- A reader with these limits that holds no more than the limit on size and one read. -/
structure Bounded (limits : Limits) (r : StreamReader) : Prop where
  limits_eq : r.limits = limits
  small : r.buffer.bytes.length ≤ limits.maxSize + Source.chunkSize

theorem Bounded.next (h : r.Bounded limits) : Bounded limits { r with buffer := (r.buffer.next r.limits).2 } :=
  ⟨h.limits_eq, Nat.le_trans (Buffer.next_length_le _ _) h.small⟩

theorem Bounded.readValueFrom {asked reads : Nat} (h : r.Bounded limits) :
    let p := readValueFrom guard ending asked reads r events
    p.reader.Bounded limits ∧ ∀ v, p.result = .ok v →
      ∃ front, Packed.ofBytes limits front = .ok v ∧ front.length ≤ limits.maxSize + Source.chunkSize := by
  fun_induction StreamReader.readValueFrom guard ending asked reads r events with
  | case1 asked reads r events v buffer next =>
      have later := h.next
      rw [next] at later
      refine ⟨later, fun w given => ?_⟩
      cases given
      obtain ⟨front, within, accepted⟩ := Buffer.next_some (congrArg Prod.fst next)
      rw [h.limits_eq] at accepted
      exact ⟨front, accepted, Nat.le_trans within.length_le h.small⟩
  | case2 asked reads r events e buffer next | case3 asked reads r events buffer next e objected
  | case4 asked reads r buffer next passed
  | case6 asked reads r buffer next passed event rest fault left read other
  | case7 asked reads r buffer next passed event rest left read =>
      have later := h.next
      rw [next] at later
      exact ⟨later, fun v given => by cases given⟩
  | case5 asked reads r buffer next passed event rest fault left read interrupted ih =>
      have later := h.next
      rw [next] at later
      exact ih later
  | case8 asked reads r buffer next passed event rest byte bytes left read ih =>
      have later := h.next
      rw [next] at later
      -- The reader asks for more only while it holds no more than the limit.
      have waited := Buffer.next_none (congrArg Prod.fst next)
      have kept : buffer.bytes.length ≤ r.buffer.bytes.length := by
        have kept := Buffer.next_length_le r.limits r.buffer
        rwa [next] at kept
      have piece := Source.read_length_le read
      rw [h.limits_eq] at waited
      refine ih ⟨h.limits_eq, ?_⟩
      rw [Buffer.append, List.length_append]
      omega

theorem Bounded.readValue (h : r.Bounded limits) (guard : Guard) (source : Source) :
    let p := r.readValue guard source
    p.reader.Bounded limits ∧ ∀ v, p.result = .ok v →
      ∃ front, Packed.ofBytes limits front = .ok v ∧ front.length ≤ limits.maxSize + Source.chunkSize :=
  h.readValueFrom

theorem Bounded.readings (h : r.Bounded limits) (guards : List Guard) (source : Source) :
    ∀ p ∈ readings guards r source, ∀ v, p.result = .ok v →
      ∃ front, Packed.ofBytes limits front = .ok v ∧ front.length ≤ limits.maxSize + Source.chunkSize := by
  induction guards generalizing r source with
  | nil => exact List.forall_mem_nil _
  | cons guard guards ih =>
      obtain ⟨later, given⟩ := h.readValue guard source
      exact List.forall_mem_cons.mpr ⟨given, ih later _⟩

/-! ## Which values are refused -/

/-- What becomes of a value of this size: it is refused the first time that a reader looks at a part of it
that is over the limit, and taken if there is no such time. -/
def verdict (limits : Limits) (v : Packed) (size : Nat) (looks : List Nat) : Except StreamError Packed :=
  match looks.find? fun n => limits.maxSize < n ∧ n < size with
  | some n => .error (.format (.tooLarge n limits.maxSize))
  | none => .ok v

section
variable {size held : Nat} {later : List Nat}

theorem verdict_waits (small : held ≤ limits.maxSize) :
    verdict limits v size (held :: later) = verdict limits v size later := by
  have waits : ¬(limits.maxSize < held ∧ held < size) := fun h => Nat.not_lt.mpr small h.1
  rw [verdict, verdict, List.find?_cons_of_neg (by simpa using waits)]

theorem verdict_refuses (large : limits.maxSize < held) (part : held < size) :
    verdict limits v size (held :: later) = .error (.format (.tooLarge held limits.maxSize)) := by
  rw [verdict, List.find?_cons_of_pos (by simpa using ⟨large, part⟩)]

theorem verdict_takes {looks : List Nat} (complete : ∀ n ∈ looks, limits.maxSize < n → size ≤ n) :
    verdict limits v size looks = .ok v := by
  have none : looks.find? (fun n => limits.maxSize < n ∧ n < size) = none := by
    rw [List.find?_eq_none]
    intro n member exceeds
    rw [decide_eq_true_eq] at exceeds
    exact absurd exceeds.2 (Nat.not_lt.mpr (complete n member exceeds.1))
  rw [verdict, none]

end

/-- How a call may end when a value of any size stands first in the stream: the value is decided on, or
nothing has changed in what will be decided. -/
inductive OverrunLaw (soft : Fault → Prop) (limits : Limits) (guard : Guard) (ending : Ending) (v : Packed)
    (front rest : Bytes) (decided : Except StreamError Packed) (awaited : List Fault) :
    Progress Packed → Prop
  | decided {p} : p.result = decided →
      OverrunLaw soft limits guard ending v front rest decided awaited p
  | stopped {n e r events reads} : guard n = some e → Holds soft limits r events (front ++ rest) →
      verdict limits v front.length (looks r.buffer.bytes.length events) = decided →
      Source.failures events = awaited →
      OverrunLaw soft limits guard ending v front rest decided awaited
        ⟨.error e, r, ⟨events, ending⟩, reads, n + 1⟩
  | failed {fault r events reads guards} : Holds soft limits r events (front ++ rest) →
      verdict limits v front.length (looks r.buffer.bytes.length events) = decided →
      fault :: Source.failures events = awaited →
      OverrunLaw soft limits guard ending v front rest decided awaited
        ⟨.error (.io fault), r, ⟨events, ending⟩, reads, guards⟩

theorem Holds.overrun {e : FormatError} {buffer : Buffer} (h : Holds soft limits r events (front ++ rest))
    (accepted : Packed.ofBytes limits front = .ok v) (next : r.buffer.next r.limits = (.error e, buffer)) :
    limits.maxSize < r.buffer.bytes.length ∧ r.buffer.bytes.length < front.length ∧
      e = .tooLarge r.buffer.bytes.length limits.maxSize := by
  have parts := h.within_or_part
  obtain ⟨rfl, resumable, -, -⟩ := h
  obtain ⟨back, bytes⟩ | ⟨missing, more, bytes⟩ := parts
  · rw [resumable.next_accepted accepted bytes.symm] at next
    cases next
  · by_cases small : r.buffer.bytes.length ≤ r.limits.maxSize
    · obtain ⟨s, waits⟩ := resumable.next_partial accepted bytes more small
      rw [waits] at next
      cases next
    · rw [resumable.next_overrun accepted bytes more (Nat.not_le.mp small)] at next
      cases next
      have := List.length_pos_iff.mpr more
      have size := congrArg List.length bytes
      rw [List.length_append] at size
      exact ⟨Nat.not_le.mp small, by omega, rfl⟩

theorem Holds.taken {w : Packed} {buffer : Buffer} (h : Holds soft limits r events (front ++ rest))
    (accepted : Packed.ofBytes limits front = .ok v)
    (next : r.buffer.next r.limits = (.ok (some w), buffer)) :
    w = v ∧ front.length ≤ r.buffer.bytes.length := by
  obtain ⟨p, within, read⟩ := Buffer.next_some (congrArg Prod.fst next)
  rw [h.limits_eq] at read
  obtain ⟨rfl, rfl⟩ := Packed.ofBytes_prefix_unique (List.prefix_append front rest)
    (within.trans ⟨_, h.whole⟩) accepted read
  exact ⟨rfl, within.length_le⟩

theorem readValueFrom_overrun {decided : Except StreamError Packed} {awaited : List Fault} {asked reads : Nat}
    (h : Holds soft limits r events (front ++ rest)) (accepted : Packed.ofBytes limits front = .ok v)
    (pending : Source.failures events = awaited)
    (due : verdict limits v front.length (looks r.buffer.bytes.length events) = decided) :
    OverrunLaw soft limits guard ending v front rest decided awaited
      (readValueFrom guard ending asked reads r events) := by
  -- While the answer is that more is needed, the buffer is within the limit and a look changes nothing.
  have waiting : ∀ {r : StreamReader} {events : List ReadEvent} {buffer : Buffer},
      Holds soft limits r events (front ++ rest) → r.buffer.next r.limits = (.ok none, buffer) →
      Holds soft limits { r with buffer } events (front ++ rest) ∧ events ≠ [] ∧
        buffer.bytes.length = r.buffer.bytes.length ∧ r.buffer.bytes.length ≤ limits.maxSize := by
    intro r events buffer h next
    obtain ⟨holds, answered, same⟩ := h.next_other next nofun
    have small := Buffer.next_none (congrArg Prod.fst next)
    rw [h.limits_eq] at small
    exact ⟨holds, holds.events_ne_nil accepted answered, Nat.add_left_cancel same, small⟩
  fun_induction readValueFrom guard ending asked reads r events with
  | case1 asked reads r events w buffer next =>
      obtain ⟨rfl, complete⟩ := h.taken accepted next
      rw [verdict_takes fun n member _ =>
        Nat.le_trans complete (Source.le_of_mem_looks member)] at due
      exact .decided due
  | case2 asked reads r events e buffer next =>
      obtain ⟨large, part, rfl⟩ := h.overrun accepted next
      obtain ⟨later, first⟩ := Source.exists_looks r.buffer.bytes.length events
      rw [first, verdict_refuses large part] at due
      exact .decided due
  | case3 asked reads r events buffer next e objected =>
      obtain ⟨holds, -, kept, -⟩ := waiting h next
      rw [← kept] at due
      exact .stopped objected holds due pending
  | case4 asked reads r buffer next passed => exact absurd rfl (waiting h next).2.1
  | case5 asked reads r buffer next passed event rest' fault left read interrupted ih =>
      obtain ⟨holds, -, kept, small⟩ := waiting h next
      rw [Source.looks_read read, verdict_waits small, ← kept] at due
      obtain ⟨-, holds, others, -⟩ := holds.read_fault read
      rw [if_pos interrupted, pending] at others
      exact ih holds others due
  | case6 asked reads r buffer next passed event rest' fault left read other =>
      obtain ⟨holds, -, kept, small⟩ := waiting h next
      rw [Source.looks_read read, verdict_waits small, ← kept] at due
      obtain ⟨-, holds, others, -⟩ := holds.read_fault read
      rw [if_neg other, pending] at others
      exact .failed holds due others
  | case7 asked reads r buffer next passed event rest' left read =>
      obtain ⟨holds, -, -, -⟩ := waiting h next
      exact absurd rfl (holds.read_data read).1
  | case8 asked reads r buffer next passed event rest' byte bytes left read ih =>
      obtain ⟨holds, -, kept, small⟩ := waiting h next
      rw [Source.looks_read read, verdict_waits small, ← kept] at due
      obtain ⟨-, holds, others, -⟩ := holds.read_data read
      refine ih holds (others.trans pending) ?_
      rw [Buffer.append, List.length_append]
      exact due

theorem readValue_overrun (guard : Guard) (ending : Ending)
    (h : Holds soft limits r events (front ++ rest)) (accepted : Packed.ofBytes limits front = .ok v) :
    OverrunLaw soft limits guard ending v front rest
      (verdict limits v front.length (looks r.buffer.bytes.length events)) (Source.failures events)
      (r.readValue guard ⟨events, ending⟩) :=
  readValueFrom_overrun h accepted rfl rfl

/-- A call that has not decided on the value: it met a failure, or its guard objected the last time it was
asked. -/
def Undecided (guard : Guard) (p : Progress Packed) : Prop :=
  (∃ fault, p.result = .error (.io fault)) ∨
    ∃ n e, guard n = some e ∧ p.guards = n + 1 ∧ p.result = .error e

theorem Holds.readings_verdict (accepted : Packed.ofBytes limits front = .ok v)
    (h : Holds soft limits r events (front ++ rest)) (guards : List Guard) :
    let ps := readings guards r ⟨events, ending⟩
    ∃ count ≤ guards.length, List.Forall₂ Undecided (guards.take count) (ps.take count) ∧
      (∀ p ∈ ps[count]?,
        p.result = verdict limits v front.length (looks r.buffer.bytes.length events)) ∧
      (List.replicate ((Source.failures events).length + 1) unguarded <+ guards → count < guards.length) := by
  induction guards generalizing r events with
  | nil => exact ⟨0, Nat.le_refl _, .nil, nofun, fun enough => by cases enough⟩
  | cons guard guards ih =>
      have law := readValue_overrun guard ending h accepted
      rw [readings]
      generalize r.readValue guard ⟨events, ending⟩ = p at law ⊢
      cases law with
      | decided given =>
          refine ⟨0, Nat.zero_le _, .nil, fun q member => ?_, fun _ => Nat.succ_pos _⟩
          cases member
          exact given
      | stopped objected holds same others =>
          obtain ⟨count, le, before, last, enough⟩ := ih holds
          rw [same] at last
          rw [others] at enough
          exact ⟨count + 1, Nat.succ_le_succ le, .cons (.inr ⟨_, _, objected, rfl, rfl⟩) before, last,
            fun unstopped => Nat.succ_lt_succ (enough (skip_guarded objected unstopped))⟩
      | failed holds same others =>
          obtain ⟨count, le, before, last, enough⟩ := ih holds
          rw [same] at last
          rw [← others]
          exact ⟨count + 1, Nat.succ_le_succ le, .cons (.inl ⟨_, rfl⟩) before, last,
            fun unstopped => Nat.succ_lt_succ (enough (tail_unguarded unstopped))⟩

theorem Holds.readValue_verdict (ending : Ending) (accepted : Packed.ofBytes limits front = .ok v)
    (h : Holds soft limits r events (front ++ rest)) (calm : Source.failures events = []) :
    (r.readValue unguarded ⟨events, ending⟩).result =
      verdict limits v front.length (looks r.buffer.bytes.length events) := by
  have law := readValue_overrun unguarded ending h accepted
  rw [calm] at law
  generalize r.readValue unguarded ⟨events, ending⟩ = p at law ⊢
  cases law with
  | decided given => exact given
  | stopped objected => cases objected
  | failed _ _ others => cases others

/-- Whatever is accepted is taken whole off the front of a byte string, and a part of it is refused exactly
when the part is over the limit. So a new reader may return values over the limit, but none of which more
than the limit and one read had come. A value that a reader is to take next is decided on once, after calls
that met failures or objections; it is refused if a reader of these pieces ever looks at a part of it that is
over the limit, and returned otherwise. -/
theorem readings_limited (limits : Limits) :
    (∀ front v, Packed.ofBytes limits front = .ok v →
      (∀ rest, Packed.decodeFirst limits (front ++ rest) = (.ok (some v), rest)) ∧
      ∀ part missing, front = part ++ missing → missing ≠ [] →
        Packed.decodeFirst limits part =
          (if limits.maxSize < part.length then .error (.tooLarge part.length limits.maxSize)
            else .ok none, part)) ∧
    (∀ guards source, ∀ p ∈ readings guards (.new limits) source, ∀ v, p.result = .ok v →
      ∃ front, Packed.ofBytes limits front = .ok v ∧
        front.length ≤ limits.maxSize + Source.chunkSize) ∧
    ∀ front v rest r events ending guards, Packed.ofBytes limits front = .ok v →
      Holds (fun _ => True) limits r events (front ++ rest) →
      let ps := readings guards r ⟨events, ending⟩
      let decided := verdict limits v front.length (looks r.buffer.bytes.length events)
      (front.length ≤ limits.maxSize → decided = .ok v) ∧
      ∃ count ≤ guards.length, List.Forall₂ Undecided (guards.take count) (ps.take count) ∧
        (∀ p ∈ ps[count]?, p.result = decided) ∧
        (List.replicate ((Source.failures events).length + 1) unguarded <+ guards →
          count < guards.length) := by
  refine ⟨fun front v accepted => ⟨fun rest => ?_, ?_⟩, fun guards source => ?_, ?_⟩
  · have fresh := Buffer.ofBytes_resumable limits (front ++ rest)
    rw [Packed.decodeFirst, fresh.next_accepted accepted rfl]
    rfl
  · intro part missing split more
    have fresh := Buffer.ofBytes_resumable limits part
    by_cases large : limits.maxSize < part.length
    · rw [Packed.decodeFirst, fresh.next_overrun accepted split more large, if_pos large]
      rfl
    · obtain ⟨s, next⟩ := fresh.next_partial accepted split more (Nat.not_lt.mp large)
      rw [Packed.decodeFirst, next, if_neg large]
      rfl
  · have bounded : (StreamReader.new limits).Bounded limits := ⟨rfl, Nat.zero_le _⟩
    exact bounded.readings guards source
  · intro front v rest r events ending guards accepted holds ps decided
    refine ⟨fun small => ?_, holds.readings_verdict accepted guards⟩
    exact verdict_takes fun n _ large => Nat.le_trans small (Nat.le_of_lt large)

/-- A value of twice the limit, of which first a half comes and then, after a read that takes too long, the
other half. -/
theorem readings_limited_halves :
    let limits : Limits := ⟨3, 64⟩
    let v : Packed := .array [.array [.ofNat 1], .array [.ofNat 2], .ofNat 3]
    let events : List ReadEvent := [.data [0x93, 0x91, 0x01], .fault .nothingThere, .data [0x91, 0x02, 0x03]]
    let ps := readings [unguarded, unguarded] (.new limits) ⟨events, .closed⟩
    (∃ p ∈ ps, p.result = .ok v) ∧
      Packed.decodeFirst limits [0x93, 0x91, 0x01, 0x91] =
        (.error (.tooLarge 4 3), [0x93, 0x91, 0x01, 0x91]) := by
  intro limits v events ps
  obtain ⟨front, -, decides⟩ := readings_limited limits
  have accepted : Packed.ofBytes limits [0x93, 0x91, 0x01, 0x91, 0x02, 0x03] = .ok v := by cbv
  have holds : Holds (fun _ => True) limits (.new limits) events ([0x93, 0x91, 0x01, 0x91, 0x02, 0x03] ++ []) :=
    ⟨rfl, Buffer.ofBytes_resumable limits [], ⟨by simp [events], fun _ _ => trivial⟩, rfl⟩
  have never : looks 0 events = [0, 3, 3, 6] := by
    simp [looks, events, Source.read, Source.chunkSize, arrived]
  obtain ⟨-, count, -, -, last, enough⟩ := decides _ v [] _ events .closed [unguarded, unguarded] accepted holds
  have less : count < ps.length := enough (List.Sublist.refl _)
  have given := last _ (List.getElem?_eq_getElem less)
  rw [show (StreamReader.new limits).buffer.bytes.length = 0 from rfl, never] at given
  exact ⟨⟨_, List.getElem_mem less, given⟩, (front _ v accepted).2 _ [0x02, 0x03] rfl (List.cons_ne_nil _ _)⟩

/-- A value of twice the limit is returned if it comes in one piece and refused if it comes in two. -/
theorem value_over_limit :
    let limits : Limits := ⟨3, 64⟩
    let v : Packed := .array [.array [.ofNat 1], .array [.ofNat 2], .ofNat 3]
    let bytes : Bytes := [0x93, 0x91, 0x01, 0x91, 0x02, 0x03]
    let read (events : List ReadEvent) := ((new limits).readValue unguarded ⟨events, .closed⟩).result
    v.toBytes = .ok bytes ∧ limits.maxSize < bytes.length ∧
      Packed.decodeFirst limits bytes = (.ok (some v), []) ∧
      read [.data bytes] = .ok v ∧
      read [.data (bytes.take 4), .data (bytes.drop 4)] = .error (.format (.tooLarge 4 3)) := by
  intro limits v bytes read
  have accepted : Packed.ofBytes limits bytes = .ok v := by cbv
  have holds : ∀ events : List ReadEvent, (∀ piece, .data piece ∈ events → piece ≠ []) →
      Source.payload events = bytes →
      Holds (fun _ => True) limits (.new limits) events (bytes ++ []) := by
    intro events pieces whole
    exact ⟨rfl, Buffer.ofBytes_resumable limits [], ⟨pieces, fun _ _ => trivial⟩,
      by rw [List.append_nil, ← whole]; rfl⟩
  refine ⟨by rfl, by decide, by cbv, ?_, ?_⟩
  · have sizes : looks 0 [.data bytes] = [0, 6] := by
      simp [looks, bytes, Source.read, Source.chunkSize, arrived]
    have given := (holds [.data bytes] (by simp [bytes]) rfl).readValue_verdict .closed accepted rfl
    rwa [show (StreamReader.new limits).buffer.bytes.length = 0 from rfl, sizes] at given
  · have sizes : looks 0 [.data (bytes.take 4), .data (bytes.drop 4)] = [0, 4, 6] := by
      simp [looks, bytes, Source.read, Source.chunkSize, arrived]
    have given := (holds [.data (bytes.take 4), .data (bytes.drop 4)] (by simp [bytes]) rfl).readValue_verdict
      .closed accepted rfl
    rwa [show (StreamReader.new limits).buffer.bytes.length = 0 from rfl, sizes] at given

end StreamReader

end PackRpc
