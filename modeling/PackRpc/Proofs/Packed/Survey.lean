import PackRpc.Proofs.Packed.Narrowing
/-!
# What measuring refuses

Measuring holds the limits against the same lengths and levels as reading, in the same order, but for one
family: a small extension, whose marker declares the length, is only held against the limit on size when it is
read. `survey` is reading without that check. Measuring goes its way (`survey_follows`), so that a buffer is
refused exactly as it would be if it were read at once, unless a small extension is over the limit. No small
extension is longer than sixteen bytes, and under limits that admit these there is no exception.
-/
namespace PackRpc

namespace Packed
open Reader (Extends)

/-- Reads what a marker announces, with a small extension of any length. -/
def Shape.survey (limits : Limits) (inner : Option (Reader Packed)) : Shape → Reader Packed
  | .fixed .ext length => extBody { limits with maxSize := length } length
  | shape => shape.read limits inner

def surveyItem (limits : Limits) (inner : Option (Reader Packed)) : Reader Packed
  | [] => .error .short
  | marker :: rest => (shape marker).survey limits inner rest

/-- Reads one value as `parse` does, with small extensions of any length. -/
def survey (limits : Limits) : (levels : Nat) → Reader Packed
  | 0 => surveyItem limits none
  | levels + 1 => surveyItem limits (some (survey limits levels))

/-- Why reading stops where surveying goes on. -/
inductive Overlooked (limits : Limits) : Stop → Prop
  | small_extension {marker length} : shape marker = .fixed .ext length → limits.maxSize < length →
      Overlooked limits (.refused (.tooLarge length limits.maxSize))

theorem small_extension_le {marker : UInt8} {length : Nat} (h : shape marker = .fixed .ext length) :
    length ≤ 16 := by
  unfold shape at h
  generalize marker.toNat = m at h
  dsimp only at h
  split_ifs at h
  all_goals try cases h
  split at h <;> cases h <;> decide

theorem not_overlooked {limits : Limits} {stop : Stop} (h : 16 ≤ limits.maxSize) : ¬Overlooked limits stop := by
  rintro ⟨announced, large⟩
  have := small_extension_le announced
  omega

section
variable {limits : Limits} {inner inner' : Option (Reader Packed)}

theorem surveyItem_extends (h : Layered (Overlooked limits) [] limits limits inner inner') :
    Extends (Overlooked limits) [] (item limits inner) (surveyItem limits inner') := by
  intro bytes
  cases bytes with
  | nil => exact .stopped
  | cons marker rest =>
      rw [List.cons_append, item_eq_read, surveyItem]
      have other := h.shape_read marker rest
      cases announced : shape marker with
      | fixed family length =>
          rw [announced] at other
          cases family with
          | ext =>
              -- The length is held against the limit by the first reader only.
              have limit : length ≤ ({ limits with maxSize := length } : Limits).maxSize ∧
                  (limits.maxSize < length → Overlooked limits (.refused (.tooLarge length limits.maxSize))) :=
                ⟨Nat.le_refl length, .small_extension announced⟩
              exact checked_extends ((extBody_takes length).extends_self h.late) (.inr limit) rest
          | str | bin | array | map => exact other
      | value | number | sized | reserved =>
          rw [announced] at other
          exact other

/-- Surveying does what reading does, unless a small extension is over the limit. -/
theorem parse_extends_survey (limits : Limits) (levels : Nat) :
    Extends (Overlooked limits) [] (parse limits levels) (survey limits levels) := by
  induction levels with
  | zero => exact surveyItem_extends ⟨.inl rfl, rfl, nofun, fun _ => .inl ⟨rfl, rfl⟩⟩
  | succ levels ih =>
      refine surveyItem_extends ⟨.inl rfl, rfl, ?_, nofun⟩
      rintro _ ⟨⟩
      exact ⟨_, rfl, ih⟩

theorem parse_eq_survey_or (limits : Limits) (levels : Nat) (bytes : Bytes) :
    parse limits levels bytes = survey limits levels bytes ∨
      ∃ stop, Overlooked limits stop ∧ parse limits levels bytes = .error stop := by
  have alike := parse_extends_survey limits levels bytes
  rw [List.append_nil] at alike
  generalize parse limits levels bytes = result at alike
  generalize survey limits levels bytes = result' at alike
  cases alike with
  | read => exact .inl (by rw [List.append_nil])
  | stopped => exact .inl rfl
  | excused reason => exact .inr ⟨_, reason, rfl⟩

/-- What is refused is refused with more bytes behind it. -/
theorem parse_refused {levels : Nat} {bytes : Bytes} {e : FormatError}
    (h : parse limits levels bytes = .error (.refused e)) (more : Bytes) :
    parse limits levels (bytes ++ more) = .error (.refused e) := by
  have steady : Extends (· = .short) more (parse limits levels) (parse limits levels) := by
    clear h
    induction levels with
    | zero => exact Layered.item ⟨.inr rfl, rfl, nofun, fun _ => .inl ⟨rfl, rfl⟩⟩
    | succ levels ih =>
        refine Layered.item ⟨.inr rfl, rfl, ?_, nofun⟩
        rintro _ ⟨⟩
        exact ⟨_, rfl, ih⟩
  have alike := steady bytes
  rw [h] at alike
  generalize parse limits levels (bytes ++ more) = result at alike ⊢
  cases alike with
  | stopped => rfl
  | excused impossible => cases impossible

end

end Packed

namespace Scanner
open Packed (Family Shape shape survey surveyItem extBody)
open Reader (Takes andThen many pair)

/-- Measuring goes the way of a reader that gives this result on these bytes, from some owed items to others:
it steps over what is read, whatever follows that, and stops where reading stops and for the same reason. -/
inductive Follows {α : Type} (limits : Limits) (before after : List Nat) (bytes : Bytes) :
    Except Stop (α × Bytes) → Prop
  | read {a front rest} : bytes = front ++ rest →
      (∀ position more, walk limits position before (front ++ more) =
        walk limits (position + front.length) after more) →
      Follows limits before after bytes (.ok (a, rest))
  | short : (∀ position, ∃ s, walk limits position before bytes = .more s) →
      Follows limits before after bytes (.error .short)
  | refused {e} : (∀ position, walk limits position before bytes = .refused e) →
      Follows limits before after bytes (.error (.refused e))

section
variable {α β : Type} {limits : Limits} {before between after : List Nat} {bytes : Bytes}
  {read : Reader α} {next : α → Reader β}

theorem Follows.map (h : Follows limits before after bytes (read bytes)) (f : α → β) :
    Follows limits before after bytes (Reader.map f read bytes) := by
  unfold Reader.map
  generalize read bytes = result at h
  cases h with
  | read split steps => exact .read split steps
  | short stops => exact .short stops
  | refused stops => exact .refused stops

theorem Follows.andThen (h : Follows limits before between bytes (read bytes))
    (on : ∀ a rest, Follows limits between after rest (next a rest)) :
    Follows limits before after bytes (andThen read next bytes) := by
  unfold Reader.andThen
  generalize read bytes = result at h
  cases h with
  | short stops => exact .short stops
  | refused stops => exact .refused stops
  | @read a front rest split steps =>
      subst split
      have later := on a rest
      dsimp only
      generalize next a rest = result at later
      cases later with
      | @read b front' rest' split steps' =>
          subst split
          refine .read (List.append_assoc _ _ _).symm fun position more => ?_
          rw [List.append_assoc, steps, steps', List.length_append, Nat.add_assoc]
      | short stops => exact .short fun position => by rw [steps]; exact stops _
      | refused stops => exact .refused fun position => by rw [steps, stops]

/-- Reading many things of which each pays for so many items pays for all of them. -/
theorem Follows.many {outer : List Nat} {price : Nat}
    (each : ∀ owed bytes, Follows limits ((owed + price) :: outer) (owed :: outer) bytes (read bytes))
    (count : Nat) (bytes : Bytes) :
    Follows limits ((price * count) :: outer) outer bytes (many read count bytes) := by
  induction count generalizing bytes with
  | zero => exact .read (List.nil_append bytes).symm fun position more => by rw [Nat.mul_zero, walk_paid]; rfl
  | succ count ih =>
      rw [Reader.many_succ, Nat.mul_succ]
      exact (each (price * count) bytes).andThen fun a rest => (ih rest).map _

theorem Follows.pair {outer : List Nat}
    (each : ∀ owed bytes, Follows limits ((owed + 1) :: outer) (owed :: outer) bytes (read bytes))
    (owed : Nat) (bytes : Bytes) :
    Follows limits ((owed + 2) :: outer) (owed :: outer) bytes (pair read read bytes) :=
  (each (owed + 1) bytes).andThen fun _ rest => (each owed rest).map _

end

section
variable {limits bound : Limits} {owed : Nat} {outer : List Nat} {marker : UInt8} {header back : Bytes}

theorem walk_short (h : Item.skip limits marker back = .error .short) (position : Nat) :
    ∃ s, walk limits position ((owed + 1) :: outer) (marker :: back) = .more s := by
  rw [walk, h]
  exact ⟨_, rfl⟩

theorem follows_payload {α : Type} {size : Nat} {read : Reader α} (takes : Takes size read)
    (found : ∀ back, Item.skip limits marker (header ++ back) =
      Item.payload header.length size (header ++ back)) (back : Bytes) :
    Follows limits ((owed + 1) :: outer) (owed :: outer) (marker :: (header ++ back)) (read back) := by
  by_cases less : back.length < size
  · rw [takes.short back less]
    refine .short (walk_short ?_)
    rw [found, Item.payload_eq_of_le (by simp), if_neg]
    rw [List.length_append]
    omega
  · obtain ⟨a, given⟩ := takes.enough (back.take size) (by rw [List.length_take]; omega)
    have given := given (back.drop size)
    rw [List.take_append_drop] at given
    rw [given]
    have split : marker :: (header ++ back) = marker :: header ++ back.take size ++ back.drop size := by simp
    exact .read split fun position more => walk_payload (List.length_take_of_le (Nat.not_lt.mp less)) (found _)

/-- The reader of the parts of a container, if there may be any, pays for one item of the container. -/
inductive Pays (limits : Limits) (outer : List Nat) : Option (Reader Packed) → Prop
  | none : limits.maxDepth ≤ outer.length → Pays limits outer none
  | some {read} : outer.length < limits.maxDepth →
      (∀ owed inside bytes, Follows limits ((inside + 1) :: owed :: outer) (inside :: owed :: outer) bytes
        (read bytes)) → Pays limits outer (some read)

variable {inner : Option (Reader Packed)}

/-- The parts of a container are stepped over one by one, if it may be entered. -/
theorem follows_container {α β : Type} {count : Nat} {wrap : α → β} {part : Reader Packed → Reader α}
    (pays : Pays limits outer inner) (deep : bound.maxDepth = limits.maxDepth)
    (found : ∀ back, Item.skip limits marker (header ++ back) = .ok (.container count, header.length))
    (parts : ∀ read, (∀ inside bytes, Follows limits ((inside + 1) :: owed :: outer) (inside :: owed :: outer)
        bytes (read bytes)) →
      Follows limits (count :: owed :: outer) (owed :: outer) back (part read back)) :
    Follows limits ((owed + 1) :: outer) (owed :: outer) (marker :: (header ++ back))
      (Packed.nested bound inner (fun read => Reader.map wrap (part read)) back) := by
  unfold Packed.nested
  cases pays with
  | none full =>
      rw [deep]
      exact .refused fun position => walk_too_deep full (found back)
  | @some read room each =>
      have inside := (parts read (each owed)).map wrap
      dsimp only
      generalize Reader.map wrap (part read) back = result at inside
      cases inside with
      | @read a front rest split steps =>
          subst split
          have split : marker :: (header ++ (front ++ rest)) = marker :: header ++ front ++ rest := by simp
          refine .read split fun position more => ?_
          rw [List.append_assoc, List.cons_append, walk_container room (found _), steps]
          congr 1
          simp only [List.length_append, List.length_cons]
          omega
      | short stops => exact .short fun position => by rw [walk_container room (found _)]; exact stops _
      | refused stops => exact .refused fun position => by rw [walk_container room (found _), stops]

theorem follows_checked {α : Type} (family : Family) {length : Nat} {read : Reader α}
    (found : ∀ back, Item.skip limits marker (header ++ back) =
      Item.bounded bound length fun n => family.step header.length (header ++ back) n)
    (within : (∀ back, Item.skip limits marker (header ++ back) =
        family.step header.length (header ++ back) length) →
      Follows limits ((owed + 1) :: outer) (owed :: outer) (marker :: (header ++ back)) (read back)) :
    Follows limits ((owed + 1) :: outer) (owed :: outer) (marker :: (header ++ back))
      (Packed.checked bound length read back) := by
  unfold Packed.checked
  by_cases large : length > bound.maxSize
  · rw [if_pos large]
    refine .refused fun position => walk_refused ?_
    rw [found, Item.bounded, if_pos large]
  · rw [if_neg large]
    refine within fun back => ?_
    rw [found, Item.bounded, if_neg large]

theorem follows_body (pays : Pays limits outer inner) (family : Family) {length : Nat}
    (deep : bound.maxDepth = limits.maxDepth)
    (found : ∀ back, Item.skip limits marker (header ++ back) =
      Item.bounded bound length fun n => family.step header.length (header ++ back) n) (back : Bytes) :
    Follows limits ((owed + 1) :: outer) (owed :: outer) (marker :: (header ++ back))
      (family.body bound inner length back) := by
  cases family with
  | str => exact follows_checked .str found fun step => follows_payload ((Reader.take_takes length).map _) step back
  | bin => exact follows_checked .bin found fun step => follows_payload ((Reader.take_takes length).map _) step back
  | ext =>
      refine follows_checked .ext found fun step => ?_
      have takes := Packed.extBody_takes length
      rw [Nat.add_comm] at takes
      exact follows_payload takes step back
  | array =>
      refine follows_checked .array found fun step => follows_container pays deep step fun read each => ?_
      have all := Follows.many each length back
      rwa [Nat.one_mul] at all
  | map =>
      refine follows_checked .map found fun step => follows_container pays deep step fun read each => ?_
      exact Follows.many (Follows.pair each) length back

theorem follows_fixed (pays : Pays limits outer inner) (family : Family) {length : Nat}
    (found : ∀ back, Item.skip limits marker back = Item.bounded limits length fun n => family.step 0 back n)
    (back : Bytes) :
    Follows limits ((owed + 1) :: outer) (owed :: outer) (marker :: back) (family.body limits inner length back) := by
  have found : ∀ back : Bytes, Item.skip limits marker ([] ++ back) =
      Item.bounded limits length fun n => family.step ([] : Bytes).length ([] ++ back) n := found
  exact follows_body pays family rfl found back

theorem surveyItem_follows (pays : Pays limits outer inner) (owed : Nat) (bytes : Bytes) :
    Follows limits ((owed + 1) :: outer) (owed :: outer) bytes (surveyItem limits inner bytes) := by
  cases bytes with
  | nil => exact .short fun position => by rw [walk]; exact ⟨_, rfl⟩
  | cons marker rest =>
      have measured := Packed.skip_eq_measure limits marker
      rw [surveyItem]
      cases announced : shape marker with
      | value v =>
          rw [announced] at measured
          have found : ∀ more : Bytes, Item.skip limits marker ([] ++ more) = .ok (.scalar, ([] : Bytes).length) :=
            measured
          have split : marker :: rest = [marker] ++ rest := rfl
          exact .read split fun position more => walk_scalar (found more)
      | number size spelled =>
          rw [announced] at measured
          have found : ∀ back : Bytes, Item.skip limits marker ([] ++ back) =
              Item.payload ([] : Bytes).length size ([] ++ back) := measured
          exact follows_payload ((Reader.take_takes size).map spelled) found rest
      | fixed family length =>
          rw [announced] at measured
          cases family with
          | ext =>
              -- A limit that admits the length is no limit.
              let bound : Limits := { limits with maxSize := length }
              have found : ∀ back : Bytes, Item.skip limits marker ([] ++ back) =
                  Item.bounded bound length fun n => Family.ext.step ([] : Bytes).length ([] ++ back) n := by
                intro back
                rw [Item.bounded_eq_of_le (Nat.le_refl length)]
                exact measured back
              exact follows_body pays .ext (show bound.maxDepth = limits.maxDepth from rfl) found rest
          | str => exact follows_fixed pays .str measured rest
          | bin => exact follows_fixed pays .bin measured rest
          | array => exact follows_fixed pays .array measured rest
          | map => exact follows_fixed pays .map measured rest
      | sized family size =>
          rw [announced] at measured
          by_cases less : rest.length < size
          · have short := (Reader.number_takes size).short rest less
            simp only [Shape.survey, Shape.read, andThen, short]
            refine .short (walk_short ?_)
            rw [measured, Shape.measure, Item.sized, short]
          · obtain ⟨header, back, rfl, rfl⟩ : ∃ header back, rest = header ++ back ∧ header.length = size :=
              ⟨rest.take size, rest.drop size, (List.take_append_drop _ _).symm,
                List.length_take_of_le (Nat.not_lt.mp less)⟩
            have counted : ∀ back, Reader.number header.length (header ++ back) = .ok (Bytes.toNat header, back) :=
              fun back => (Reader.number_accepts _ _ _ _).mpr ⟨header, rfl, rfl, rfl⟩
            simp only [Shape.survey, Shape.read, andThen, counted]
            refine follows_body pays family rfl (fun back => ?_) back
            rw [measured, Shape.measure, Item.sized, counted]
      | reserved =>
          rw [announced] at measured
          exact .refused fun position => walk_refused (measured rest)

end

variable {limits : Limits}

/-- Measuring goes the way of surveying. -/
theorem survey_follows {levels : Nat} {outer : List Nat} (room : outer.length + levels = limits.maxDepth)
    (owed : Nat) (bytes : Bytes) :
    Follows limits ((owed + 1) :: outer) (owed :: outer) bytes (survey limits levels bytes) := by
  induction levels generalizing outer owed bytes with
  | zero => exact surveyItem_follows (.none (by omega)) owed bytes
  | succ levels ih =>
      refine surveyItem_follows (.some (by omega) fun owed inside bytes => ?_) owed bytes
      exact ih (by rw [List.length_cons]; omega) inside bytes

variable {bytes rest : Bytes} {v : Packed} {e : FormatError}

theorem start_follows (limits : Limits) (bytes : Bytes) :
    Follows limits [1] [0] bytes (survey limits limits.maxDepth bytes) :=
  survey_follows (Nat.zero_add _) 0 bytes

/-- What is surveyed is measured, whatever follows it. -/
theorem scan_of_survey (h : survey limits limits.maxDepth bytes = .ok (v, rest)) :
    ∃ front, bytes = front ++ rest ∧ ∀ more, start.scan limits (front ++ more) = .complete front.length := by
  have follows := start_follows limits bytes
  rw [h] at follows
  cases follows with
  | @read v front rest split steps =>
      refine ⟨front, split, fun more => ?_⟩
      have measured := steps 0 more
      rwa [walk_paid, walk, Nat.zero_add] at measured

theorem scan_of_short (h : survey limits limits.maxDepth bytes = .error .short) :
    ∃ s, start.scan limits bytes = .more s := by
  have follows := start_follows limits bytes
  rw [h] at follows
  cases follows with
  | short stops => exact stops 0

theorem scan_of_refused (h : survey limits limits.maxDepth bytes = .error (.refused e)) :
    start.scan limits bytes = .refused e := by
  have follows := start_follows limits bytes
  rw [h] at follows
  cases follows with
  | refused stops => exact stops 0

end Scanner

namespace Packed

variable {limits : Limits} {bytes rest : Bytes} {v w : Packed} {e : FormatError}

/-- A front that is stepped over is read as it is with more bytes behind it. -/
theorem ofBytes_front {front : Bytes} (measured : Scanner.start.scan limits front = .complete front.length)
    (rest : Bytes) :
    (∀ v, parse limits limits.maxDepth (front ++ rest) = .ok (v, rest) → ofBytes limits front = .ok v) ∧
      ∀ e, parse limits limits.maxDepth (front ++ rest) = .error (.refused e) → ofBytes limits front = .error e := by
  constructor
  · intro v read
    obtain ⟨again, same, spells⟩ := (parse_accepts _ _ _ _ _).mp read
    rw [List.append_cancel_right same]
    exact ofBytes_eq_ok.mpr spells
  · intro e refused
    cases read : parse limits limits.maxDepth front with
    | ok r =>
        obtain ⟨again, split, spells⟩ := (parse_accepts _ _ _ _ _).mp read
        have whole := (parse_accepts limits _ (front ++ rest) r.1 (r.2 ++ rest)).mpr
          ⟨again, by rw [split, List.append_assoc], spells⟩
        rw [whole] at refused
        cases refused
    | error stop =>
        cases stop with
        | refused e' =>
            have whole := parse_refused read rest
            rw [refused] at whole
            cases whole
            rw [ofBytes, read]
        | short =>
            -- Surveying would have stopped as well, and measuring with it.
            rcases parse_eq_survey_or limits limits.maxDepth front with same | ⟨stop, ⟨⟩, found⟩
            · rw [read] at same
              obtain ⟨s, more⟩ := Scanner.scan_of_short same.symm
              rw [measured] at more
              cases more
            · rw [read] at found
              cases found

def answer (limits : Limits) (bytes : Bytes) :
    Except Stop (Packed × Bytes) → Except FormatError (Option Packed) × Bytes
  | .ok (v, rest) => (.ok (some v), rest)
  | .error .short =>
    (if bytes.length > limits.maxSize then .error (.tooLarge bytes.length limits.maxSize) else .ok none, bytes)
  | .error (.refused e) => (.error e, bytes)

def surveyed (limits : Limits) (bytes : Bytes) : Except Stop (Packed × Bytes) :=
  match survey limits limits.maxDepth bytes with
  | .ok _ => parse limits limits.maxDepth bytes
  | .error stop => .error stop

theorem decodeFirst_of_more {s : Scanner} (measured : Scanner.start.scan limits bytes = .more s) :
    decodeFirst limits bytes = answer limits bytes (.error .short) := by
  rw [decodeFirst, Buffer.next, Buffer.ofBytes, measured, answer]
  dsimp only
  split <;> rfl

theorem surveyed_eq_parse_or (limits : Limits) (bytes : Bytes) :
    surveyed limits bytes = parse limits limits.maxDepth bytes ∨
      ∃ stop, Overlooked limits stop ∧ parse limits limits.maxDepth bytes = .error stop := by
  refine (parse_eq_survey_or limits limits.maxDepth bytes).imp_left fun same => ?_
  rw [surveyed, same]
  cases survey limits limits.maxDepth bytes <;> rfl

/-- A buffer is surveyed, and then read. -/
theorem decodeFirst_eq_answer (limits : Limits) (bytes : Bytes) :
    decodeFirst limits bytes = answer limits bytes (surveyed limits bytes) := by
  rw [surveyed]
  cases found : survey limits limits.maxDepth bytes with
  | error stop =>
      cases stop with
      | short =>
          obtain ⟨s, measured⟩ := Scanner.scan_of_short found
          exact decodeFirst_of_more measured
      | refused e =>
          have measured := Scanner.scan_of_refused found
          simp only [decodeFirst, Buffer.next, Buffer.ofBytes, measured, answer]
  | ok r =>
      obtain ⟨v, rest⟩ := r
      obtain ⟨front, rfl, measured⟩ := Scanner.scan_of_survey found
      have alone := measured []
      rw [List.append_nil] at alone
      obtain ⟨read_front, refused_front⟩ := ofBytes_front alone rest
      simp only [decodeFirst, Buffer.next, Buffer.ofBytes, measured, List.take_left, List.drop_left]
      rcases parse_eq_survey_or limits limits.maxDepth (front ++ rest) with same | ⟨stop, reason, refused⟩
      · rw [found] at same
        rw [read_front v same, same, answer]
      · cases reason with
        | small_extension announced large =>
            rw [refused_front _ refused, refused, answer]

/-- A buffer is refused exactly when reading it refuses it, or waits for more bytes than the limit admits; and
if reading refuses it, then for the reason that reading gives. -/
structure RefusedAsRead (limits : Limits) (bytes : Bytes) : Prop where
  refused_iff : (∃ e, (decodeFirst limits bytes).1 = .error e) ↔
    (∃ e, parse limits limits.maxDepth bytes = .error (.refused e)) ∨
      parse limits limits.maxDepth bytes = .error .short ∧ limits.maxSize < bytes.length
  reason : ∀ e, parse limits limits.maxDepth bytes = .error (.refused e) →
    (decodeFirst limits bytes).1 = .error e

theorem refusedAsRead_of_surveyed (same : surveyed limits bytes = parse limits limits.maxDepth bytes) :
    RefusedAsRead limits bytes := by
  have verdict := decodeFirst_eq_answer limits bytes
  rw [same] at verdict
  cases read : parse limits limits.maxDepth bytes with
  | ok r =>
      rw [read] at verdict
      refine ⟨?_, fun e refused => ?_⟩
      · rw [verdict, read]
        simp [answer]
      · rw [read] at refused
        cases refused
  | error stop =>
      rw [read] at verdict
      cases stop with
      | short =>
          refine ⟨?_, fun e refused => ?_⟩
          · rw [verdict, read]
            by_cases large : bytes.length > limits.maxSize
            · simp [answer, large]
            · simp [answer, large]
          · rw [read] at refused
            cases refused
      | refused e =>
          refine ⟨?_, fun e' refused => ?_⟩
          · rw [verdict, read]
            simp [answer]
          · rw [read] at refused
            cases refused
            rw [verdict, answer]

theorem overlooked_longest (small : limits.maxSize < 16) : ¬RefusedAsRead limits [0xd8] := by
  have refused : parse limits limits.maxDepth [0xd8] = .error (.refused (.tooLarge 16 limits.maxSize)) := by
    rw [parse_eq_item, item_eq_read, show shape 0xd8 = .fixed .ext 16 from rfl]
    simp only [Shape.read, Family.body, extBody, checked]
    rw [if_pos small]
  have waits : Item.skip limits 0xd8 [] = .error .short := rfl
  intro same
  have given := same.reason _ refused
  obtain ⟨s, measured⟩ : ∃ s, Scanner.start.scan limits [0xd8] = .more s := Scanner.walk_short waits 0
  rw [decodeFirst_of_more measured, answer] at given
  dsimp only at given
  split at given <;> cases given

/-- Buffers are refused as reading refuses them, under all limits that admit every small extension and under
no others. Under any limits a buffer is answered as surveying and then reading it says, and that is as reading
alone says unless reading stops at a small extension. -/
theorem refused_as_read (limits : Limits) :
    ((∀ bytes, RefusedAsRead limits bytes) ↔ 16 ≤ limits.maxSize) ∧
      ∀ bytes, decodeFirst limits bytes = answer limits bytes (surveyed limits bytes) ∧
        (RefusedAsRead limits bytes ∧ surveyed limits bytes = parse limits limits.maxDepth bytes ∨
          ∃ stop, Overlooked limits stop ∧ parse limits limits.maxDepth bytes = .error stop) := by
  constructor
  · constructor
    · intro same
      exact Nat.not_lt.mp fun small => overlooked_longest small (same _)
    · intro large bytes
      rcases surveyed_eq_parse_or limits bytes with same | ⟨stop, reason, -⟩
      · exact refusedAsRead_of_surveyed same
      · exact absurd reason (not_overlooked large)
  · intro bytes
    refine ⟨decodeFirst_eq_answer limits bytes, ?_⟩
    exact (surveyed_eq_parse_or limits bytes).imp_left fun same => ⟨refusedAsRead_of_surveyed same, same⟩

/-- The header of an extension of eight bytes, where three are allowed, is waited on. -/
theorem small_extension_awaited :
    parse ⟨3, 64⟩ 64 [0xd7, 0x00] = .error (.refused (.tooLarge 8 3)) ∧
      decodeFirst ⟨3, 64⟩ [0xd7, 0x00] = (.ok none, [0xd7, 0x00]) ∧ ¬RefusedAsRead ⟨3, 64⟩ [0xd7, 0x00] := by
  have refused : parse ⟨3, 64⟩ 64 [0xd7, 0x00] = .error (.refused (.tooLarge 8 3)) := by rfl
  have awaited : decodeFirst ⟨3, 64⟩ [0xd7, 0x00] = (.ok none, [0xd7, 0x00]) := by cbv
  refine ⟨refused, awaited, fun same => ?_⟩
  have given := same.reason _ refused
  rw [awaited] at given
  cases given

end Packed

end PackRpc
