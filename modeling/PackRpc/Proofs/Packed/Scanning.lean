import PackRpc.Packed.Scanner
import PackRpc.Proofs.Packed.Spelling
/-!
# Measuring and reading

Measuring goes on from where it stopped as if all bytes had been there at once (`walk_more`), and it steps
over exactly what the reader accepts (`walk_spells`). So a buffer that is filled in pieces answers as one
that is read from the start.
-/
namespace PackRpc

namespace Item

theorem payload_eq_of_le {header size : Nat} {rest : Bytes} (h : header ≤ rest.length) :
    payload header size rest =
      if header + size ≤ rest.length then .ok (.scalar, header + size) else .error .short := by
  unfold payload
  rw [List.length_take, List.length_drop]
  by_cases enough : header + size ≤ rest.length
  · rw [if_pos enough, if_pos (by omega)]
  · rw [if_neg enough, if_neg (by omega)]

theorem bounded_eq_of_le {limits : Limits} {length : Nat} {next : Nat → Except Stop (Item × Nat)}
    (h : length ≤ limits.maxSize) : bounded limits length next = next length :=
  if_neg (Nat.not_lt.mpr h)

/-- Measuring that stops for any other reason than want of bytes stays within the bytes and is not
changed by more of them. -/
def Steady (measure : Bytes → Except Stop (Item × Nat)) (rest : Bytes) : Prop :=
  measure rest ≠ .error .short →
    (∀ more, measure (rest ++ more) = measure rest) ∧
      ∀ item size, measure rest = .ok (item, size) → size ≤ rest.length

theorem payload_steady {header : Nat} (size : Nat) {rest : Bytes} (h : header ≤ rest.length) :
    Steady (payload header size) rest := by
  intro settled
  have longer : ∀ more : Bytes, header ≤ (rest ++ more).length := fun more => by
    rw [List.length_append]; omega
  rw [payload_eq_of_le h] at settled
  by_cases enough : header + size ≤ rest.length
  · refine ⟨fun more => ?_, fun item n found => ?_⟩
    · rw [payload_eq_of_le h, payload_eq_of_le (longer more), if_pos enough, if_pos]
      rw [List.length_append]
      omega
    · rw [payload_eq_of_le h, if_pos enough] at found
      cases found
      exact enough
  · rw [if_neg enough] at settled
    exact absurd rfl settled

theorem bounded_steady {limits : Limits} {length : Nat} {next : Bytes → Nat → Except Stop (Item × Nat)}
    {rest : Bytes} (h : Steady (fun rest => next rest length) rest) :
    Steady (fun rest => bounded limits length (next rest)) rest := by
  unfold bounded
  split
  · exact fun _ => ⟨fun _ => rfl, fun item size found => by cases found⟩
  · exact h

theorem sized_steady {limits : Limits} {header : Nat} {next : Bytes → Nat → Except Stop (Item × Nat)}
    {rest : Bytes} (h : ∀ length, header ≤ rest.length → Steady (fun rest => next rest length) rest) :
    Steady (fun rest => sized limits header rest (next rest)) rest := by
  intro settled
  cases read : Reader.number header rest with
  | error e =>
      simp only [sized, read] at settled ⊢
      have short : e = .short := by
        simp only [Reader.number, Reader.take] at read
        cases split : rest.split? header with
        | none => rw [split] at read; cases read; rfl
        | some parts => rw [split] at read; cases read
      exact absurd (by rw [short]) settled
  | ok r =>
      obtain ⟨length, back⟩ := r
      obtain ⟨front, rfl, size, value⟩ := (Reader.number_accepts _ _ _ _).mp read
      have again : ∀ more, Reader.number header (front ++ back ++ more) = .ok (length, back ++ more) :=
        fun more => (Reader.number_accepts _ _ _ _).mpr
          ⟨front, by rw [List.append_assoc], size, value⟩
      simp only [sized, read, again] at settled ⊢
      exact bounded_steady (h length (by rw [List.length_append]; omega)) settled

theorem step_steady {header : Nat} {rest : Bytes} (h : header ≤ rest.length) (family : Packed.Family)
    (length : Nat) : Steady (fun rest => family.step header rest length) rest := by
  cases family with
  | str | bin => exact payload_steady length h
  | ext => exact payload_steady (length + 1) h
  | array | map =>
      refine fun _ => ⟨fun _ => rfl, fun item size found => ?_⟩
      cases found
      exact h

theorem skip_steady (limits : Limits) (marker : UInt8) (rest : Bytes) :
    Steady (skip limits marker) rest := by
  rw [show skip limits marker = fun rest => (Packed.shape marker).measure limits rest from
    funext (Packed.skip_eq_measure limits marker)]
  have immediate (r : Except Stop (Item × Nat)) (h : ∀ item size, r = .ok (item, size) → size = 0) :
      Steady (fun _ => r) rest :=
    fun _ => ⟨fun _ => rfl, fun item size found => by rw [h item size found]; exact Nat.zero_le _⟩
  cases Packed.shape marker with
  | value v => exact immediate _ fun item size found => by cases found; rfl
  | number size spelled => exact payload_steady size (Nat.zero_le _)
  | fixed family length =>
      have inside : Steady (fun rest => family.step 0 rest length) rest :=
        step_steady (Nat.zero_le _) family length
      cases family with
      | ext => exact inside
      | str | bin | array | map => exact bounded_steady inside
  | sized family header => exact sized_steady fun length h => step_steady h family length
  | reserved => exact immediate _ fun item size found => by cases found

/-- What is stepped over, and that nothing behind it matters. -/
theorem skip_eq_ok {limits : Limits} {marker : UInt8} {tail : Bytes} {item : Item} {size : Nat}
    (h : skip limits marker tail = .ok (item, size)) :
    ∃ front back, tail = front ++ back ∧ front.length = size ∧
      ∀ more, skip limits marker (front ++ (back ++ more)) = .ok (item, size) := by
  obtain ⟨same, within⟩ := skip_steady limits marker tail (by rw [h]; exact fun e => by cases e)
  refine ⟨tail.take size, tail.drop size, (List.take_append_drop size tail).symm,
    List.length_take_of_le (within item size h), fun more => ?_⟩
  rw [← List.append_assoc, List.take_append_drop, same, h]

theorem skip_refused {limits : Limits} {marker : UInt8} {tail : Bytes} {e : FormatError}
    (h : skip limits marker tail = .error (.refused e)) (more : Bytes) :
    skip limits marker (tail ++ more) = .error (.refused e) := by
  rw [(skip_steady limits marker tail (by rw [h]; exact fun e => by cases e)).1 more, h]

end Item

namespace Scanner

section
variable {limits : Limits} {position owed : Nat} {outer : List Nat} {marker : UInt8} {front rest : Bytes}

theorem walk_paid : walk limits position (0 :: outer) rest = walk limits position outer rest := by
  rw [walk]

theorem walk_scalar (h : Item.skip limits marker (front ++ rest) = .ok (.scalar, front.length)) :
    walk limits position ((owed + 1) :: outer) (marker :: (front ++ rest)) =
      walk limits (position + 1 + front.length) (owed :: outer) rest := by
  rw [walk, h]
  simp only [List.drop_left]

theorem walk_container {count : Nat} (room : outer.length < limits.maxDepth)
    (h : Item.skip limits marker (front ++ rest) = .ok (.container count, front.length)) :
    walk limits position ((owed + 1) :: outer) (marker :: (front ++ rest)) =
      walk limits (position + 1 + front.length) (count :: owed :: outer) rest := by
  rw [walk, h]
  simp only [List.drop_left]
  rw [if_neg (Nat.not_le.mpr room)]

theorem walk_too_deep {count size : Nat} (full : outer.length ≥ limits.maxDepth)
    (h : Item.skip limits marker rest = .ok (.container count, size)) :
    walk limits position ((owed + 1) :: outer) (marker :: rest) =
      .refused (.tooDeep limits.maxDepth) := by
  rw [walk, h]
  simp only
  rw [if_pos full]

theorem walk_refused {e : FormatError} (h : Item.skip limits marker rest = .error (.refused e)) :
    walk limits position ((owed + 1) :: outer) (marker :: rest) = .refused e := by
  rw [walk, h]

end

variable {limits : Limits} {position : Nat} {pending : List Nat} {rest : Bytes}

/-- Stopping for want of bytes keeps all that is needed to go on when there are more. -/
theorem walk_more {s : Scanner} (h : walk limits position pending rest = .more s) :
    ∃ used left, rest = used ++ left ∧ s.position = position + used.length ∧
      ∀ more, walk limits position pending (rest ++ more) =
        walk limits s.position s.pending (left ++ more) := by
  fun_induction walk limits position pending rest with
  | case1 position rest => cases h
  | case2 position rest outer ih =>
      obtain ⟨used, left, rfl, place, on⟩ := ih h
      exact ⟨used, left, rfl, place, fun more => by rw [walk_paid, on]⟩
  | case3 position owed outer =>
      cases h
      exact ⟨[], [], rfl, rfl, fun more => rfl⟩
  | case4 position owed outer marker tail short =>
      cases h
      exact ⟨[], marker :: tail, rfl, rfl, fun more => rfl⟩
  | case5 position owed outer marker tail e refused => cases h
  | case6 position owed outer marker tail size found ih =>
      obtain ⟨front, back, rfl, rfl, again⟩ := Item.skip_eq_ok found
      rw [List.drop_left] at ih h
      obtain ⟨used, left, rfl, place, on⟩ := ih h
      refine ⟨marker :: (front ++ used), left, by simp, ?_, fun more => ?_⟩
      · rw [place, List.length_cons, List.length_append]
        omega
      · rw [← on more, ← walk_scalar (again more), List.cons_append, List.append_assoc]
  | case7 position owed outer marker tail count size found full => cases h
  | case8 position owed outer marker tail count size found room ih =>
      obtain ⟨front, back, rfl, rfl, again⟩ := Item.skip_eq_ok found
      rw [List.drop_left] at ih h
      obtain ⟨used, left, rfl, place, on⟩ := ih h
      refine ⟨marker :: (front ++ used), left, by simp, ?_, fun more => ?_⟩
      · rw [place, List.length_cons, List.length_append]
        omega
      · rw [← on more, ← walk_container (Nat.not_le.mp room) (again more), List.cons_append,
          List.append_assoc]

theorem walk_final (h : ∀ s, walk limits position pending rest ≠ .more s) (more : Bytes) :
    walk limits position pending (rest ++ more) = walk limits position pending rest := by
  fun_induction walk limits position pending rest with
  | case1 position rest => rw [walk]
  | case2 position rest outer ih => rw [walk_paid, ih h]
  | case3 position owed outer => exact absurd rfl (h _)
  | case4 position owed outer marker tail short => exact absurd rfl (h _)
  | case5 position owed outer marker tail e refused =>
      exact walk_refused (Item.skip_refused refused more)
  | case6 position owed outer marker tail size found ih =>
      obtain ⟨front, back, rfl, rfl, again⟩ := Item.skip_eq_ok found
      rw [List.drop_left] at ih h ⊢
      rw [← ih h, ← walk_scalar (again more), List.cons_append, List.append_assoc]
  | case7 position owed outer marker tail count size found full =>
      obtain ⟨front, back, rfl, rfl, again⟩ := Item.skip_eq_ok found
      rw [List.cons_append, List.append_assoc]
      exact walk_too_deep full (again more)
  | case8 position owed outer marker tail count size found room ih =>
      obtain ⟨front, back, rfl, rfl, again⟩ := Item.skip_eq_ok found
      rw [List.drop_left] at ih h ⊢
      rw [← ih h, ← walk_container (Nat.not_le.mp room) (again more), List.cons_append,
        List.append_assoc]

/-- What is measured lies within the bytes. -/
theorem walk_complete {size : Nat} (h : walk limits position pending rest = .complete size) :
    size ≤ position + rest.length := by
  fun_induction walk limits position pending rest with
  | case1 position rest =>
      cases h
      exact Nat.le_add_right _ _
  | case2 position rest outer ih => exact ih h
  | case3 position owed outer => cases h
  | case4 position owed outer marker tail short => cases h
  | case5 position owed outer marker tail e refused => cases h
  | case6 position owed outer marker tail n found ih =>
      obtain ⟨front, back, rfl, rfl, -⟩ := Item.skip_eq_ok found
      have inside := ih h
      simp only [List.drop_left, List.length_cons, List.length_append] at inside ⊢
      omega
  | case7 position owed outer marker tail count n found full => cases h
  | case8 position owed outer marker tail count n found room ih =>
      obtain ⟨front, back, rfl, rfl, -⟩ := Item.skip_eq_ok found
      have inside := ih h
      simp only [List.drop_left, List.length_cons, List.length_append] at inside ⊢
      omega

open Packed (Announces Content Family Layer Spells shape)
open Reader (Series Pair)

theorem measure_announces {family : Family} {front : Bytes} {length : Nat}
    (h : Announces family front length) (small : length ≤ limits.maxSize) :
    ∃ marker header, front = marker :: header ∧ ∀ back,
      Item.skip limits marker (header ++ back) = family.step header.length (header ++ back) length := by
  cases h with
  | @fixed marker length announced =>
      refine ⟨marker, [], rfl, fun back => ?_⟩
      rw [Packed.skip_eq_measure, announced]
      cases family with
      | ext => rfl
      | str | bin | array | map => exact Item.bounded_eq_of_le small
  | @sized marker header announced =>
      refine ⟨marker, header, rfl, fun back => ?_⟩
      have read : Reader.number header.length (header ++ back) = .ok (Bytes.toNat header, back) :=
        (Reader.number_accepts _ _ _ _).mpr ⟨header, rfl, rfl, rfl⟩
      rw [Packed.skip_eq_measure, announced, Packed.Shape.measure, Item.sized, read]
      exact Item.bounded_eq_of_le small

section
variable {owed : Nat} {outer : List Nat}

theorem walk_payload {marker : UInt8} {header data : Bytes} {size : Nat} (h : data.length = size)
    (found : Item.skip limits marker (header ++ (data ++ rest)) =
      Item.payload header.length size (header ++ (data ++ rest))) :
    walk limits position ((owed + 1) :: outer) (marker :: header ++ data ++ rest) =
      walk limits (position + (marker :: header ++ data).length) (owed :: outer) rest := by
  have size : header.length + size ≤ (header ++ (data ++ rest)).length := by
    simp only [List.length_append]
    omega
  rw [Item.payload_eq_of_le (by omega), if_pos size, ← List.append_assoc, ← h, ← List.length_append]
    at found
  rw [List.append_assoc, List.cons_append, ← List.append_assoc, walk_scalar found, List.cons_append,
    List.length_cons, Nat.add_assoc, Nat.add_comm 1]

/-- A series of as many values as are owed is stepped over if each of its values is. -/
theorem walk_series {form : Packed → Bytes → Prop} {items : List Packed} {bytes : Bytes}
    (h : Series form items bytes)
    (step : ∀ v front, form v front → ∀ position owed rest,
      walk limits position ((owed + 1) :: outer) (front ++ rest) =
        walk limits (position + front.length) (owed :: outer) rest) (position : Nat) (rest : Bytes) :
    walk limits position (items.length :: outer) (bytes ++ rest) =
      walk limits (position + bytes.length) outer rest := by
  induction h generalizing position with
  | nil => exact walk_paid
  | cons first others ih =>
      rw [List.length_cons, List.append_assoc, step _ _ first, ih, List.length_append, Nat.add_assoc]

theorem walk_parts {form : Packed → Bytes → Prop} {items : List Packed} {front bytes : Bytes}
    {marker : UInt8} {header : Bytes} {count : Nat} (h : Series form items bytes)
    (announced : front = marker :: header) (size : items.length = count)
    (found : Item.skip limits marker (header ++ (bytes ++ rest)) =
      .ok (.container count, header.length)) (room : outer.length < limits.maxDepth)
    (step : ∀ v front, form v front → ∀ position inside rest,
      walk limits position ((inside + 1) :: owed :: outer) (front ++ rest) =
        walk limits (position + front.length) (inside :: owed :: outer) rest) :
    walk limits position ((owed + 1) :: outer) (front ++ bytes ++ rest) =
      walk limits (position + (front ++ bytes).length) (owed :: outer) rest := by
  subst announced size
  have place : position + 1 + header.length + bytes.length =
      position + (header.length + 1 + bytes.length) := by omega
  rw [List.append_assoc, List.cons_append, walk_container room found, walk_series h step,
    List.length_append, List.length_cons, place]

theorem walk_layer {inner : Option (Packed → Bytes → Prop)} {v : Packed} {front : Bytes}
    (h : Layer limits inner v front)
    (step : ∀ form, inner = some form → outer.length < limits.maxDepth ∧
      ∀ v front, form v front → ∀ position inside rest,
        walk limits position ((inside + 1) :: owed :: outer) (front ++ rest) =
          walk limits (position + front.length) (inside :: owed :: outer) rest) :
    walk limits position ((owed + 1) :: outer) (front ++ rest) =
      walk limits (position + front.length) (owed :: outer) rest := by
  cases h with
  | @value marker v announced =>
      have found : Item.skip limits marker ([] ++ rest) = .ok (.scalar, 0) := by
        rw [Packed.skip_eq_measure, announced, Packed.Shape.measure]
      exact walk_scalar found
  | @number marker size spelled data announced length =>
      have found : Item.skip limits marker ([] ++ (data ++ rest)) =
          Item.payload 0 size ([] ++ (data ++ rest)) := by
        rw [Packed.skip_eq_measure, announced, Packed.Shape.measure]
      exact walk_payload length found
  | @content family front length v back announces content =>
      cases content with
      | str small | bin small =>
          obtain ⟨marker, header, rfl, found⟩ := measure_announces announces small
          exact walk_payload rfl (found _)
      | ext small =>
          obtain ⟨marker, header, rfl, found⟩ := measure_announces announces small
          exact walk_payload rfl (found _)
      | array some small series =>
          obtain ⟨marker, header, announced, found⟩ := measure_announces announces small
          obtain ⟨room, inside⟩ := step _ some
          exact walk_parts series announced rfl (found _) room inside
      | map some small series =>
          obtain ⟨marker, header, announced, found⟩ := measure_announces announces small
          obtain ⟨room, inside⟩ := step _ some
          have twice : ∀ entries : List (Packed × Packed),
              (entries.flatMap fun e => [e.1, e.2]).length = 2 * entries.length := by
            intro entries
            simp [List.length_flatMap, List.map_const', Nat.mul_comm]
          exact walk_parts series.flatten announced (twice _) (found _) room inside

end

/-- Measuring steps over every spelling of a value. -/
theorem walk_spells {levels : Nat} {v : Packed} {front : Bytes} (h : Spells limits levels v front)
    {outer : List Nat} (room : outer.length + levels = limits.maxDepth) (position owed : Nat)
    (rest : Bytes) :
    walk limits position ((owed + 1) :: outer) (front ++ rest) =
      walk limits (position + front.length) (owed :: outer) rest := by
  induction levels generalizing v front outer position owed rest with
  | zero => exact walk_layer h fun form some => by cases some
  | succ levels ih =>
      refine walk_layer h fun form some => ?_
      cases some
      exact ⟨by omega, fun v front part position inside rest =>
        ih part (by rw [List.length_cons]; omega) position inside rest⟩

theorem scan_more {s : Scanner} {bytes : Bytes} (h : start.scan limits bytes = .more s) (more : Bytes) :
    start.scan limits (bytes ++ more) = s.scan limits (bytes ++ more) := by
  rw [scan, start, List.drop_zero] at h
  obtain ⟨used, left, split, place, on⟩ := walk_more h
  rw [Nat.zero_add] at place
  rw [scan, scan, start, List.drop_zero, on more]
  simp only [split, place, List.append_assoc, List.drop_left]

theorem scan_final {bytes : Bytes} (h : ∀ s, start.scan limits bytes ≠ .more s) (more : Bytes) :
    start.scan limits (bytes ++ more) = start.scan limits bytes := by
  simp only [scan, start, List.drop_zero] at h ⊢
  exact walk_final h more

theorem scan_complete {bytes : Bytes} {size : Nat} (h : start.scan limits bytes = .complete size) :
    size ≤ bytes.length := by
  have inside := walk_complete h
  rwa [start, List.drop_zero, Nat.zero_add] at inside

/-- Measuring a buffer that begins with a spelling finds the end of that spelling. -/
theorem scan_spells {v : Packed} {front : Bytes} (h : Spells limits limits.maxDepth v front)
    (rest : Bytes) : start.scan limits (front ++ rest) = .complete front.length := by
  have room : ([] : List Nat).length + limits.maxDepth = limits.maxDepth := Nat.zero_add _
  have stepped := walk_spells h room 0 0 rest
  simp only [Nat.zero_add, walk_paid] at stepped
  rw [scan, start, List.drop_zero, stepped, walk]

end Scanner

end PackRpc
