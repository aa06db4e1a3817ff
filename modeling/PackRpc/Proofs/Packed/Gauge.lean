import PackRpc.Proofs.Packed.Begun
import PackRpc.Proofs.Packed.Cursor
/-!
# Measuring by positions

A scanner that keeps a position in a buffer and a stack of counts takes differences of both and slices the
buffer. A difference below zero or a slice outside the buffer would stop it, and it could go round forever.
Written down in that way, it does none of these, and it finds what the scanner finds that takes bytes off the
front. The position is always between two items of one value, and the stack holds what is owed there.
-/
namespace PackRpc.Packed

/-- A position in a buffer and, innermost last, how many items each open container still owes there. The first
count is that of the value itself. -/
structure Gauge where
  position : Nat
  pending : Array Nat

namespace Gauge
open Cursor (Step outcome outcome_ok outcome_error minus slice take byte number checkLength)

/-- Twice a count, or the greatest number of eight bytes if that is less. -/
def twice (count : Nat) : Nat := min (2 * count) (2 ^ 64 - 1)

section
variable (limits : Limits) (buffer : Bytes)

def payload (count : Nat) : Step Item := do
  let _ ← take buffer count
  return .scalar

def content (family : Family) (length : Nat) : Step Item := do
  let length ← checkLength limits length
  match family with
  | .str | .bin => payload buffer length
  | .ext => payload buffer (length + 1)
  | .array => return .container length
  | .map => return .container (twice length)

def announced : Shape → Step Item
  | .value _ => payload buffer 0
  | .number size _ => payload buffer size
  -- The length of a small extension is not checked.
  | .fixed .ext length => payload buffer (length + 1)
  | .fixed family length => content limits buffer family length
  | .sized family header => do content limits buffer family (← number buffer header)
  | .reserved => throw (.refused (.malformed .reservedMarker))

/-- Steps over one scalar, or over the header of a container. -/
def skipItem : Step Item := do
  announced limits buffer (shape (← byte buffer))

def payOne (pending : Array Nat) : Option (Array Nat) :=
  match pending.back? with
  | none => some pending
  | some owed => (minus owed 1).map pending.pop.push

/-- What comes of one round: the next gauge, or what was found. -/
inductive Turn where
  | again (gauge : Gauge)
  | found (result : Except FormatError (Option Nat))

def turn (g : Gauge) : Option Turn :=
  match g.pending.back? with
  | none => return .found (.ok (some g.position))
  | some 0 => return .again { g with pending := g.pending.pop }
  | some (_ + 1) => do
    match ← outcome (skipItem limits buffer) g.position with
    | .error .short => return .found (.ok none)
    | .error (.refused e) => return .found (.error e)
    | .ok (.scalar, position) => return .again ⟨position, ← payOne g.pending⟩
    | .ok (.container count, position) =>
      if (← minus g.pending.size 1) ≥ limits.maxDepth then
        return .found (.error (.tooDeep limits.maxDepth))
      else
        return .again ⟨position, (← payOne g.pending).push count⟩

/-- Goes round until the end of the value is found, or that more bytes are needed. Nothing comes of it if it
takes more than so many rounds. -/
def rounds : (limit : Nat) → Gauge → Option (Except FormatError (Option Nat) × Gauge)
  | 0, _ => none
  | limit + 1, g => do
    match ← turn limits buffer g with
    | .again g => rounds limit g
    | .found found => return (found, g)

end

def fresh : Gauge := ⟨0, #[]⟩

/-- A gauge that has not been used is about to measure one value. -/
def opened (g : Gauge) : Gauge :=
  if g.position = 0 ∧ g.pending.isEmpty then { g with pending := g.pending.push 1 } else g

/-- Goes on measuring. A scan is given two rounds for each byte of the buffer and two more. -/
def scan (limits : Limits) (buffer : Bytes) (g : Gauge) : Option (Except FormatError (Option Nat) × Gauge) :=
  rounds limits buffer (2 * buffer.length + 2) g.opened

def next (limits : Limits) (buffer : Bytes) (g : Gauge) :
    Option (Except FormatError (Option Packed) × Bytes × Gauge) := do
  match ← scan limits buffer g with
  | (.ok (some size), _) =>
    match ← Cursor.ofBytes limits (← slice buffer 0 size) with
    | .ok v => return (.ok (some v), ← slice buffer size buffer.length, fresh)
    | .error e => return (.error e, buffer, fresh)
  | (.ok none, g) =>
    if buffer.length > limits.maxSize then
      return (.error (.tooLarge buffer.length limits.maxSize), buffer, fresh)
    else
      return (.ok none, buffer, g)
  | (.error e, _) => return (.error e, buffer, fresh)

/-! ## Steps -/

def told (place : Nat) (found : Except Stop (Item × Nat)) : Except Stop (Item × Nat) :=
  found.map fun r => (r.1, place + r.2)

section
variable {limits : Limits} {count length : Nat}

theorem payload_outcome (front header back : Bytes) (count : Nat) :
    outcome (payload (front ++ (header ++ back)) count) (front.length + header.length) =
      some (told front.length (Item.payload header.length count (header ++ back))) := by
  have inside : front.length + header.length ≤ (front ++ (header ++ back)).length := by simp
  have size : (front ++ (header ++ back)).length = front.length + (header ++ back).length := List.length_append
  have taken := Cursor.outcome_take inside count
  rw [payload, Item.payload_eq_of_le (by simp)]
  rw [size, Nat.add_assoc] at taken
  by_cases enough : header.length + count ≤ (header ++ back).length
  · rw [if_pos enough]
    rw [if_pos (by omega)] at taken
    rw [outcome_ok taken]
    rfl
  · rw [if_neg enough]
    rw [if_neg (by omega)] at taken
    rw [outcome_error taken]
    rfl

theorem twice_eq (small : count < 2 ^ 32) : twice count = 2 * count :=
  Nat.min_eq_left (by omega)

theorem content_outcome (limits : Limits) (family : Family) (small : length < 2 ^ 32) (front header back : Bytes) :
    outcome (content limits (front ++ (header ++ back)) family length) (front.length + header.length) =
      some (told front.length
        (Item.bounded limits length fun n => family.step header.length (header ++ back) n)) := by
  rw [content, checkLength, Item.bounded]
  split_ifs
  · rfl
  · cases family with
    | str | bin => exact payload_outcome front header back length
    | ext => exact payload_outcome front header back (length + 1)
    | array => rfl
    | map =>
        show some (Except.ok (Item.container (twice length), _)) = _
        rw [twice_eq small]
        rfl

theorem announced_outcome {marker : UInt8} {shape : Shape} (announces : Packed.shape marker = shape)
    (front rest : Bytes) :
    outcome (announced limits (front ++ rest) shape) front.length =
      some (told front.length (shape.measure limits rest)) := by
  cases shape with
  | value v =>
      have nothing : Item.payload 0 0 rest = .ok (.scalar, 0) := by
        rw [Item.payload_eq_of_le (Nat.zero_le _), if_pos (Nat.zero_le _)]
      rw [Shape.measure, ← nothing]
      exact payload_outcome front [] rest 0
  | number size spelled => exact payload_outcome front [] rest size
  | fixed family length =>
      have small : length < 2 ^ 32 := (Announces.fixed announces).lt
      cases family with
      | ext => exact payload_outcome front [] rest (length + 1)
      | str => exact content_outcome limits .str small front [] rest
      | bin => exact content_outcome limits .bin small front [] rest
      | array => exact content_outcome limits .array small front [] rest
      | map => exact content_outcome limits .map small front [] rest
  | sized family count =>
      have counts := Cursor.number_follows (front ++ rest) count
      rw [announced, Shape.measure, Item.sized]
      cases read : Reader.number count rest with
      | error stop =>
          rw [outcome_error (counts.error rfl read)]
          rfl
      | ok r =>
          obtain ⟨length, back⟩ := r
          obtain ⟨header, rfl, rfl, rfl⟩ := (Reader.number_accepts _ _ _ _).mp read
          rw [outcome_ok (counts.ok rfl read), List.length_append]
          exact content_outcome limits family (Announces.sized announces).lt front header back
  | reserved => rfl

theorem skipItem_outcome_nil (front : Bytes) :
    outcome (skipItem limits front) front.length = some (.error .short) :=
  outcome_error (Cursor.outcome_byte_nil front)

theorem skipItem_outcome (limits : Limits) (front rest : Bytes) (marker : UInt8) :
    outcome (skipItem limits (front ++ marker :: rest)) front.length =
      some (told (front.length + 1) (Item.skip limits marker rest)) := by
  have place : (front ++ [marker]).length = front.length + 1 := List.length_append
  rw [skipItem, outcome_ok (Cursor.outcome_byte_cons front rest marker), Packed.skip_eq_measure, ← place,
    List.append_cons]
  exact announced_outcome rfl _ rest

end

/-! ## Rounds -/

/-- The gauge of a scanner, whose counts are innermost first. -/
def ofScanner (s : Scanner) : Gauge := ⟨s.position, s.pending.reverse.toArray⟩

def turned (limits : Limits) (owed : Nat) (outer : List Nat) : Except Stop (Item × Nat) → Turn
  | .error .short => .found (.ok none)
  | .error (.refused e) => .found (.error e)
  | .ok (.scalar, moved) => .again (ofScanner ⟨moved, owed :: outer⟩)
  | .ok (.container count, moved) =>
    if outer.length ≥ limits.maxDepth then .found (.error (.tooDeep limits.maxDepth))
    else .again (ofScanner ⟨moved, count :: owed :: outer⟩)

/-- What is found says what measuring comes to; where more bytes are needed, the gauge is that of its scanner. -/
inductive Tells : Scanner.Result → Except FormatError (Option Nat) × Gauge → Prop
  | complete {size g} : Tells (.complete size) (.ok (some size), g)
  | more {s} : Tells (.more s) (.ok none, ofScanner s)
  | refused {e g} : Tells (.refused e) (.error e, g)

section
variable {limits : Limits} {front buffer rest : Bytes} {outer : List Nat} {position owed : Nat}

theorem back?_ofScanner (position owed : Nat) (outer : List Nat) :
    (ofScanner ⟨position, owed :: outer⟩).pending.back? = some owed := by
  simp [ofScanner]

theorem push_ofScanner (position owed : Nat) (outer : List Nat) :
    (ofScanner ⟨position, outer⟩).pending.push owed = (ofScanner ⟨position, owed :: outer⟩).pending := by
  simp [ofScanner]

theorem pop_ofScanner (position owed : Nat) (outer : List Nat) :
    (ofScanner ⟨position, owed :: outer⟩).pending.pop = (ofScanner ⟨position, outer⟩).pending := by
  simp [ofScanner]

theorem size_ofScanner (position : Nat) (pending : List Nat) :
    (ofScanner ⟨position, pending⟩).pending.size = pending.length := by
  simp [ofScanner]

theorem bottom_ofScanner (position : Nat) (pending : List Nat) :
    (ofScanner ⟨position, pending⟩).pending[0]? = pending.getLast? := by
  rw [ofScanner, List.getElem?_toArray, ← List.head?_eq_getElem?, List.head?_reverse]

theorem payOne_ofScanner (position owed : Nat) (outer : List Nat) :
    payOne (ofScanner ⟨position, (owed + 1) :: outer⟩).pending =
      some (ofScanner ⟨position, owed :: outer⟩).pending := by
  have one : minus (owed + 1) 1 = some owed := if_pos (Nat.le_add_left _ _)
  rw [payOne, back?_ofScanner]
  dsimp only
  rw [one, Option.map_some, pop_ofScanner, push_ofScanner]

theorem turn_whole (position : Nat) :
    turn limits buffer (ofScanner ⟨position, []⟩) = some (.found (.ok (some position))) := rfl

theorem turn_paid (position : Nat) (outer : List Nat) :
    turn limits buffer (ofScanner ⟨position, 0 :: outer⟩) = some (.again (ofScanner ⟨position, outer⟩)) := by
  rw [turn, back?_ofScanner, pop_ofScanner]
  rfl

theorem turn_owed {found : Except Stop (Item × Nat)} (position owed : Nat) (outer : List Nat)
    (stepped : outcome (skipItem limits buffer) position = some found) :
    turn limits buffer (ofScanner ⟨position, (owed + 1) :: outer⟩) = some (turned limits owed outer found) := by
  have depth : minus (outer.length + 1) 1 = some outer.length := if_pos (Nat.le_add_left _ _)
  rw [turn, back?_ofScanner]
  show (outcome (skipItem limits buffer) position).bind _ = _
  rw [stepped, Option.bind_some]
  cases found with
  | error stop => cases stop <;> rfl
  | ok r =>
      obtain ⟨item, moved⟩ := r
      cases item with
      | scalar =>
          dsimp only
          rw [payOne_ofScanner]
          rfl
      | container count =>
          dsimp only
          rw [size_ofScanner, List.length_cons, depth, turned]
          show (if outer.length ≥ limits.maxDepth then _ else _) = _
          split
          · rfl
          · rw [payOne_ofScanner]
            show some (Turn.again ⟨moved, (ofScanner ⟨position, owed :: outer⟩).pending.push count⟩) = _
            rw [push_ofScanner]
            rfl

theorem turn_item {marker : UInt8} {tail : Bytes} {found : Except Stop (Item × Nat)}
    (measured : Item.skip limits marker tail = found) (front : Bytes) (owed : Nat) (outer : List Nat) :
    turn limits (front ++ marker :: tail) (ofScanner ⟨front.length, (owed + 1) :: outer⟩) =
      some (turned limits owed outer (told (front.length + 1) found)) := by
  rw [← measured]
  exact turn_owed _ owed outer (skipItem_outcome limits front tail marker)

variable {g g' : Gauge} {limit : Nat} {result : Except FormatError (Option Nat)} {pending : List Nat}

theorem rounds_again (again : turn limits buffer g = some (.again g')) (limit : Nat) :
    rounds limits buffer (limit + 1) g = rounds limits buffer limit g' := by
  rw [rounds, again]
  rfl

theorem rounds_found (stopped : turn limits buffer g = some (.found result)) (limit : Nat) :
    rounds limits buffer (limit + 1) g = some (result, g) := by
  rw [rounds, stopped]
  rfl

theorem turn_header {marker : UInt8} {tail : Bytes} {count size : Nat}
    (measured : Item.skip limits marker tail = .ok (.container count, size)) (front : Bytes) (owed : Nat)
    (outer : List Nat) :
    turn limits (front ++ marker :: tail) (ofScanner ⟨front.length, (owed + 1) :: outer⟩) =
      some (if outer.length ≥ limits.maxDepth then .found (.error (.tooDeep limits.maxDepth))
        else .again (ofScanner ⟨front.length + 1 + size, count :: owed :: outer⟩)) :=
  turn_item measured front owed outer

/-- A round that takes an item off the bytes leaves more rounds than one more count needs. -/
theorem rounds_further {item back : Bytes} {marker : UInt8} {counts : Nat}
    (again : turn limits (front ++ marker :: (item ++ back)) g = some (.again g'))
    (enough : 2 * (marker :: (item ++ back)).length + counts ≤ limit) :
    ∃ less, 2 * back.length + (counts + 1) ≤ less ∧
      rounds limits (front ++ marker :: (item ++ back)) (limit + 1) g =
        rounds limits (front ++ marker :: item ++ back) (less + 1) g' := by
  simp only [List.length_cons, List.length_append] at enough
  obtain ⟨less, rfl⟩ : ∃ less, limit = less + 1 := Nat.exists_eq_add_one.mpr (by omega)
  exact ⟨less, by omega, by rw [rounds_again again, List.append_assoc, List.cons_append]⟩

/-- Going round tells what measuring comes to. A round that takes nothing off the bytes takes a count off the
stack, and one that puts a count on it takes a marker off the bytes. -/
theorem rounds_tell (limits : Limits) (place : position = front.length)
    (enough : 2 * rest.length + pending.length ≤ limit) :
    ∃ r, rounds limits (front ++ rest) (limit + 1) (ofScanner ⟨position, pending⟩) = some r ∧
      Tells (Scanner.walk limits position pending rest) r := by
  fun_induction Scanner.walk limits position pending rest generalizing front limit with
  | case1 position rest => exact ⟨_, rounds_found (turn_whole position) limit, .complete⟩
  | case2 position rest outer ih =>
      rw [List.length_cons] at enough
      obtain ⟨limit, rfl⟩ := Nat.exists_eq_add_one.mpr (Nat.zero_lt_of_lt enough)
      rw [rounds_again (turn_paid position outer)]
      exact ih place (by omega)
  | case3 position owed outer =>
      have stepped : outcome (skipItem limits (front ++ [])) position = some (.error .short) := by
        rw [List.append_nil, place]
        exact skipItem_outcome_nil front
      exact ⟨_, rounds_found (turn_owed position owed outer stepped) limit, .more⟩
  | case4 position owed outer marker tail short =>
      subst place
      exact ⟨_, rounds_found (turn_item short front owed outer) limit, .more⟩
  | case5 position owed outer marker tail e refused =>
      subst place
      exact ⟨_, rounds_found (turn_item refused front owed outer) limit, .refused⟩
  | case6 position owed outer marker tail size found ih =>
      subst place
      have turn := turn_item found front owed outer
      obtain ⟨item, back, rfl, rfl, -⟩ := Item.skip_eq_ok found
      obtain ⟨less, enough, same⟩ := rounds_further turn enough
      rw [List.drop_left] at ih ⊢
      rw [same]
      exact ih (Scanner.length_append_item front item marker) (Nat.le_of_succ_le enough)
  | case7 position owed outer marker tail count size found full =>
      subst place
      have turn := turn_header found front owed outer
      rw [if_pos full] at turn
      exact ⟨_, rounds_found turn limit, .refused⟩
  | case8 position owed outer marker tail count size found room ih =>
      subst place
      have turn := turn_header found front owed outer
      rw [if_neg room] at turn
      obtain ⟨item, back, rfl, rfl, -⟩ := Item.skip_eq_ok found
      obtain ⟨less, enough, same⟩ := rounds_further turn enough
      rw [List.drop_left] at ih ⊢
      rw [same]
      exact ih (Scanner.length_append_item front item marker) enough

end

/-! ## Buffers -/

theorem opened_ofScanner (position owed : Nat) (outer : List Nat) :
    (ofScanner ⟨position, owed :: outer⟩).opened = ofScanner ⟨position, owed :: outer⟩ := by
  simp [opened, ofScanner]

theorem opened_fresh : fresh.opened = ofScanner .start := rfl

section
variable {limits : Limits} {b : Buffer} {g : Gauge}

theorem scan_tells (between : b.Between limits) (same : g.opened = ofScanner b.scanner) :
    ∃ r, scan limits b.bytes g = some r ∧ Tells (b.scanner.scan limits b.bytes) r := by
  cases between with
  | @between front rest owed outer begun =>
      have few := begun.length_le_bytes
      have enough : 2 * rest.length + ((owed + 1) :: outer).length ≤ 2 * (front ++ rest).length + 1 := by
        rw [List.length_append]
        omega
      rw [scan, same, Scanner.scan, List.drop_left]
      exact rounds_tell limits rfl enough

/-- Asking for a value gives what it gives of a buffer whose bytes are taken off the front. -/
theorem next_tells (between : b.Between limits) (same : g.opened = ofScanner b.scanner) :
    ∃ g', next limits b.bytes g = some ((b.next limits).1, (b.next limits).2.bytes, g') ∧
      g'.opened = ofScanner (b.next limits).2.scanner ∧ ((b.next limits).1 = .ok none → g'.opened = g') := by
  obtain ⟨r, scanned, tells⟩ := scan_tells between same
  obtain ⟨front, rest, bytes, reaches⟩ := between.scan
  rw [next, scanned, Buffer.next]
  generalize b.scanner.scan limits b.bytes = result at tells reaches
  cases tells with
  | @complete size g =>
      have inside : size ≤ b.bytes.length := by
        cases reaches with
        | complete split =>
            rw [bytes, split]
            simp
      dsimp only
      show ∃ g', ((slice b.bytes 0 size).bind _) = _ ∧ _
      rw [Cursor.slice_front inside, Option.bind_some, Cursor.ofBytes_eq]
      cases ofBytes limits (b.bytes.take size) with
      | ok v =>
          dsimp only
          rw [Cursor.slice_back inside]
          exact ⟨fresh, rfl, opened_fresh, fun none => by cases none⟩
      | error e => exact ⟨fresh, rfl, opened_fresh, fun none => by cases none⟩
  | @more s =>
      by_cases large : b.bytes.length > limits.maxSize
      · refine ⟨fresh, ?_, ?_, ?_⟩
        all_goals simp only [if_pos large]
        · rfl
        · exact opened_fresh
        · intro none
          cases none
      · cases reaches with
        | @more back left owed outer split begun =>
            have kept := opened_ofScanner (front ++ back).length (owed + 1) outer
            refine ⟨ofScanner ⟨(front ++ back).length, (owed + 1) :: outer⟩, ?_, ?_, fun _ => kept⟩
            all_goals simp only [if_neg large]
            · rfl
            · exact kept
  | refused => exact ⟨fresh, rfl, opened_fresh, fun none => by cases none⟩

end

def perform (limits : Limits) : List Buffer.Use → Bytes → Gauge →
    Option (List (Except FormatError (Option Packed)) × Bytes × Gauge)
  | [], buffer, g => some ([], buffer, g)
  | .append bytes :: uses, buffer, g => perform limits uses (buffer ++ bytes) g
  | .next :: uses, buffer, g => do
    let (answer, buffer, g) ← next limits buffer g
    let (answers, buffer, g) ← perform limits uses buffer g
    return (answer :: answers, buffer, g)

variable {limits : Limits} {b : Buffer} {g : Gauge}

theorem perform_tells (between : b.Between limits) (same : g.opened = ofScanner b.scanner) (uses : List Buffer.Use) :
    ∃ g', perform limits uses b.bytes g =
        some ((b.perform limits uses).1, (b.perform limits uses).2.bytes, g') ∧
      g'.opened = ofScanner (b.perform limits uses).2.scanner ∧
      ((∀ answer ∈ (b.perform limits uses).1, answer = .ok none) →
        (b.perform limits uses).1 = [] ∧ g' = g ∨ (b.perform limits uses).1 ≠ [] ∧ g'.opened = g') := by
  induction uses generalizing b g with
  | nil => exact ⟨g, rfl, same, fun _ => .inl ⟨rfl, rfl⟩⟩
  | cons use uses ih =>
      cases use with
      | append bytes => exact ih (between.append bytes) same
      | next =>
          obtain ⟨g₁, first, same₁, kept⟩ := next_tells between same
          obtain ⟨g₂, others, same₂, still⟩ := ih between.next same₁
          refine ⟨g₂, ?_, same₂, fun quiet => ?_⟩
          · rw [perform, first]
            show (perform limits uses (b.next limits).2.bytes g₁).bind _ = _
            rw [others]
            rfl
          · rw [Buffer.perform_next] at quiet ⊢
            obtain ⟨none, quiet⟩ := List.forall_mem_cons.mp quiet
            refine .inr ⟨List.cons_ne_nil _ _, ?_⟩
            rcases still quiet with ⟨-, rfl⟩ | ⟨-, settled⟩
            · exact kept none
            · exact settled

/-- Where measuring stands in a buffer. -/
structure Measured (limits : Limits) (buffer : Bytes) (g : Gauge) : Prop where
  within : g.position ≤ buffer.length
  /-- Before the position are complete items of one value and the headers of its containers that are open there,
  which owe what the counts say. -/
  begun : Begun limits.roomy 0 g.pending.toList.reverse (buffer.take g.position)
  /-- As many more items as are owed in all end the value; fewer and more of them do not. -/
  owed : ∀ count, (∃ v, Spells limits.roomy limits.maxDepth v
    (buffer.take g.position ++ List.replicate count 0xc0)) ↔ count = g.pending.toList.sum
  depth : g.pending.size ≤ limits.maxDepth + 1
  /-- The value itself is owed until its first item has been stepped over. -/
  bottom : g.pending[0]? = some (if g.position = 0 then 1 else 0)
  top : ∃ owed, g.pending.back? = some (owed + 1)
  counts : ∀ owed ∈ g.pending, owed < 2 ^ 33
  /-- Whatever lengths are declared, the rounds to come are bounded by the bytes and the counts that there are. -/
  ends : ∀ limit, 2 * (buffer.length - g.position) + g.pending.size < limit →
    ∃ r, rounds limits buffer limit g = some r

theorem measured_of_between (h : b.Between limits) : Measured limits b.bytes (ofScanner b.scanner) := by
  cases h with
  | @between front rest owed outer begun =>
      have taken : (front ++ rest).take front.length = front := List.take_left
      have pending : (ofScanner ⟨front.length, (owed + 1) :: outer⟩).pending.toList.reverse =
          (owed + 1) :: outer := List.reverse_reverse _
      constructor
      case within => exact List.length_append ▸ Nat.le_add_right _ _
      case begun =>
        rw [pending]
        exact taken.symm ▸ begun
      case owed =>
        intro count
        rw [← List.sum_reverse, pending]
        exact taken.symm ▸ begun.spells_iff count
      case depth =>
        rw [size_ofScanner]
        exact begun.length_le
      case bottom =>
        rw [bottom_ofScanner]
        exact begun.getLast?
      case top => exact ⟨owed, back?_ofScanner _ _ _⟩
      case counts =>
        intro n listed
        refine begun.lt n ?_
        rw [← pending, List.mem_reverse]
        exact Array.mem_toList_iff.mpr listed
      case ends =>
        intro limit enough
        obtain ⟨limit, rfl⟩ := Nat.exists_eq_add_one.mpr (Nat.zero_lt_of_lt enough)
        have rest_length : (front ++ rest).length - front.length = rest.length := by simp
        have enough : 2 * rest.length + ((owed + 1) :: outer).length ≤ limit := by
          rw [← rest_length, ← size_ofScanner front.length]
          exact Nat.le_of_lt_succ enough
        obtain ⟨r, scanned, -⟩ := rounds_tell limits rfl enough
        exact ⟨r, scanned⟩

/-- Whatever is received and however often the first value is asked for, a gauge does what the scanner does: no
difference is below zero, no slice is outside the buffer, and every scan ends. It always stands between two items
of one value, and its stack counts what is owed there. As long as nothing was found and nothing refused, that is a
place in all that was received; the stack is empty only before it is first asked. -/
theorem between_items (limits : Limits) (uses : List Buffer.Use) :
    let used := Buffer.empty.perform limits uses
    ∃ g, perform limits uses [] fresh = some (used.1, used.2.bytes, g) ∧ g.opened = ofScanner used.2.scanner ∧
      Measured limits used.2.bytes g.opened ∧
      ((∀ answer ∈ used.1, answer = .ok none) → used.2.bytes = Buffer.Use.received uses ∧
        (used.1 = [] ∧ g = fresh ∨ used.1 ≠ [] ∧ g.opened = g)) := by
  intro used
  have start : Buffer.empty.Between limits := Buffer.ofBytes_between limits []
  obtain ⟨g, performed, same, settled⟩ := perform_tells start opened_fresh uses
  refine ⟨g, performed, same, ?_, fun quiet => ⟨Buffer.perform_quiet uses Buffer.empty quiet, settled quiet⟩⟩
  rw [same]
  exact measured_of_between (start.perform uses)

/-- A map of as many entries as four bytes can count, the header of which comes in two pieces. -/
theorem between_items_huge :
    let limits : Limits := ⟨2 ^ 33, 2⟩
    let bytes : Bytes := [0x92, 0xdf, 0xff, 0xff, 0xff, 0xff, 0x01]
    let half := perform limits [.append (bytes.take 4), .next] [] fresh
    half = some ([.ok none], bytes.take 4, ⟨1, #[0, 2]⟩) ∧
      Measured limits bytes ⟨7, #[0, 1, 2 ^ 33 - 3]⟩ := by
  intro limits bytes half
  have performed : perform limits [.append (bytes.take 4), .next, .append (bytes.drop 4), .next] [] fresh =
      some ([.ok none, .ok none], bytes, ⟨7, #[0, 1, 2 ^ 33 - 3]⟩) := by cbv
  obtain ⟨g, told, -, measured, -⟩ :=
    between_items limits [.append (bytes.take 4), .next, .append (bytes.drop 4), .next]
  rw [performed] at told
  have told := Option.some.inj told
  obtain ⟨-, kept, rfl⟩ : _ = _ ∧ bytes = _ ∧ _ = g := by simpa only [Prod.mk.injEq] using told
  refine ⟨by cbv, ?_⟩
  rw [kept]
  exact measured

end Gauge

end PackRpc.Packed
