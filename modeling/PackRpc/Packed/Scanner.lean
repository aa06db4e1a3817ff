import PackRpc.Packed.Parsing
/-!
# Measuring packed values

A scanner finds where the first value of a growing buffer ends without building it, and remembers how
far it got. Its state is a position and, innermost first, how many items each open container still
owes; the outermost entry stands for the value itself.
-/
namespace PackRpc

/-- What stands at the front of a byte string: a scalar, or the header of a container with so many
values to follow. -/
inductive Item where
  | scalar
  | container (count : Nat)
  deriving DecidableEq

namespace Item

def payload (header size : Nat) (rest : Bytes) : Except Stop (Item × Nat) :=
  if ((rest.drop header).take size).length = size then .ok (.scalar, header + size) else .error .short

/-- Goes on with a declared length unless it is above the limit. -/
def bounded (limits : Limits) (length : Nat) (next : Nat → Except Stop (Item × Nat)) :
    Except Stop (Item × Nat) :=
  if length > limits.maxSize then .error (.refused (.tooLarge length limits.maxSize)) else next length

def sized (limits : Limits) (header : Nat) (rest : Bytes)
    (next : Nat → Except Stop (Item × Nat)) : Except Stop (Item × Nat) :=
  match Reader.number header rest with
  | .ok (length, _) => bounded limits length next
  | .error e => .error e

/-- Steps over what follows a marker: one scalar, or the rest of the header of a container. The answer
counts the bytes stepped over. -/
def skip (limits : Limits) (marker : UInt8) (rest : Bytes) : Except Stop (Item × Nat) :=
  let m := marker.toNat
  if m < 0x80 ∨ 0xe0 ≤ m then .ok (.scalar, 0)
  else if m < 0x90 then bounded limits (m - 0x80) fun n => .ok (.container (2 * n), 0)
  else if m < 0xa0 then bounded limits (m - 0x90) fun n => .ok (.container n, 0)
  else if m < 0xc0 then bounded limits (m - 0xa0) fun n => payload 0 n rest
  else
    match m with
    | 0xc0 | 0xc2 | 0xc3 => .ok (.scalar, 0)
    | 0xc4 | 0xd9 => sized limits 1 rest fun n => payload 1 n rest
    | 0xc5 | 0xda => sized limits 2 rest fun n => payload 2 n rest
    | 0xc6 | 0xdb => sized limits 4 rest fun n => payload 4 n rest
    -- An extension has one more byte, for its type.
    | 0xc7 => sized limits 1 rest fun n => payload 1 (n + 1) rest
    | 0xc8 => sized limits 2 rest fun n => payload 2 (n + 1) rest
    | 0xc9 => sized limits 4 rest fun n => payload 4 (n + 1) rest
    | 0xcc | 0xd0 => payload 0 1 rest
    | 0xcd | 0xd1 => payload 0 2 rest
    | 0xca | 0xce | 0xd2 => payload 0 4 rest
    | 0xcb | 0xcf | 0xd3 => payload 0 8 rest
    | 0xd4 => payload 0 2 rest
    | 0xd5 => payload 0 3 rest
    | 0xd6 => payload 0 5 rest
    | 0xd7 => payload 0 9 rest
    | 0xd8 => payload 0 17 rest
    | 0xdc => sized limits 2 rest fun n => .ok (.container n, 2)
    | 0xdd => sized limits 4 rest fun n => .ok (.container n, 4)
    | 0xde => sized limits 2 rest fun n => .ok (.container (2 * n), 2)
    | 0xdf => sized limits 4 rest fun n => .ok (.container (2 * n), 4)
    | _ => .error (.refused (.malformed .reservedMarker))

end Item

/-- How far the first value of a buffer has been measured. `pending` counts, innermost first, the items
that each open container still owes. -/
structure Scanner where
  position : Nat
  pending : List Nat
  deriving DecidableEq

namespace Scanner

/-- Nothing measured yet: one value is owed. -/
def start : Scanner := ⟨0, [1]⟩

inductive Result where
  /-- The value ends at this position. -/
  | complete (size : Nat)
  /-- More bytes are needed; measuring can go on from here. -/
  | more (scanner : Scanner)
  | refused (error : FormatError)

/-- Measures on, `rest` being the bytes from `position`. -/
def walk (limits : Limits) (position : Nat) (pending : List Nat) (rest : Bytes) : Result :=
  match pending with
  | [] => .complete position
  | 0 :: outer => walk limits position outer rest
  | (owed + 1) :: outer =>
    match rest with
    | [] => .more ⟨position, pending⟩
    | marker :: tail =>
      match Item.skip limits marker tail with
      | .error .short => .more ⟨position, pending⟩
      | .error (.refused e) => .refused e
      | .ok (.scalar, size) => walk limits (position + 1 + size) (owed :: outer) (tail.drop size)
      | .ok (.container count, size) =>
        if outer.length ≥ limits.maxDepth then .refused (.tooDeep limits.maxDepth)
        else walk limits (position + 1 + size) (count :: owed :: outer) (tail.drop size)
termination_by (rest.length, pending.length)
decreasing_by
  · exact .right _ (Nat.lt_succ_self _)
  all_goals exact .left _ _ (by simp only [List.length_drop, List.length_cons]; omega)

/-- Measures on in a buffer that has only grown since. -/
def scan (limits : Limits) (scanner : Scanner) (buffer : Bytes) : Result :=
  walk limits scanner.position scanner.pending (buffer.drop scanner.position)

end Scanner

/-- Bytes received and not yet read, with the state of measuring their first value. -/
structure Buffer where
  bytes : Bytes
  scanner : Scanner

namespace Buffer

def ofBytes (bytes : Bytes) : Buffer := ⟨bytes, .start⟩

def empty : Buffer := ofBytes []

def append (b : Buffer) (bytes : Bytes) : Buffer :=
  { b with bytes := b.bytes ++ bytes }

/-- Takes the first value out of the buffer, once all of it is there. A refusal leaves the bytes. -/
def next (limits : Limits) (b : Buffer) : Except FormatError (Option Packed) × Buffer :=
  match b.scanner.scan limits b.bytes with
  | .complete size =>
    match Packed.ofBytes limits (b.bytes.take size) with
    | .ok v => (.ok (some v), ofBytes (b.bytes.drop size))
    | .error e => (.error e, ofBytes b.bytes)
  | .more scanner =>
    if b.bytes.length > limits.maxSize then
      (.error (.tooLarge b.bytes.length limits.maxSize), ofBytes b.bytes)
    else (.ok none, { b with scanner })
  | .refused e => (.error e, ofBytes b.bytes)

end Buffer

/-- Takes the first value of a byte string, measuring it from the start. -/
def Packed.decodeFirst (limits : Limits) (bytes : Bytes) : Except FormatError (Option Packed) × Bytes :=
  let (result, b) := (Buffer.ofBytes bytes).next limits
  (result, b.bytes)

end PackRpc
