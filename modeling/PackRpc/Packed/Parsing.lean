import PackRpc.Packed.Basic
import PackRpc.Packed.Error
import PackRpc.Limits
/-!
# Reading packed values

A reader takes one value from the front of a byte string. It stops for want of bytes or because it
refuses what it has seen; the limits bound every declared length and the nesting of containers. `item`
reads one layer and is given the reader of the layer below, which is absent where the limit on nesting
is used up.
-/
namespace PackRpc

inductive Stop where
  /-- The bytes end before the value does. -/
  | short
  | refused (error : FormatError)
  deriving DecidableEq

/-- Reads something from the front of a byte string and gives back what follows it. -/
abbrev Reader (α : Type) := Bytes → Except Stop (α × Bytes)

namespace Reader

def take (count : Nat) : Reader Bytes := fun bytes =>
  match bytes.split? count with
  | some parts => .ok parts
  | none => .error .short

def number (count : Nat) : Reader Nat := fun bytes =>
  match take count bytes with
  | .ok (data, rest) => .ok (data.toNat, rest)
  | .error e => .error e

def map {α β : Type} (f : α → β) (read : Reader α) : Reader β := fun bytes =>
  match read bytes with
  | .ok (a, rest) => .ok (f a, rest)
  | .error e => .error e

def andThen {α β : Type} (read : Reader α) (next : α → Reader β) : Reader β := fun bytes =>
  match read bytes with
  | .ok (a, rest) => next a rest
  | .error e => .error e

/-- Reads `count` things and puts them behind those read before, the last of which comes first. -/
def manyOnto {α : Type} (read : Reader α) : (count : Nat) → List α → Reader (List α)
  | 0, done, bytes => .ok (done.reverse, bytes)
  | count + 1, done, bytes =>
    match read bytes with
    | .ok (a, rest) => manyOnto read count (a :: done) rest
    | .error e => .error e

def many {α : Type} (read : Reader α) (count : Nat) : Reader (List α) :=
  manyOnto read count []

def pair {α β : Type} (first : Reader α) (second : Reader β) : Reader (α × β) :=
  andThen first fun a => map (fun b => (a, b)) second

end Reader

namespace Packed
open Reader (take number andThen many pair)

def checked {α : Type} (limits : Limits) (length : Nat) (next : Reader α) : Reader α := fun bytes =>
  if length > limits.maxSize then .error (.refused (.tooLarge length limits.maxSize)) else next bytes

/-- A text payload; one that is not well-formed UTF-8 is kept as bytes. -/
def strBody (limits : Limits) (length : Nat) : Reader Packed :=
  checked limits length <| Reader.map (fun data => (data.toText?.map Packed.str).getD (.bin data)) (take length)

def binBody (limits : Limits) (length : Nat) : Reader Packed :=
  checked limits length <| Reader.map Packed.bin (take length)

def extBody (limits : Limits) (length : Nat) : Reader Packed :=
  checked limits length <|
    andThen (number 1) fun type => Reader.map (Packed.ext (UInt8.ofNat type).toInt8) (take length)

def nested {α : Type} (limits : Limits) (inner : Option (Reader Packed))
    (body : Reader Packed → Reader α) : Reader α := fun bytes =>
  match inner with
  | some read => body read bytes
  | none => .error (.refused (.tooDeep limits.maxDepth))

def arrayBody (limits : Limits) (inner : Option (Reader Packed)) (length : Nat) : Reader Packed :=
  checked limits length <| nested limits inner fun read => Reader.map Packed.array (many read length)

def mapBody (limits : Limits) (inner : Option (Reader Packed)) (length : Nat) : Reader Packed :=
  checked limits length <| nested limits inner fun read => Reader.map Packed.map (many (pair read read) length)

def unsigned (count : Nat) : Reader Packed :=
  Reader.map Packed.ofNat (number count)

def signed (count : Nat) : Reader Packed :=
  Reader.map (fun data => Packed.ofInt data.toInt) (take count)

def body (limits : Limits) (inner : Option (Reader Packed)) (marker : UInt8) : Reader Packed :=
  let m := marker.toNat
  if m < 0x80 then fun bytes => .ok (.ofNat m, bytes)
  else if m < 0x90 then mapBody limits inner (m - 0x80)
  else if m < 0xa0 then arrayBody limits inner (m - 0x90)
  else if m < 0xc0 then strBody limits (m - 0xa0)
  else if 0xe0 ≤ m then fun bytes => .ok (.ofInt ((m : Int) - 0x100), bytes)
  else
    match m with
    | 0xc0 => fun bytes => .ok (.nil, bytes)
    | 0xc2 => fun bytes => .ok (.bool false, bytes)
    | 0xc3 => fun bytes => .ok (.bool true, bytes)
    | 0xc4 => andThen (number 1) (binBody limits)
    | 0xc5 => andThen (number 2) (binBody limits)
    | 0xc6 => andThen (number 4) (binBody limits)
    | 0xc7 => andThen (number 1) (extBody limits)
    | 0xc8 => andThen (number 2) (extBody limits)
    | 0xc9 => andThen (number 4) (extBody limits)
    | 0xca => Reader.map (fun n => .float32 ⟨.ofNat n⟩) (number 4)
    | 0xcb => Reader.map (fun n => .float64 ⟨.ofNat n⟩) (number 8)
    | 0xcc => unsigned 1
    | 0xcd => unsigned 2
    | 0xce => unsigned 4
    | 0xcf => unsigned 8
    | 0xd0 => signed 1
    | 0xd1 => signed 2
    | 0xd2 => signed 4
    | 0xd3 => signed 8
    | 0xd4 => extBody limits 1
    | 0xd5 => extBody limits 2
    | 0xd6 => extBody limits 4
    | 0xd7 => extBody limits 8
    | 0xd8 => extBody limits 16
    | 0xd9 => andThen (number 1) (strBody limits)
    | 0xda => andThen (number 2) (strBody limits)
    | 0xdb => andThen (number 4) (strBody limits)
    | 0xdc => andThen (number 2) (arrayBody limits inner)
    | 0xdd => andThen (number 4) (arrayBody limits inner)
    | 0xde => andThen (number 2) (mapBody limits inner)
    | 0xdf => andThen (number 4) (mapBody limits inner)
    | _ => fun _ => .error (.refused (.malformed .reservedMarker))

/-- One value, whose containers are read with `inner`. -/
def item (limits : Limits) (inner : Option (Reader Packed)) : Reader Packed
  | [] => .error .short
  | marker :: rest => body limits inner marker rest

/-- Reads one value whose containers nest at most `levels` deep. -/
def parse (limits : Limits) : (levels : Nat) → Reader Packed
  | 0 => item limits none
  | levels + 1 => item limits (some (parse limits levels))

/-- Reads a byte string that is one value and nothing else. -/
def ofBytes (limits : Limits) (bytes : Bytes) : Except FormatError Packed :=
  match parse limits limits.maxDepth bytes with
  | .error .short => .error (.malformed (.truncated bytes.length))
  | .error (.refused e) => .error e
  | .ok (v, []) => .ok v
  | .ok (_, rest) => .error (.malformed (.trailing rest.length))

end Packed

end PackRpc
