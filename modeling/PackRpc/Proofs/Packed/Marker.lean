import PackRpc.Packed.Scanner
import PackRpc.Packed.Encoding
import PackRpc.Proofs.Bytes
/-!
# What markers announce

A marker is a value, or announces a number, a payload or a container. `shape` is the table of the format;
reading (`body_eq_read`) and measuring (`skip_eq_measure`) are both functions of it, so what holds of the
few shapes holds of every marker.
-/
namespace PackRpc.Packed
open Reader (take number andThen)

/-- The families of values whose length is declared before them. -/
inductive Family where
  | str
  | bin
  | ext
  | array
  | map
  deriving DecidableEq

/-- What a marker announces. -/
inductive Shape where
  /-- The marker stands for the value. -/
  | value (v : Packed)
  /-- So many bytes that spell the value. -/
  | number (size : Nat) (spelled : Bytes → Packed)
  /-- The marker declares the length. -/
  | fixed (family : Family) (length : Nat)
  /-- The length is declared in so many bytes. -/
  | sized (family : Family) (header : Nat)
  | reserved

def shape (marker : UInt8) : Shape :=
  let m := marker.toNat
  if m < 0x80 then .value (.ofNat m)
  else if m < 0x90 then .fixed .map (m - 0x80)
  else if m < 0xa0 then .fixed .array (m - 0x90)
  else if m < 0xc0 then .fixed .str (m - 0xa0)
  else if 0xe0 ≤ m then .value (.ofInt ((m : Int) - 0x100))
  else
    match m with
    | 0xc0 => .value .nil
    | 0xc2 => .value (.bool false)
    | 0xc3 => .value (.bool true)
    | 0xc4 => .sized .bin 1
    | 0xc5 => .sized .bin 2
    | 0xc6 => .sized .bin 4
    | 0xc7 => .sized .ext 1
    | 0xc8 => .sized .ext 2
    | 0xc9 => .sized .ext 4
    | 0xca => .number 4 fun data => .float32 ⟨.ofNat data.toNat⟩
    | 0xcb => .number 8 fun data => .float64 ⟨.ofNat data.toNat⟩
    | 0xcc => .number 1 fun data => .ofNat data.toNat
    | 0xcd => .number 2 fun data => .ofNat data.toNat
    | 0xce => .number 4 fun data => .ofNat data.toNat
    | 0xcf => .number 8 fun data => .ofNat data.toNat
    | 0xd0 => .number 1 fun data => .ofInt data.toInt
    | 0xd1 => .number 2 fun data => .ofInt data.toInt
    | 0xd2 => .number 4 fun data => .ofInt data.toInt
    | 0xd3 => .number 8 fun data => .ofInt data.toInt
    | 0xd4 => .fixed .ext 1
    | 0xd5 => .fixed .ext 2
    | 0xd6 => .fixed .ext 4
    | 0xd7 => .fixed .ext 8
    | 0xd8 => .fixed .ext 16
    | 0xd9 => .sized .str 1
    | 0xda => .sized .str 2
    | 0xdb => .sized .str 4
    | 0xdc => .sized .array 2
    | 0xdd => .sized .array 4
    | 0xde => .sized .map 2
    | 0xdf => .sized .map 4
    | _ => .reserved

def Family.body (limits : Limits) (inner : Option (Reader Packed)) : Family → Nat → Reader Packed
  | .str => strBody limits
  | .bin => binBody limits
  | .ext => extBody limits
  | .array => arrayBody limits inner
  | .map => mapBody limits inner

def Shape.read (limits : Limits) (inner : Option (Reader Packed)) : Shape → Reader Packed
  | .value v => fun bytes => .ok (v, bytes)
  | .number size spelled => Reader.map spelled (take size)
  | .fixed family length => family.body limits inner length
  | .sized family header => andThen (Reader.number header) (family.body limits inner)
  | .reserved => fun _ => .error (.refused (.malformed .reservedMarker))

def Family.step (header : Nat) (rest : Bytes) : Family → Nat → Except Stop (Item × Nat)
  | .str, length => Item.payload header length rest
  | .bin, length => Item.payload header length rest
  -- An extension has one more byte, for its type.
  | .ext, length => Item.payload header (length + 1) rest
  | .array, length => .ok (.container length, header)
  | .map, length => .ok (.container (2 * length), header)

/-- Steps over what follows the marker. The length of a small extension is not compared with the
limit here. -/
def Shape.measure (limits : Limits) (rest : Bytes) : Shape → Except Stop (Item × Nat)
  | .value _ => .ok (.scalar, 0)
  | .number size _ => Item.payload 0 size rest
  | .fixed .ext length => Family.ext.step 0 rest length
  | .fixed family length => Item.bounded limits length fun n => family.step 0 rest n
  | .sized family header => Item.sized limits header rest fun n => family.step header rest n
  | .reserved => .error (.refused (.malformed .reservedMarker))

theorem map_number {f : Nat → Packed} (count : Nat) :
    Reader.map f (number count) = Reader.map (fun data => f data.toNat) (take count) := by
  funext bytes
  simp only [Reader.map, number]
  cases take count bytes <;> rfl

theorem body_eq_read (limits : Limits) (inner : Option (Reader Packed)) (marker : UInt8) :
    body limits inner marker = (shape marker).read limits inner := by
  unfold body shape
  generalize marker.toNat = m
  dsimp only
  split_ifs
  · rfl
  · rfl
  · rfl
  · rfl
  · rfl
  · split <;> simp only [Shape.read, Family.body, unsigned, signed, map_number, *]

/-- Measuring is a function of the shape. -/
theorem skip_eq_measure (limits : Limits) (marker : UInt8) (rest : Bytes) :
    Item.skip limits marker rest = (shape marker).measure limits rest := by
  unfold Item.skip shape
  generalize marker.toNat = m
  dsimp only
  by_cases low : m < 0x80
  · rw [if_pos (.inl low), if_pos low, Shape.measure]
  · by_cases high : 0xe0 ≤ m
    · rw [if_pos (.inr high), if_neg low, if_neg (by omega), if_neg (by omega), if_neg (by omega),
        if_pos high, Shape.measure]
    · rw [if_neg (by omega), if_neg low, if_neg high]
      split_ifs
      · rfl
      · rfl
      · rfl
      · split <;> simp only [Shape.measure, Family.step, *]

end PackRpc.Packed
