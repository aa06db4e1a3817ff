import PackRpc.Packed.Basic
import PackRpc.Packed.Error
/-!
# Writing packed values

`encode` writes a value in its smallest form: the shortest integer family that holds the number and
the shortest header that holds the length. Lengths are written in at most four bytes; `toBytes` refuses
a value with a longer part. `put` is what gets into a buffer: all of the value, or what comes before
such a part.
-/
namespace PackRpc.Packed

def marked (marker : UInt8) (count n : Nat) : Bytes :=
  marker :: Bytes.ofNat count n

def encodeInt (n : Int) : Bytes :=
  if 0 ≤ n then
    let n := n.toNat
    if n < 0x80 then [.ofNat n]
    else if n < 2 ^ 8 then marked 0xcc 1 n
    else if n < 2 ^ 16 then marked 0xcd 2 n
    else if n < 2 ^ 32 then marked 0xce 4 n
    else marked 0xcf 8 n
  else if -32 ≤ n then [.ofNat (n + 2 ^ 8).toNat]
  else if -2 ^ 7 ≤ n then marked 0xd0 1 (n + 2 ^ 8).toNat
  else if -2 ^ 15 ≤ n then marked 0xd1 2 (n + 2 ^ 16).toNat
  else if -2 ^ 31 ≤ n then marked 0xd2 4 (n + 2 ^ 32).toNat
  else marked 0xd3 8 (n + 2 ^ 64).toNat

def strHeader (length : Nat) : Bytes :=
  if length < 32 then [.ofNat (0xa0 + length)]
  else if length < 2 ^ 8 then marked 0xd9 1 length
  else if length < 2 ^ 16 then marked 0xda 2 length
  else marked 0xdb 4 length

def binHeader (length : Nat) : Bytes :=
  if length < 2 ^ 8 then marked 0xc4 1 length
  else if length < 2 ^ 16 then marked 0xc5 2 length
  else marked 0xc6 4 length

def arrayHeader (length : Nat) : Bytes :=
  if length < 16 then [.ofNat (0x90 + length)]
  else if length < 2 ^ 16 then marked 0xdc 2 length
  else marked 0xdd 4 length

def mapHeader (length : Nat) : Bytes :=
  if length < 16 then [.ofNat (0x80 + length)]
  else if length < 2 ^ 16 then marked 0xde 2 length
  else marked 0xdf 4 length

/-- Five payload sizes have a marker of their own. -/
def extHeader (length : Nat) : Bytes :=
  match length with
  | 1 => [0xd4]
  | 2 => [0xd5]
  | 4 => [0xd6]
  | 8 => [0xd7]
  | 16 => [0xd8]
  | _ =>
    if length < 2 ^ 8 then marked 0xc7 1 length
    else if length < 2 ^ 16 then marked 0xc8 2 length
    else marked 0xc9 4 length

mutual

def encode : Packed → Bytes
  | .nil => [0xc0]
  | .bool b => [if b then 0xc3 else 0xc2]
  | .int n => encodeInt n.val
  | .float32 x => marked 0xca 4 x.bits.toNat
  | .float64 x => marked 0xcb 8 x.bits.toNat
  | .str text =>
    let data := Bytes.ofText text
    strHeader data.length ++ data
  | .bin data => binHeader data.length ++ data
  | .array items => arrayHeader items.length ++ encodeItems items
  | .map entries => mapHeader entries.length ++ encodeEntries entries
  | .ext type data => extHeader data.length ++ type.toUInt8 :: data

def encodeItems : List Packed → Bytes
  | [] => []
  | item :: items => encode item ++ encodeItems items

def encodeEntries : List (Packed × Packed) → Bytes
  | [] => []
  | (key, value) :: entries => encode key ++ (encode value ++ encodeEntries entries)

end

/-- A length that four bytes cannot hold. -/
def overlong? (length : Nat) : Option Nat :=
  if length < 2 ^ 32 then none else some length

mutual

/-- The first length in the value that four bytes cannot hold. -/
def oversize? : Packed → Option Nat
  | .nil | .bool _ | .int _ | .float32 _ | .float64 _ => none
  | .str text => overlong? text.utf8ByteSize
  | .bin data => overlong? data.length
  | .array items => (overlong? items.length).or (oversizeItems? items)
  | .map entries => (overlong? entries.length).or (oversizeEntries? entries)
  | .ext _ data => overlong? data.length

def oversizeItems? : List Packed → Option Nat
  | [] => none
  | item :: items =>
    match oversize? item with
    | some length => some length
    | none => oversizeItems? items

def oversizeEntries? : List (Packed × Packed) → Option Nat
  | [] => none
  | (key, value) :: entries =>
    match oversize? key with
    | some length => some length
    | none =>
      match oversize? value with
      | some length => some length
      | none => oversizeEntries? entries

end

/-- Nothing is put down for a part whose length four bytes cannot hold. -/
def putIf (length : Nat) (part : Bytes × Option Nat) : Bytes × Option Nat :=
  match overlong? length with
  | some length => ([], some length)
  | none => part

/-- The rest follows unless the first part was not put down whole. -/
def putThen (first rest : Bytes × Option Nat) : Bytes × Option Nat :=
  match first.2 with
  | some _ => first
  | none => (first.1 ++ rest.1, rest.2)

mutual

/-- The bytes that are put down for a value up to the first length that four bytes cannot hold, and that
length. -/
def put : Packed → Bytes × Option Nat
  | .nil => (encode .nil, none)
  | .bool b => (encode (.bool b), none)
  | .int n => (encode (.int n), none)
  | .float32 x => (encode (.float32 x), none)
  | .float64 x => (encode (.float64 x), none)
  | .str text => putIf text.utf8ByteSize (encode (.str text), none)
  | .bin data => putIf data.length (encode (.bin data), none)
  | .array items => putIf items.length (putThen (arrayHeader items.length, none) (putItems items))
  | .map entries => putIf entries.length (putThen (mapHeader entries.length, none) (putEntries entries))
  | .ext type data => putIf data.length (encode (.ext type data), none)

def putItems : List Packed → Bytes × Option Nat
  | [] => ([], none)
  | item :: items => putThen (put item) (putItems items)

def putEntries : List (Packed × Packed) → Bytes × Option Nat
  | [] => ([], none)
  | (key, value) :: entries => putThen (put key) (putThen (put value) (putEntries entries))

end

/-- The bytes of a value, unless one of its lengths cannot be written. -/
def toBytes (v : Packed) : Except FormatError Bytes :=
  match v.oversize? with
  | some length => .error (.tooLarge length (2 ^ 32 - 1))
  | none => .ok v.encode

end PackRpc.Packed
