import PackRpc.Value.Basic
import PackRpc.Packed.Basic

namespace PackRpc.Value

mutual

/-- The packed form of a value, whatever its shape. -/
def toPacked : Value → Packed
  | .nil => .nil
  | .bool b => .bool b
  | .int n => .int (.ofInt64 n)
  | .uint n => .int (.ofUInt64 n)
  | .float x => .float64 x
  | .string text => .str text
  | .binary data => .bin data
  | .seq items => .array (toPackedItems items)
  | .map entries => .map (toPackedEntries entries)
  | .record _ values => .array (toPackedItems values)

def toPackedItems : List Value → List Packed
  | [] => []
  | item :: items => toPacked item :: toPackedItems items

def toPackedEntries : List (Value × Value) → List (Packed × Packed)
  | [] => []
  | (key, value) :: entries => (toPacked key, toPacked value) :: toPackedEntries entries

end

/-- An integer that is not negative comes back unsigned. -/
def ofInteger (n : PackedInt) : Value :=
  match n.toUInt64? with
  | some m => .uint m
  | none => .int (.ofInt n.val)

mutual

def ofPacked : Packed → Value
  | .nil => .nil
  | .bool b => .bool b
  | .int n => ofInteger n
  | .float32 x => .float (.ofBinary32 x)
  | .float64 x => .float x
  | .str text => .string text
  | .bin data => .binary data
  | .ext _ data => .binary data
  | .array items => .seq (ofPackedItems items)
  | .map entries => .map (ofPackedEntries entries)

def ofPackedItems : List Packed → List Value
  | [] => []
  | item :: items => ofPacked item :: ofPackedItems items

def ofPackedEntries : List (Packed × Packed) → List (Value × Value)
  | [] => []
  | (key, value) :: entries => (ofPacked key, ofPacked value) :: ofPackedEntries entries

end

end PackRpc.Value
