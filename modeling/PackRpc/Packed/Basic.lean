import PackRpc.Binary.Basic
import PackRpc.Bytes

namespace PackRpc

/-- An integer within the range of MessagePack. -/
structure PackedInt where
  val : Int
  ge : -2 ^ 63 ≤ val
  lt : val < 2 ^ 64
  deriving DecidableEq

namespace PackedInt

def ofInt64 (n : Int64) : PackedInt where
  val := n.toInt
  ge := n.le_toInt
  lt := Int.lt_trans n.toInt_lt (by decide)

def ofUInt64 (n : UInt64) : PackedInt where
  val := n.toNat
  ge := by omega
  lt := by have := n.toNat_lt; omega

def toUInt64? (n : PackedInt) : Option UInt64 :=
  if 0 ≤ n.val then some (.ofNat n.val.toNat) else none

def toInt64? (n : PackedInt) : Option Int64 :=
  if n.val < 2 ^ 63 then some (.ofInt n.val) else none

def isNegative (n : PackedInt) : Bool := n.val < 0

end PackedInt

/-- A MessagePack value. -/
inductive Packed where
  | nil
  | bool (b : Bool)
  | int (n : PackedInt)
  | float32 (x : Binary32)
  | float64 (x : Binary64)
  | str (text : String)
  | bin (data : Bytes)
  | array (items : List Packed)
  | map (entries : List (Packed × Packed))
  | ext (type : Int8) (data : Bytes)

instance : Inhabited Packed := ⟨.nil⟩

namespace Packed

inductive Kind where
  | nil
  | bool
  | int
  | float
  | str
  | bin
  | array
  | map
  | ext
  deriving DecidableEq

def Kind.name : Kind → String
  | .nil => "nil"
  | .bool => "bool"
  | .int => "int"
  | .float => "float"
  | .str => "str"
  | .bin => "bin"
  | .array => "array"
  | .map => "map"
  | .ext => "ext"

def kind : Packed → Kind
  | .nil => .nil
  | .bool _ => .bool
  | .int _ => .int
  | .float32 _ | .float64 _ => .float
  | .str _ => .str
  | .bin _ => .bin
  | .array _ => .array
  | .map _ => .map
  | .ext .. => .ext

def isNil : Packed → Bool
  | .nil => true
  | _ => false

def bool? : Packed → Option Bool
  | .bool b => some b
  | _ => none

def int64? : Packed → Option Int64
  | .int n => n.toInt64?
  | _ => none

def uint64? : Packed → Option UInt64
  | .int n => n.toUInt64?
  | _ => none

def float? : Packed → Option Binary64
  | .float32 x => some (.ofBinary32 x)
  | .float64 x => some x
  | _ => none

/-- Text content; binary payloads that hold well-formed UTF-8 count as text. -/
def text? : Packed → Option String
  | .str text => some text
  | .bin data => data.toText?
  | _ => none

def array? : Packed → Option (List Packed)
  | .array items => some items
  | _ => none

def map? : Packed → Option (List (Packed × Packed))
  | .map entries => some entries
  | _ => none

def ofNat (n : Nat) : Packed := .int (.ofUInt64 (.ofNat n))

def ofInt (n : Int) : Packed := .int (.ofInt64 (.ofInt n))

mutual

/-- Equality of contents: floats of one width compare as numbers, everything else as itself. -/
def same : Packed → Packed → Bool
  | .nil, .nil => true
  | .bool a, .bool b => a == b
  | .int a, .int b => a == b
  | .float32 a, .float32 b => a.same b
  | .float64 a, .float64 b => a.same b
  | .str a, .str b => a == b
  | .bin a, .bin b => a == b
  | .array a, .array b => sameItems a b
  | .map a, .map b => sameEntries a b
  | .ext s a, .ext t b => s == t && a == b
  | _, _ => false

def sameItems : List Packed → List Packed → Bool
  | [], [] => true
  | a :: as, b :: bs => same a b && sameItems as bs
  | _, _ => false

def sameEntries : List (Packed × Packed) → List (Packed × Packed) → Bool
  | [], [] => true
  | (k, a) :: as, (l, b) :: bs => same k l && same a b && sameEntries as bs
  | _, _ => false

end

end Packed

end PackRpc
