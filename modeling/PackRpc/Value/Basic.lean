import PackRpc.Descriptor.Basic
import PackRpc.Binary.Basic
import PackRpc.Bytes
/-!
# Values

Values are what callers hold before encoding and after decoding. Equality compares what they denote:
integers by their number whatever their type, a float and an integer when they are exactly the same
number, a record and a sequence by their items, and two records also by their types.
-/
namespace PackRpc

inductive Value where
  | nil
  | bool (b : Bool)
  | int (n : Int64)
  | uint (n : UInt64)
  | float (x : Binary64)
  | string (text : String)
  | binary (data : Bytes)
  | seq (items : List Value)
  | map (entries : List (Value × Value))
  | record (type : RecordType) (values : List Value)

instance : Inhabited Value := ⟨.nil⟩

namespace Value

inductive Kind where
  | nil
  | bool
  | int
  | float
  | string
  | raw
  | sequence
  | map
  | record
  deriving DecidableEq

def Kind.name : Kind → String
  | nil => "nil"
  | bool => "bool"
  | int => "int"
  | float => "float"
  | string => "string"
  | raw => "raw"
  | sequence => "sequence"
  | map => "map"
  | record => "record"

def kind : Value → Kind
  | .nil => .nil
  | .bool _ => .bool
  | .int _ | .uint _ => .int
  | .float _ => .float
  | .string _ => .string
  | .binary _ => .raw
  | .seq _ => .sequence
  | .map _ => .map
  | .record .. => .record

def isNil : Value → Bool
  | .nil => true
  | _ => false

def bool? : Value → Option Bool
  | .bool b => some b
  | _ => none

def integer? : Value → Option Int
  | .int n => some n.toInt
  | .uint n => some n.toNat
  | _ => none

def int64? (v : Value) : Option Int64 :=
  v.integer?.bind fun n => if -2 ^ 63 ≤ n ∧ n < 2 ^ 63 then some (.ofInt n) else none

def uint64? (v : Value) : Option UInt64 :=
  v.integer?.bind fun n => if 0 ≤ n ∧ n < 2 ^ 64 then some (.ofNat n.toNat) else none

/-- A number as a float; an integer goes to the nearest one. -/
def float? : Value → Option Binary64
  | .float x => some x
  | v => v.integer?.map Binary64.ofInt

def text? : Value → Option String
  | .string text => some text
  | _ => none

def recordType? : Value → Option RecordType
  | .record type _ => some type
  | _ => none

/-- Equality of two values neither of which has items. -/
def sameLeaf (a b : Value) : Bool :=
  match a, b with
  | .nil, .nil => true
  | .bool x, .bool y => x == y
  | .float x, .float y => x.same y
  | .string x, .string y => x == y
  | .binary x, .binary y => x == y
  | .float x, b => b.integer?.isSome && x.toInt? == b.integer?
  | a, .float y => a.integer?.isSome && y.toInt? == a.integer?
  | a, b => a.integer?.isSome && a.integer? == b.integer?

mutual

def same : Value → Value → Bool
  | .seq a, .seq b => sameItems a b
  | .seq a, .record _ b => sameItems a b
  | .record _ a, .seq b => sameItems a b
  | .record s a, .record t b => s == t && sameItems a b
  | .map a, .map b => sameEntries a b
  | a, b => sameLeaf a b

def sameItems : List Value → List Value → Bool
  | [], [] => true
  | a :: as, b :: bs => same a b && sameItems as bs
  | _, _ => false

def sameEntries : List (Value × Value) → List (Value × Value) → Bool
  | [], [] => true
  | (k, a) :: as, (l, b) :: bs => same k l && same a b && sameEntries as bs
  | _, _ => false

end

def field? : Value → String → Option Value
  | .record type values, field => (type.position? field).bind fun i => values[i]?
  | _, _ => none

end Value

end PackRpc
