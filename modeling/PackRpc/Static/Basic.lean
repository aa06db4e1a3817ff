import PackRpc.Value.Basic
/-!
# Static types

A static type is a type that a program fixes when it is written, in place of a descriptor that it reads
at run time. Its values are built from words, texts, options, lists, finite maps, tuples and records.
-/
namespace PackRpc

inductive StaticType where
  | bool
  | int (signed : Bool) (width : IntWidth)
  | float32
  | float64
  | text
  | bytes
  | unit
  /-- Values of any shape. -/
  | value
  | option (inner : StaticType)
  | list (element : StaticType)
  /-- Finite maps that are listed by key. -/
  | orderedMap (key value : StaticType)
  /-- Finite maps that are listed in any order. -/
  | hashMap (key value : StaticType)
  | tuple (items : List StaticType)
  | record (name : String) (fields : List (String × StaticType))

instance : Inhabited StaticType := ⟨.unit⟩

namespace StaticType

mutual

def descriptor : StaticType → Descriptor
  | .bool => .bool
  | .int signed width => .int signed width
  | .float32 => .float
  | .float64 => .float
  | .text => .string
  | .bytes => .raw
  | .unit => .unit
  | .value => .object
  | .option inner => .nullable (descriptor inner)
  | .list element => .list (descriptor element)
  | .orderedMap k v => .map (descriptor k) (descriptor v)
  | .hashMap k v => .map (descriptor k) (descriptor v)
  | .tuple items => .tuple (descriptors items)
  | .record name fields => .record name (fieldDescriptors fields)

def descriptors : List StaticType → List Descriptor
  | [] => []
  | item :: items => descriptor item :: descriptors items

def fieldDescriptors : List (String × StaticType) → List (String × Descriptor)
  | [] => []
  | (name, type) :: fields => (name, descriptor type) :: fieldDescriptors fields

end

end StaticType

inductive StaticValue where
  | bool (b : Bool)
  | int (n : Int64)
  | uint (n : UInt64)
  | float32 (x : Binary32)
  | float64 (x : Binary64)
  | text (s : String)
  | bytes (data : Bytes)
  | unit
  | value (v : Value)
  | absent
  | present (x : StaticValue)
  | list (items : List StaticValue)
  | orderedMap (entries : List (StaticValue × StaticValue))
  | hashMap (entries : List (StaticValue × StaticValue))
  | tuple (items : List StaticValue)
  | record (type : RecordType) (values : List StaticValue)

instance : Inhabited StaticValue := ⟨.unit⟩

namespace StaticValue

mutual

/-- The order of keys. Values that are no keys of one type are not told apart. -/
def order : StaticValue → StaticValue → Ordering
  | .bool a, .bool b => compare a.toNat b.toNat
  | .int a, .int b => compare a.toInt b.toInt
  | .uint a, .uint b => compare a.toNat b.toNat
  | .text a, .text b => compare a b
  | .bytes a, .bytes b => compare (a.map UInt8.toNat) (b.map UInt8.toNat)
  | .absent, .present _ => .lt
  | .present _, .absent => .gt
  | .present a, .present b => order a b
  | .list a, .list b => orderItems a b
  | .tuple a, .tuple b => orderItems a b
  | .record _ a, .record _ b => orderItems a b
  | .orderedMap a, .orderedMap b => orderEntries a b
  | _, _ => .eq

def orderItems : List StaticValue → List StaticValue → Ordering
  | [], [] => .eq
  | [], _ :: _ => .lt
  | _ :: _, [] => .gt
  | a :: as, b :: bs => (order a b).then (orderItems as bs)

def orderEntries :
    List (StaticValue × StaticValue) → List (StaticValue × StaticValue) → Ordering
  | [], [] => .eq
  | [], _ :: _ => .lt
  | _ :: _, [] => .gt
  | (k, a) :: as, (l, b) :: bs => ((order k l).then (order a b)).then (orderEntries as bs)

end

instance : Ord StaticValue := ⟨order⟩

mutual

/-- Equality of values of one type: floats compare as numbers, and the order in which a map of any order
is listed does not count. -/
def same : StaticValue → StaticValue → Bool
  | .bool a, .bool b => a == b
  | .int a, .int b => a == b
  | .uint a, .uint b => a == b
  | .float32 a, .float32 b => a.same b
  | .float64 a, .float64 b => a.same b
  | .text a, .text b => a == b
  | .bytes a, .bytes b => a == b
  | .unit, .unit => true
  | .value a, .value b => a.same b
  | .absent, .absent => true
  | .present a, .present b => same a b
  | .list a, .list b => sameItems a b
  | .tuple a, .tuple b => sameItems a b
  | .record s a, .record t b => s == t && sameItems a b
  | .orderedMap a, .orderedMap b => sameEntries a b
  | .hashMap a, .hashMap b => a.length == b.length && agree a b
  | _, _ => false

def sameItems : List StaticValue → List StaticValue → Bool
  | [], [] => true
  | a :: as, b :: bs => same a b && sameItems as bs
  | _, _ => false

def sameEntries :
    List (StaticValue × StaticValue) → List (StaticValue × StaticValue) → Bool
  | [], [] => true
  | (k, a) :: as, (l, b) :: bs => same k l && same a b && sameEntries as bs
  | _, _ => false

/-- Whether each entry has one with the same key and value among others. -/
def agree : List (StaticValue × StaticValue) → List (StaticValue × StaticValue) → Bool
  | [], _ => true
  | (k, a) :: as, others =>
    match others.find? fun e => order k e.1 == .eq with
    | some (_, b) => same a b && agree as others
    | none => false

end

end StaticValue

end PackRpc
