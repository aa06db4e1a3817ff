import PackRpc.Power

namespace PackRpc

inductive IntWidth where
  | w8
  | w16
  | w32
  | w64
  deriving DecidableEq

namespace IntWidth

def bytes : IntWidth → Nat
  | w8 => 1
  | w16 => 2
  | w32 => 4
  | w64 => 8

def bits (w : IntWidth) : Nat := w.bytes * 8

def ofBytes? : Nat → Option IntWidth
  | 1 => some w8
  | 2 => some w16
  | 4 => some w32
  | 8 => some w64
  | _ => none

def least (w : IntWidth) (signed : Bool) : Int :=
  if signed then -2 ^ (w.bits - 1) else 0

def greatest (w : IntWidth) (signed : Bool) : Int :=
  if signed then 2 ^ (w.bits - 1) - 1 else 2 ^ w.bits - 1

def holds (w : IntWidth) (signed : Bool) (n : Int) : Bool :=
  w.least signed ≤ n ∧ n ≤ w.greatest signed

end IntWidth

/-- The declared shape of a value. -/
inductive Descriptor where
  | bool
  | int (signed : Bool) (width : IntWidth)
  | float
  /-- Text. -/
  | string
  /-- Bytes that mean nothing here. -/
  | raw
  /-- As many values as there are shapes, in order. -/
  | tuple (items : List Descriptor)
  | record (name : String) (fields : List (String × Descriptor))
  /-- Nil, or a value of the inner shape. -/
  | nullable (inner : Descriptor)
  | list (element : Descriptor)
  | map (key value : Descriptor)
  /-- Any value, unchecked. -/
  | object
  /-- No value: written as nil, and whatever arrives is ignored. -/
  | unit

instance : Inhabited Descriptor := ⟨.unit⟩

namespace Descriptor

mutual

/-- Whether two descriptors are built the same way. -/
def same : Descriptor → Descriptor → Bool
  | .bool, .bool => true
  | .int s v, .int t w => s == t && v == w
  | .float, .float => true
  | .string, .string => true
  | .raw, .raw => true
  | .tuple a, .tuple b => sameItems a b
  | .record m a, .record n b => m == n && sameFields a b
  | .nullable a, .nullable b => same a b
  | .list a, .list b => same a b
  | .map k a, .map l b => same k l && same a b
  | .object, .object => true
  | .unit, .unit => true
  | _, _ => false

def sameItems : List Descriptor → List Descriptor → Bool
  | [], [] => true
  | a :: as, b :: bs => same a b && sameItems as bs
  | _, _ => false

def sameFields : List (String × Descriptor) → List (String × Descriptor) → Bool
  | [], [] => true
  | (m, a) :: as, (n, b) :: bs => m == n && same a b && sameFields as bs
  | _, _ => false

end

mutual

theorem same_iff (a b : Descriptor) : same a b = true ↔ a = b := by
  cases a <;> cases b <;>
    simp [same, sameItems_iff, sameFields_iff, same_iff]

theorem sameItems_iff (as bs : List Descriptor) : sameItems as bs = true ↔ as = bs := by
  cases as <;> cases bs <;> simp [sameItems, sameItems_iff, same_iff]

theorem sameFields_iff (as bs : List (String × Descriptor)) :
    sameFields as bs = true ↔ as = bs := by
  match as, bs with
  | [], [] => simp [sameFields]
  | [], _ :: _ => simp [sameFields]
  | _ :: _, [] => simp [sameFields]
  | (m, a) :: as, (n, b) :: bs =>
    simp [sameFields, sameFields_iff as bs, same_iff a b]

end

instance : DecidableEq Descriptor := fun a b =>
  decidable_of_iff _ (same_iff a b)

def isUnit : Descriptor → Bool
  | .unit => true
  | _ => false

end Descriptor

/-- A record type: its name and its fields in order. The order is what the wire shows; the names are
for people. -/
structure RecordType where
  name : String
  fields : List (String × Descriptor)
  deriving DecidableEq, Inhabited

namespace RecordType

def descriptor (t : RecordType) : Descriptor := .record t.name t.fields

def size (t : RecordType) : Nat := t.fields.length

def fieldNames (t : RecordType) : List String := t.fields.map Prod.fst

def fieldTypes (t : RecordType) : List Descriptor := t.fields.map Prod.snd

def position? (t : RecordType) (field : String) : Option Nat :=
  t.fieldNames.findIdx? (· == field)

/-- The shape of the values without the names. -/
def toTuple (t : RecordType) : Descriptor := .tuple t.fieldTypes

end RecordType

end PackRpc
