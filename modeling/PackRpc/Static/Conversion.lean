import PackRpc.Static.Basic
import PackRpc.OrderedMap
import PackRpc.Descriptor.Decoding
/-!
# Static values on the wire

A static value becomes a value of its type's descriptor, and such a value becomes a static value again.
`ofValue` is more lenient than decoding by the descriptor: a unit takes any value and a record any other
of as many fields.
-/
namespace PackRpc

namespace StaticValue

mutual

def toValue : StaticValue → Value
  | .bool b => .bool b
  | .int n => .int n
  | .uint n => .uint n
  | .float32 x => .float (.ofBinary32 x)
  | .float64 x => .float x
  | .text s => .string s
  | .bytes data => .binary data
  | .unit => .nil
  | .value v => v
  | .absent => .nil
  | .present x => toValue x
  | .list items => .seq (toValues items)
  | .orderedMap entries => .map (toValueEntries entries)
  | .hashMap entries => .map (toValueEntries entries)
  | .tuple items => .seq (toValues items)
  | .record type values => .record type (toValues values)

def toValues : List StaticValue → List Value
  | [] => []
  | item :: items => toValue item :: toValues items

def toValueEntries : List (StaticValue × StaticValue) → List (Value × Value)
  | [] => []
  | (k, x) :: entries => (toValue k, toValue x) :: toValueEntries entries

end

/-- Inserts entries one after another into a map of any order: of equal keys, the last one stays, in the
place of the first. -/
def collect (entries : List (StaticValue × StaticValue)) : List (StaticValue × StaticValue) :=
  entries.foldl (fun done e =>
    if done.any fun d => order e.1 d.1 == .eq then
      done.map fun d => if order e.1 d.1 == .eq then (d.1, e.2) else d
    else done ++ [e]) []

end StaticValue

namespace StaticType

def unexpected {α : Type} (t : StaticType) (v : Value) : Except DecodeError α :=
  .error (.here (.unexpectedValue t.descriptor v.kind))

mutual

def ofValue : StaticType → Value → Except DecodeError StaticValue
  | .bool, .bool b => .ok (.bool b)
  | .int signed width, v =>
    match v.integer? with
    | none => unexpected (.int signed width) v
    | some n =>
      if width.holds signed n then
        .ok (if signed then .int (.ofInt n) else .uint (.ofNat n.toNat))
      else .error (.here (.outOfRange n signed width))
  | .float32, v =>
    match v.float? with
    | some x => .ok (.float32 x.toBinary32)
    | none => unexpected .float32 v
  | .float64, v =>
    match v.float? with
    | some x => .ok (.float64 x)
    | none => unexpected .float64 v
  | .text, .string s => .ok (.text s)
  | .bytes, .binary data => .ok (.bytes data)
  | .unit, _ => .ok .unit
  | .value, v => .ok (.value v)
  | .option inner, v => if v.isNil then .ok .absent else (ofValue inner v).map StaticValue.present
  | .list element, .seq vs => (mapItems (ofValue element) 0 vs).map StaticValue.list
  | .orderedMap k t, .map entries =>
    (mapEntries (ofValue k) (ofValue t) 0 entries).map fun es =>
      .orderedMap (OrderedMap.ofList es).entries
  | .hashMap k t, .map entries =>
    (mapEntries (ofValue k) (ofValue t) 0 entries).map fun es =>
      .hashMap (StaticValue.collect es)
  | .tuple items, .seq vs =>
    Descriptor.ofArity .arityMismatch items.length vs.length <|
      (ofValues 0 items vs).map StaticValue.tuple
  | .record name fields, .seq vs =>
    Descriptor.ofArity .arityMismatch fields.length vs.length <|
      (ofFields fields vs).map (StaticValue.record ⟨name, fieldDescriptors fields⟩)
  | .record name fields, .record _ vs =>
    Descriptor.ofArity .arityMismatch fields.length vs.length <|
      (ofFields fields vs).map (StaticValue.record ⟨name, fieldDescriptors fields⟩)
  | t, v => unexpected t v

/-- Takes values one by one, as far as there are types; the first stands at place `i`. -/
def ofValues (i : Nat) : List StaticType → List Value → Except DecodeError (List StaticValue)
  | t :: ts, v :: vs =>
    match ofValue t v with
    | .error e => .error (e.within (.index i))
    | .ok x =>
      match ofValues (i + 1) ts vs with
      | .error e => .error e
      | .ok xs => .ok (x :: xs)
  | _, _ => .ok []

def ofFields :
    List (String × StaticType) → List Value → Except DecodeError (List StaticValue)
  | (name, t) :: fields, v :: vs =>
    match ofValue t v with
    | .error e => .error (e.within (.field name))
    | .ok x =>
      match ofFields fields vs with
      | .error e => .error e
      | .ok xs => .ok (x :: xs)
  | _, _ => .ok []

end

def encode (t : StaticType) (x : StaticValue) : Except EncodeError Packed :=
  t.descriptor.encode x.toValue

/-- Reads a packed value as one of the type: by its descriptor first, and then into the type. -/
def decode (t : StaticType) (w : Packed) : Except DecodeError StaticValue :=
  match t.descriptor.decode w with
  | .ok v => t.ofValue v
  | .error e => .error e

end StaticType

end PackRpc
