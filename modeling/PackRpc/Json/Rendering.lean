import PackRpc.Json.Basic
import PackRpc.OrderedMap
import PackRpc.Value.Text

namespace PackRpc.Value

/-- An object whose members are listed by name; of equal names the last one stays. -/
def toObject (members : List (String × Json)) : Json :=
  .object (OrderedMap.ofList members).entries

def ofFloat (x : Binary64) : Json :=
  match x.classify with
  | .finite .. => .float x
  | _ => .null

mutual

def toJson : Value → Json
  | .nil => .null
  | .bool b => .bool b
  | .int n => .int (.ofInt64 n)
  | .uint n => .int (.ofUInt64 n)
  | .float x => ofFloat x
  | .string text => .string text
  | .binary data => .array (data.map fun b => .ofNat b.toNat)
  | .seq items => .array (itemsToJson items)
  | .map entries => toObject (entriesToJson entries)
  | .record type values => toObject (fieldsToJson type.fields values)

def itemsToJson : List Value → List Json
  | [] => []
  | item :: items => toJson item :: itemsToJson items

def entriesToJson : List (Value × Value) → List (String × Json)
  | [] => []
  | (key, value) :: entries => (key.text, toJson value) :: entriesToJson entries

def fieldsToJson : List (String × Descriptor) → List Value → List (String × Json)
  | field :: fields, value :: values => (field.1, toJson value) :: fieldsToJson fields values
  | _, _ => []

end

end PackRpc.Value
