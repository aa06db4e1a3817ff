import PackRpc.Json.Basic
import PackRpc.Descriptor.Encoding
import PackRpc.Text.Integer
/-!
# Arguments in JSON

A descriptor guides how JSON becomes a value, where JSON has no form of its own: text and arrays of bytes
become raw values, objects become records in the order of the fields, and the names of members become the
keys of maps. All else is taken as it is and left for encoding to check.
-/
namespace PackRpc

inductive ArgumentError where
  | notByte (item : Json)
  | missingField (record field : String)
  | unknownField (record field : String)
  | badKey (key : String) (signed : Bool)

def ArgumentError.message : ArgumentError → String
  | notByte item => "raw byte out of range: " ++ item.text
  | missingField record field => record ++ " is missing field " ++ field
  | unknownField record field => record ++ " has no field " ++ field
  | badKey key signed =>
    "map key " ++ Text.quoted key ++ " is not an " ++ (if signed then "integer" else "unsigned integer")

namespace Json

mutual

/-- The value that JSON stands for when nothing is declared. -/
def toValue : Json → Value
  | .null => .nil
  | .bool b => .bool b
  | .int n =>
    match n.toInt64? with
    | some m => .int m
    | none => .uint (.ofNat n.val.toNat)
  | .float x => .float x
  | .string text => .string text
  | .array items => .seq (toValues items)
  | .object members => .map (toMembers members)

def toValues : List Json → List Value
  | [] => []
  | item :: items => toValue item :: toValues items

def toMembers : List (String × Json) → List (Value × Value)
  | [] => []
  | (name, item) :: members => (.string name, toValue item) :: toMembers members

end

def byte? : Json → Option UInt8
  | .int n => if 0 ≤ n.val ∧ n.val < 256 then some (.ofNat n.val.toNat) else none
  | _ => none

def toBytes : List Json → Except ArgumentError Bytes
  | [] => .ok []
  | item :: items =>
    match byte? item with
    | none => .error (.notByte item)
    | some b => (toBytes items).map (b :: ·)

/-- A value of a record type: a record if the values fit it, and else the sequence of them. -/
def recordValue (t : RecordType) (values : List Value) : Value :=
  match t.record values with
  | .ok v => v
  | .error _ => .seq values

def eachItem {α β ε : Type} (f : α → Except ε β) : List α → Except ε (List β)
  | [] => .ok []
  | a :: as =>
    match f a with
    | .error e => .error e
    | .ok b =>
      match eachItem f as with
      | .error e => .error e
      | .ok bs => .ok (b :: bs)

def without (name : String) (members : List (String × Json)) : List (String × Json) :=
  members.filter (·.1 != name)

/-- The key of a map that the name of a member stands for; `convert` is what becomes of other JSON under
the descriptor. -/
def toKey (convert : Json → Except ArgumentError Value) (d : Descriptor) (name : String) :
    Except ArgumentError Value :=
  match d with
  | .int true _ =>
    match Text.signed? 64 name.toList with
    | some n => .ok (.int (.ofInt n))
    | none => .error (.badKey name true)
  | .int false _ =>
    match Text.unsigned? 64 name.toList with
    | some n => .ok (.uint (.ofNat n))
    | none => .error (.badKey name false)
  | _ => convert (.string name)

mutual

def toArgument : Descriptor → Json → Except ArgumentError Value
  | .nullable inner, j =>
    match j with
    | .null => .ok .nil
    | j => toArgument inner j
  | .raw, .string text => .ok (.binary (.ofText text))
  | .raw, .array items => (toBytes items).map Value.binary
  | .list element, .array items => (eachItem (toArgument element) items).map Value.seq
  | .tuple types, .array items =>
    if types.length = items.length then (toArguments types items).map Value.seq
    else .ok (.seq (toValues items))
  | .record name fields, .array items =>
    if fields.length = items.length then
      (toFields fields items).map (recordValue ⟨name, fields⟩)
    else .ok (.seq (toValues items))
  | .record name fields, .object members =>
    (ofMembers name fields members).map (recordValue ⟨name, fields⟩)
  | .map key value, .object members =>
    (eachItem (fun m =>
      match toKey (toArgument key) key m.1 with
      | .error e => .error e
      | .ok k => (toArgument value m.2).map (k, ·)) members).map Value.map
  | _, j => .ok j.toValue

def toArguments : List Descriptor → List Json → Except ArgumentError (List Value)
  | d :: ds, j :: js =>
    match toArgument d j with
    | .error e => .error e
    | .ok v => (toArguments ds js).map (v :: ·)
  | _, _ => .ok []

def toFields : List (String × Descriptor) → List Json → Except ArgumentError (List Value)
  | (_, d) :: fields, j :: js =>
    match toArgument d j with
    | .error e => .error e
    | .ok v => (toFields fields js).map (v :: ·)
  | _, _ => .ok []

/-- The values of fields among the members of an object, all of which have to be used. -/
def ofMembers (record : String) :
    List (String × Descriptor) → List (String × Json) → Except ArgumentError (List Value)
  | [], members =>
    match members with
    | [] => .ok []
    | (extra, _) :: _ => .error (.unknownField record extra)
  | (field, d) :: fields, members =>
    match members.lookup field with
    | none => .error (.missingField record field)
    | some j =>
      match toArgument d j with
      | .error e => .error e
      | .ok v => (ofMembers record fields (without field members)).map (v :: ·)

end

end Json

end PackRpc
