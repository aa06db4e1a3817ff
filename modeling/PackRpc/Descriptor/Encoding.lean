import PackRpc.Descriptor.Error
import PackRpc.Value.Untyped

namespace PackRpc

/-- Applies a fallible function to the items of a list, the first of them being number `i`; an error is
located at its item. -/
def mapItems {α β C : Type} (f : α → Except (Located C) β) (i : Nat) :
    List α → Except (Located C) (List β)
  | [] => .ok []
  | a :: as =>
    match f a with
    | .error e => .error (e.within (.index i))
    | .ok b =>
      match mapItems f (i + 1) as with
      | .error e => .error e
      | .ok bs => .ok (b :: bs)

/-- Applies fallible functions to the keys and the values of entries, the first of them being number
`i`. -/
def mapEntries {α β C : Type} (f g : α → Except (Located C) β) (i : Nat) :
    List (α × α) → Except (Located C) (List (β × β))
  | [] => .ok []
  | (k, v) :: entries =>
    match f k with
    | .error e => .error (e.within (.key i))
    | .ok key =>
      match g v with
      | .error e => .error (e.within (.value i))
      | .ok value =>
        match mapEntries f g (i + 1) entries with
        | .error e => .error e
        | .ok rest => .ok ((key, value) :: rest)

namespace Descriptor

/-- The items of a sequence, whether or not it is known to be a record of the given type. -/
def recordItems (name : String) (fields : List (String × Descriptor)) :
    Value → Except EncodeError (List Value)
  | .record type values =>
    if type = ⟨name, fields⟩ then .ok values
    else .error (.here (.recordMismatch name type.name))
  | .seq items => .ok items
  | v => .error (.here (.typeMismatch (.record name fields) v.kind))

/-- Goes on if there are as many values as places for them. -/
def ofArity {α C : Type} (mismatch : Nat → Nat → C) (expected found : Nat)
    (next : Except (Located C) α) : Except (Located C) α :=
  if expected = found then next else .error (.here (mismatch expected found))

mutual

def encode : Descriptor → Value → Except EncodeError Packed
  | .bool, .bool b => .ok (.bool b)
  | .int signed width, v =>
    match v.integer? with
    | none => .error (.here (.typeMismatch (.int signed width) v.kind))
    | some n =>
      if width.holds signed n then .ok v.toPacked
      else .error (.here (.outOfRange n signed width))
  | .float, v =>
    match v.float? with
    | some x => .ok (.float64 x)
    | none => .error (.here (.typeMismatch .float v.kind))
  | .string, .string text => .ok (.str text)
  | .raw, .binary data => .ok (.bin data)
  | .tuple items, .seq values =>
    ofArity .arityMismatch items.length values.length <|
      (encodeItems 0 items values).map Packed.array
  | .record name fields, v =>
    match recordItems name fields v with
    | .error e => .error e
    | .ok values =>
      ofArity .arityMismatch fields.length values.length <|
        (encodeFields fields values).map Packed.array
  | .nullable inner, v => if v.isNil then .ok .nil else encode inner v
  | .list element, .seq values => (mapItems (encode element) 0 values).map Packed.array
  | .map key value, .map entries =>
    (mapEntries (encode key) (encode value) 0 entries).map Packed.map
  | .object, v => .ok v.toPacked
  | .unit, .nil => .ok .nil
  | d, v => .error (.here (.typeMismatch d v.kind))

def encodeItems (i : Nat) : List Descriptor → List Value → Except EncodeError (List Packed)
  | d :: ds, v :: vs =>
    match encode d v with
    | .error e => .error (e.within (.index i))
    | .ok w =>
      match encodeItems (i + 1) ds vs with
      | .error e => .error e
      | .ok ws => .ok (w :: ws)
  | _, _ => .ok []

def encodeFields : List (String × Descriptor) → List Value → Except EncodeError (List Packed)
  | (name, d) :: fields, v :: vs =>
    match encode d v with
    | .error e => .error (e.within (.field name))
    | .ok w =>
      match encodeFields fields vs with
      | .error e => .error e
      | .ok ws => .ok (w :: ws)
  | _, _ => .ok []

end

end Descriptor

namespace RecordType

/-- A record of the type, if each value fits its field. -/
def record (t : RecordType) (values : List Value) : Except EncodeError Value :=
  match t.descriptor.encode (.seq values) with
  | .ok _ => .ok (.record t values)
  | .error e => .error e

end RecordType

end PackRpc
