import PackRpc.Descriptor.Encoding

namespace PackRpc

namespace Descriptor

mutual

def decode : Descriptor → Packed → Except DecodeError Value
  | .bool, .bool b => .ok (.bool b)
  | .int signed width, .int n =>
    if width.holds signed n.val then
      .ok (if signed then .int (.ofInt n.val) else .uint (.ofNat n.val.toNat))
    else .error (.here (.outOfRange n.val signed width))
  | .float, .float32 x => .ok (.float (.ofBinary32 x))
  | .float, .float64 x => .ok (.float x)
  | .string, .str text => .ok (.string text)
  | .string, .bin data =>
    match data.toText? with
    | some text => .ok (.string text)
    | none => .error (.here .invalidUtf8)
  | .raw, .bin data => .ok (.binary data)
  | .raw, .str text => .ok (.binary (.ofText text))
  | .tuple items, .array ws =>
    ofArity .arityMismatch items.length ws.length <| (decodeItems 0 items ws).map Value.seq
  | .record name fields, .array ws =>
    ofArity .arityMismatch fields.length ws.length <|
      (decodeFields fields ws).map (Value.record ⟨name, fields⟩)
  | .nullable inner, w => if w.isNil then .ok .nil else decode inner w
  | .list element, .array ws => (mapItems (decode element) 0 ws).map Value.seq
  | .map key value, .map entries =>
    (mapEntries (decode key) (decode value) 0 entries).map Value.map
  | .object, w => .ok (.ofPacked w)
  | .unit, _ => .ok .nil
  | d, w => .error (.here (.kindMismatch d w.kind))

/-- Decodes values one by one, as far as there are descriptors; the first stands at place `i`. -/
def decodeItems (i : Nat) : List Descriptor → List Packed → Except DecodeError (List Value)
  | d :: ds, w :: ws =>
    match decode d w with
    | .error e => .error (e.within (.index i))
    | .ok v =>
      match decodeItems (i + 1) ds ws with
      | .error e => .error e
      | .ok vs => .ok (v :: vs)
  | _, _ => .ok []

def decodeFields : List (String × Descriptor) → List Packed → Except DecodeError (List Value)
  | (name, d) :: fields, w :: ws =>
    match decode d w with
    | .error e => .error (e.within (.field name))
    | .ok v =>
      match decodeFields fields ws with
      | .error e => .error e
      | .ok vs => .ok (v :: vs)
  | _, _ => .ok []

end

end Descriptor

end PackRpc
