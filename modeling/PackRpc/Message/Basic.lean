import PackRpc.Packed.Text
/-!
# Messages

A message is an array: `[0, id, method, params]` asks, `[1, id, error, result]` answers, and
`[2, method, params]` tells without asking for an answer. `toPacked` writes a message and `ofPacked`
reads one; a method name may also arrive as bytes that spell it.
-/
namespace PackRpc

inductive Message where
  | request (id : UInt32) (method : String) (params : List Packed)
  | response (id : UInt32) (error result : Packed)
  | notification (method : String) (params : List Packed)

structure Request where
  id : UInt32
  method : String
  params : List Packed

inductive EnvelopeError where
  | notArray (found : Packed.Kind)
  | noType
  | wrongLength (what : String) (expected found : Nat)
  | unknownType (type : UInt64)
  | badId (found : Packed)
  | methodNotText
  | methodNotString (found : Packed.Kind)
  | paramsNotArray (found : Packed.Kind)

def EnvelopeError.message : EnvelopeError → String
  | .notArray found => "expected array, found " ++ found.name
  | .noType => "missing or non-integer message type"
  | .wrongLength what expected found =>
    what ++ " must have " ++ toString expected ++ " elements, found " ++ toString found
  | .unknownType type => "unknown message type " ++ toString type.toNat
  | .badId found => "invalid msgid " ++ found.render
  | .methodNotText => "method name is not utf-8"
  | .methodNotString found => "method name must be a string, found " ++ found.name
  | .paramsNotArray found => "params must be an array, found " ++ found.name

namespace Message

def ok (id : UInt32) (result : Packed) : Message := .response id .nil result

def err (id : UInt32) (error : Packed) : Message := .response id error .nil

/-- The answer to a request, from what became of it. -/
def ofOutcome (id : UInt32) : Except Packed Packed → Message
  | .ok result => ok id result
  | .error error => err id error

/-- What an answer says: its error, unless that is nil. -/
def outcome (error result : Packed) : Except Packed Packed :=
  if error.isNil then .ok result else .error error

def toPacked : Message → Packed
  | .request id method params => .array [.ofNat 0, .ofNat id.toNat, .str method, .array params]
  | .response id error result => .array [.ofNat 1, .ofNat id.toNat, error, result]
  | .notification method params => .array [.ofNat 2, .str method, .array params]

def idOf (v : Packed) : Except EnvelopeError UInt32 :=
  match v.uint64? with
  | some n => if n.toNat < 2 ^ 32 then .ok (.ofNat n.toNat) else .error (.badId v)
  | none => .error (.badId v)

def methodOf : Packed → Except EnvelopeError String
  | .str name => .ok name
  | .bin data =>
    match data.toText? with
    | some name => .ok name
    | none => .error .methodNotText
  | v => .error (.methodNotString v.kind)

def paramsOf : Packed → Except EnvelopeError (List Packed)
  | .array params => .ok params
  | v => .error (.paramsNotArray v.kind)

def ofItems (type : UInt64) (items : List Packed) : Except EnvelopeError Message :=
  if type = 0 then
    match items with
    | [_, id, method, params] => do
      return .request (← idOf id) (← methodOf method) (← paramsOf params)
    | _ => .error (.wrongLength "request" 4 items.length)
  else if type = 1 then
    match items with
    | [_, id, error, result] => do
      return .response (← idOf id) error result
    | _ => .error (.wrongLength "response" 4 items.length)
  else if type = 2 then
    match items with
    | [_, method, params] => do
      return .notification (← methodOf method) (← paramsOf params)
    | _ => .error (.wrongLength "notification" 3 items.length)
  else .error (.unknownType type)

def ofPacked : Packed → Except EnvelopeError Message
  | .array items =>
    match items.head?.bind Packed.uint64? with
    | some type => ofItems type items
    | none => .error .noType
  | v => .error (.notArray v.kind)

end Message

end PackRpc
