import PackRpc.Client.Error
import PackRpc.Config.Endpoint
import PackRpc.Static.Conversion
import PackRpc.Text.Quoted
/-!
# Clients

A client turns a call into one round trip: the parameters are the service name and the encoded arguments,
and the result is decoded by its declared type. The round trip is whatever the caller supplies, in any
monad.
-/
namespace PackRpc

/-- One round trip: a method with its parameters, and the time it may take. -/
abbrev Invoke (m : Type → Type) :=
  String → List Packed → Duration → m (Except InvokeError Packed)

structure Client where
  endpoint : Endpoint
  /-- Whether calls are made one after another. -/
  serialized : Bool := true

namespace Client

/-- The encoded arguments of a call, the first of them being number `i`. -/
def encodeArguments (method : String) (i : Nat) :
    List Value → List Descriptor → Except CallError (List Packed)
  | v :: vs, d :: ds =>
    match d.encode v with
    | .error e => .error (.encode method i d e)
    | .ok w =>
      match encodeArguments method (i + 1) vs ds with
      | .error e => .error e
      | .ok ws => .ok (w :: ws)
  | _, _ => .ok []

/-- The parameters of a call, the service name being the first. -/
def parameters (c : Client) (method : String) (args : List Value) (types : List Descriptor) :
    Except CallError (List Packed) :=
  if args.length ≠ types.length then .error (.invalidCall method types.length args.length)
  else (encodeArguments method 0 args types).map (Packed.str c.endpoint.name :: ·)

def outcome (method : String) (result : Descriptor) :
    Except InvokeError Packed → Except CallError Value
  | .error e => .error (.ofInvoke method e)
  | .ok w =>
    match result.decode w with
    | .ok v => .ok v
    | .error e => .error (.decode method result e)

section
variable {m : Type → Type} [Monad m]

def call (c : Client) (invoke : Invoke m) (method : String) (args : List Value)
    (types : List Descriptor) (result : Descriptor) : m (Except CallError Value) :=
  match c.parameters method args types with
  | .error e => pure (.error e)
  | .ok params => do
    let r ← invoke method params c.endpoint.timeout
    return outcome method result r

def asStatic (method : String) (t : StaticType) :
    Except CallError Value → Except CallError StaticValue
  | .error e => .error e
  | .ok v =>
    match t.ofValue v with
    | .ok x => .ok x
    | .error e => .error (.decode method t.descriptor e)

def callAs (c : Client) (invoke : Invoke m) (method : String) (args : List Value)
    (types : List Descriptor) (result : StaticType) : m (Except CallError StaticValue) := do
  let r ← c.call invoke method args types result.descriptor
  return asStatic method result r

end

def structural (c : Client) : String :=
  let e := c.endpoint
  "ClientBase \x7b endpoint: Endpoint \x7b host: " ++ Text.quoted e.host ++ ", port: " ++
    toString e.port.toNat ++ ", name: " ++ Text.quoted e.name ++ ", timeout: " ++ e.timeout.text ++
    " \x7d, serialized: " ++ toString c.serialized ++ " \x7d"

end Client

structure Method where
  name : String
  args : List StaticType
  result : StaticType

namespace Method

def call {m : Type → Type} [Monad m] (method : Method) (c : Client) (invoke : Invoke m)
    (args : List StaticValue) : m (Except CallError StaticValue) :=
  c.callAs invoke method.name (args.map StaticValue.toValue)
    (method.args.map StaticType.descriptor) method.result

end Method

/-! The calls that every server answers. -/
namespace Admin

def statusType : StaticType := .orderedMap .text (.orderedMap .text .text)

def getConfig : Method := ⟨"get_config", [], .text⟩
def save : Method := ⟨"save", [.text], .orderedMap .text .text⟩
def load : Method := ⟨"load", [.text], .bool⟩
def getStatus : Method := ⟨"get_status", [], statusType⟩
def getProxyStatus : Method := ⟨"get_proxy_status", [], statusType⟩
def clear : Method := ⟨"clear", [], .unit⟩
def doMix : Method := ⟨"do_mix", [], .bool⟩

def methods : List Method := [getConfig, save, load, getStatus, clear, doMix, getProxyStatus]

end Admin

end PackRpc
