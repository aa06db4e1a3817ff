import PackRpc.Descriptor.Error
import PackRpc.Packed.Text
import PackRpc.Transport.Error

namespace PackRpc

/-- What servers answer with when they do not know a method. -/
def unknownMethodCode : Nat := 1

/-- What servers answer with when arguments have not the declared types. -/
def typeMismatchCode : Nat := 2

inductive RemoteErrorKind where
  | unknownMethod
  | typeMismatch
  | application
  deriving DecidableEq

def RemoteErrorKind.text : RemoteErrorKind → String
  | unknownMethod => "unknown method"
  | typeMismatch => "type mismatch"
  | application => "application error"

/-- A method failed on the other side. What it answered with is kept as it came. -/
structure RemoteError where
  method : String
  payload : Packed

namespace RemoteError

def kind (e : RemoteError) : RemoteErrorKind :=
  match e.payload.uint64? with
  | some code =>
    if code.toNat = unknownMethodCode then .unknownMethod
    else if code.toNat = typeMismatchCode then .typeMismatch
    else .application
  | none => .application

def message (e : RemoteError) : String :=
  e.method ++ ": remote " ++ e.kind.text ++ ": " ++ e.payload.render

end RemoteError

/-- Why one round trip brought no result. -/
inductive InvokeError where
  | transport (error : TransportError)
  /-- The other side answered with an error. -/
  | remote (payload : Packed)
  /-- The request is above the limit; nothing was sent. -/
  | tooLarge (size max : Nat)

def InvokeError.message : InvokeError → String
  | transport error => error.message
  | remote payload => "remote error: " ++ payload.render
  | tooLarge size max =>
    "request too large (" ++ toString size ++ " bytes, max " ++ toString max ++ ")"

/-- Why a call has no result. -/
inductive CallError where
  /-- The numbers of arguments and of their types differ; nothing was sent. -/
  | invalidCall (method : String) (expected found : Nat)
  /-- An argument does not fit its type; nothing was sent. -/
  | encode (method : String) (index : Nat) (type : Descriptor) (error : EncodeError)
  /-- The request is above the limit; nothing was sent. -/
  | requestTooLarge (method : String) (size max : Nat)
  /-- The result does not fit its type. -/
  | decode (method : String) (type : Descriptor) (error : DecodeError)
  | transport (method : String) (error : TransportError)
  | remote (error : RemoteError)

namespace CallError

def ofInvoke (method : String) : InvokeError → CallError
  | .transport error => .transport method error
  | .remote payload => .remote ⟨method, payload⟩
  | .tooLarge size max => .requestTooLarge method size max

def message : CallError → String
  | invalidCall method expected found =>
    method ++ ": expected " ++ toString expected ++ " arguments, found " ++ toString found
  | encode method index type error =>
    method ++ ": argument " ++ toString index ++ " does not fit " ++ type.text ++ ": " ++
      encodeMessage error
  | requestTooLarge method size max =>
    method ++ ": request too large (" ++ toString size ++ " bytes, max " ++ toString max ++ ")"
  | decode method type error =>
    method ++ ": response does not fit " ++ type.text ++ ": " ++ decodeMessage error
  | transport method error => method ++ ": " ++ error.message
  | remote error => error.message

def method : CallError → String
  | invalidCall method .. => method
  | encode method .. => method
  | requestTooLarge method .. => method
  | decode method .. => method
  | transport method _ => method
  | remote error => error.method

def isRetryable : CallError → Bool
  | transport .. => true
  | _ => false

def isTimeout : CallError → Bool
  | transport _ error => error.isTimeout
  | _ => false

end CallError

end PackRpc
