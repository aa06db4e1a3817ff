namespace PackRpc

inductive FaultKind where
  | notFound
  | permissionDenied
  | connectionRefused
  | connectionReset
  | connectionAborted
  | notConnected
  | addrInUse
  | addrNotAvailable
  | brokenPipe
  | wouldBlock
  | invalidInput
  | invalidData
  | timedOut
  | unexpectedEof
  | interrupted
  | unsupported
  | outOfMemory
  | other
  /-- A fault that has no kind of its own. -/
  | uncategorized
  deriving DecidableEq, Repr

def FaultKind.all : List FaultKind :=
  [.notFound, .permissionDenied, .connectionRefused, .connectionReset, .connectionAborted,
    .notConnected, .addrInUse, .addrNotAvailable, .brokenPipe, .wouldBlock, .invalidInput, .invalidData,
    .timedOut, .unexpectedEof, .interrupted, .unsupported, .outOfMemory, .other]

def FaultKind.description : FaultKind → String
  | .notFound => "entity not found"
  | .permissionDenied => "permission denied"
  | .connectionRefused => "connection refused"
  | .connectionReset => "connection reset"
  | .connectionAborted => "connection aborted"
  | .notConnected => "not connected"
  | .addrInUse => "address in use"
  | .addrNotAvailable => "address not available"
  | .brokenPipe => "broken pipe"
  | .wouldBlock => "operation would block"
  | .invalidInput => "invalid input parameter"
  | .invalidData => "invalid data"
  | .timedOut => "timed out"
  | .unexpectedEof => "unexpected end of file"
  | .interrupted => "operation interrupted"
  | .unsupported => "unsupported"
  | .outOfMemory => "out of memory"
  | .other => "other error"
  | .uncategorized => "uncategorized error"

def FaultKind.isTimeout : FaultKind → Bool
  | .timedOut | .wouldBlock => true
  | _ => false

/-- A fault: its kind, and the text the system gave with it, if any. -/
structure Fault where
  kind : FaultKind
  text : Option String := none
  deriving DecidableEq

namespace Fault

def ofKind (kind : FaultKind) : Fault := { kind }

/-- What the system says when nothing has come for as long as one would wait. -/
def nothingThere : Fault := ⟨.wouldBlock, some "Resource temporarily unavailable (os error 11)"⟩

def message (f : Fault) : String := f.text.getD f.kind.description

def isTimeout (f : Fault) : Bool := f.kind.isTimeout

end Fault

end PackRpc
