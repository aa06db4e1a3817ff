import PackRpc.Client.Error
import PackRpc.Config.Basic
import PackRpc.Descriptor.Parsing

namespace PackRpc

inductive ExitCode where
  | success
  /-- The server answered with an error. -/
  | remote
  | transport
  | permission
  /-- Data that does not fit. -/
  | data
  | usage
  | timeout
  | internal
  deriving DecidableEq

def ExitCode.toNat : ExitCode → Nat
  | success => 0
  | remote => 2
  | transport => 3
  | permission => 50
  | data => 60
  | usage => 64
  | timeout => 124
  | internal => 125

structure Failure where
  code : ExitCode
  message : String

namespace Failure

def codeOf : FaultKind → ExitCode
  | .permissionDenied => .permission
  | .timedOut | .wouldBlock => .timeout
  | .connectionRefused | .connectionReset | .addrInUse | .addrNotAvailable => .transport
  | .notFound => .usage
  | _ => .internal

def ofFault (context : String) (fault : Fault) : Failure :=
  ⟨codeOf fault.kind, context ++ ": " ++ fault.message⟩

def ofTransport (context : String) (error : TransportError) : Failure :=
  if error.isTimeout then ⟨.timeout, context ++ ": " ++ error.message⟩
  else
    match error with
    | .resolve _ fault => ⟨codeOf fault.kind, context ++ ": " ++ error.message⟩
    | .connect _ fault => ⟨codeOf fault.kind, context ++ ": " ++ error.message⟩
    | .bind _ fault => ⟨codeOf fault.kind, context ++ ": " ++ error.message⟩
    | .accept fault => ofFault context fault
    | .io fault => ofFault context fault
    | _ => ⟨.transport, context ++ ": " ++ error.message⟩

def ofCall (error : CallError) : Failure :=
  match error with
  | .invalidCall .. => ⟨.usage, error.message⟩
  | .encode .. => ⟨.data, error.message⟩
  | .requestTooLarge .. => ⟨.data, error.message⟩
  | .decode .. => ⟨.data, error.message⟩
  | .transport method source => ofTransport method source
  | .remote remote => ⟨.remote, remote.message⟩

def ofConfig (error : ConfigError) : Failure :=
  match error with
  | .read path fault => ofFault ("cannot read " ++ path) fault
  | .parse _ => ⟨.data, "invalid config: " ++ error.message⟩

def ofParse (context : String) (error : ParseError Nat) : Failure :=
  ⟨.usage, context ++ ": " ++ error.message⟩

def ofTimeout (error : Duration.TimeoutError) : Failure :=
  ⟨.usage, error.message⟩

end Failure

end PackRpc
