import PackRpc.Fault
import PackRpc.Message.Basic
import PackRpc.Packed.Error

namespace PackRpc

inductive StreamError where
  | format (error : FormatError)
  | envelope (error : EnvelopeError)
  | io (fault : Fault)
  /-- The stream ended before a whole message had arrived, or takes no more bytes. -/
  | closed

namespace StreamError

def message : StreamError → String
  | .format error => error.message
  | .envelope error => "invalid rpc message: " ++ error.message
  | .io fault => "wire I/O error: " ++ fault.message
  | .closed => "connection closed (incomplete message)"

def isTimeout : StreamError → Bool
  | .io fault => fault.isTimeout
  | _ => false

end StreamError

end PackRpc
