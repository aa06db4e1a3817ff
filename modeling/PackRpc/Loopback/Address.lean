import PackRpc.Duration
import PackRpc.Text.Split
import PackRpc.Transport.Error
/-!
# Addresses

What host names and addresses mean on a network that lies inside of one process: `127.0.0.1` is this
process, no other address ever answers or can be listened on, and no name has an address.
-/
namespace PackRpc.Loopback

/-- One number of a dotted address: at most 255, without zeros in front. -/
def octet? (cs : List Char) : Option Nat :=
  match Text.natural? cs with
  | some n => if n < 256 ∧ (cs.length = 1 ∨ cs.head? ≠ some '0') then some n else none
  | none => none

def dotted? (host : String) : Option (List Nat) :=
  match (Text.splitAt '.' host.toList).mapM octet? with
  | some parts => if parts.length = 4 then some parts else none
  | none => none

inductive Place where
  | here
  | elsewhere
  deriving DecidableEq

def unknownName : Fault :=
  ⟨.uncategorized, some "failed to lookup address information: Name or service not known"⟩

def nulByte : Fault := ⟨.invalidInput, some "file name contained an unexpected NUL byte"⟩

def resolve (host : String) : Except Fault Place :=
  match dotted? host with
  | some parts => .ok (if parts = [127, 0, 0, 1] then .here else .elsewhere)
  | none =>
    if host.contains '\x00' then .error nulByte else .error unknownName

structure Ports where
  used : List UInt16 := []

namespace Ports

/-- The first port that is given to a listener which does not ask for one. -/
def firstFree : UInt16 := 49152

def free (p : Ports) : UInt16 :=
  (((List.range (2 ^ 14)).map fun n => firstFree + .ofNat n).find? fun n => !p.used.contains n).getD
    firstFree

def addressText (host : String) (port : Nat) : String := host ++ ":" ++ toString port

def here : String := "127.0.0.1"

def dial (p : Ports) (host : String) (port : UInt16) (timeout : Duration) :
    Except TransportError Unit :=
  let address := addressText host port.toNat
  match resolve host with
  | .error fault => .error (.resolve address fault)
  | .ok .elsewhere => .error (.timeout timeout)
  | .ok .here =>
    if p.used.contains port then .ok ()
    else .error (.connect address ⟨.connectionRefused, some "Connection refused (os error 111)"⟩)

def listenAddress (text : String) : Except Fault (String × UInt16) :=
  match Text.splitLast ':' text.toList with
  | none => .error ⟨.invalidInput, some "invalid socket address"⟩
  | some (host, port) =>
    match Text.unsigned? 16 port with
    | none => .error ⟨.invalidInput, some "invalid port value"⟩
    | some port => .ok (.ofList host, .ofNat port)

/-- Listens on an address; port zero asks for any port. Gives the port. -/
def bind (p : Ports) (text : String) : Except TransportError (UInt16 × Ports) :=
  let place : Except Fault (Place × UInt16) := match listenAddress text with
    | .error fault => .error fault
    | .ok (host, port) => (resolve host).map (·, port)
  match place with
  | .error fault => .error (.bind text fault)
  | .ok (.elsewhere, _) =>
    .error (.bind text ⟨.addrNotAvailable, some "Cannot assign requested address (os error 99)"⟩)
  | .ok (.here, port) =>
    let port := if port = 0 then p.free else port
    if p.used.contains port then
      .error (.bind text ⟨.addrInUse, some "Address already in use (os error 98)"⟩)
    else .ok (port, ⟨port :: p.used⟩)

end Ports

end PackRpc.Loopback
