import PackRpc.Command.Run
import PackRpc.Loopback.Peer

namespace PackRpc.Loopback

def fileIn (files : List (String × String)) (path : String) : Except Fault String :=
  match files.lookup path with
  | some text => .ok text
  | none =>
    if path.contains '\x00' then .error nulByte
    else .error ⟨.notFound, some "No such file or directory (os error 2)"⟩

namespace World

variable {σ : Type} {m : Type → Type} [Monad m]

def empty : World Unit :=
  { ports := {}, peer := ⟨id, fun _ s => (⟨[], .closed⟩, s)⟩, state := (), session := .ofEndpoint .default }

def listen (address : String) (w : World σ) : Except TransportError String × World σ :=
  match w.ports.bind address with
  | .error e => (.error e, w)
  | .ok (port, ports) => (.ok (Ports.addressText Ports.here port.toNat), { w with ports })

/-- The system of a world. A run that has no outcome is one that a deadline has stopped. -/
def system (readFile : String → m (Except Fault String)) :
    Command.System (StateT (World σ) (OptionT m)) where
  readFile path := liftM (readFile path)
  invoke config method params timeout := fun w =>
    let session := Session.ofEndpoint config.endpoint config.limits
    OptionT.mk (pure (invoke method params timeout { w with session }))
  listen address := fun w => pure (w.listen address)

def run (env : String → Option String) (readFile : String → m (Except Fault String))
    (words : List String) (w : World σ) :
    OptionT m (Except Command.Usage Command.Outcome × World σ) :=
  match Command.Line.parse env words with
  | .error usage => pure (.error usage, w)
  | .ok line => do
    let (outcome, w) ← (line.run (system readFile)).run w
    return (.ok outcome, w)

end World

end PackRpc.Loopback
