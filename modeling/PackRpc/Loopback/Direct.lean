import PackRpc.Loopback.Peer

namespace PackRpc.Loopback

structure Direct (σ : Type) where
  serving : Serving σ
  reader : StreamReader := .new .default
  source : Source := ⟨[], .silent⟩

namespace Direct

variable {σ : Type}

/-- Connects to a server, in place of any other connection. -/
def connect (serving : Serving σ) : Direct σ := { serving := serving.accept }

def reconnect (d : Direct σ) : Direct σ := connect d.serving

def send (bytes : Bytes) (d : Direct σ) : Direct σ :=
  let (answers, serving) := d.serving.receive bytes
  { d with serving, source := ⟨d.source.events ++ answers.events, answers.ending⟩ }

def receive (d : Direct σ) : Except StreamError Message × Direct σ :=
  let p := d.reader.readMessage StreamReader.unguarded d.source
  (p.result, { d with reader := p.reader, source := p.source })

end Direct

end PackRpc.Loopback
