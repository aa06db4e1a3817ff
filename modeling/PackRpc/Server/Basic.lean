import PackRpc.Client.Error
import PackRpc.OrderedMap
import PackRpc.Text.Quoted

namespace PackRpc

/-- What a method does with its parameters and the state of the server. -/
abbrev Handler (σ : Type) := List Packed → σ → Except Packed Packed × σ

structure Server (σ : Type) where
  methods : OrderedMap String (Handler σ) := .empty

namespace Server

variable {σ : Type}

/-- Adds a method, in the place of any other of its name. -/
def method (s : Server σ) (name : String) (handler : Handler σ) : Server σ :=
  ⟨s.methods.insert name handler⟩

def hasMethod (s : Server σ) (name : String) : Bool := s.methods.contains name

def dispatch (s : Server σ) (name : String) (params : List Packed) (state : σ) :
    Except Packed Packed × σ :=
  match s.methods.get? name with
  | some handler => handler params state
  | none => (.error (.ofNat unknownMethodCode), state)

def structural (s : Server σ) : String :=
  "RpcServer \x7b methods: [" ++ ", ".intercalate (s.methods.keys.map Text.quoted) ++ "] \x7d"

end Server

end PackRpc
