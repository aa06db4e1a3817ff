import PackRpc.Config.Endpoint
import PackRpc.Fault
import PackRpc.Json.Parsing
import PackRpc.Limits
/-!
# Client configurations

A configuration is a JSON object. Every key has a default and unknown keys are ignored. A limit of the
wrong shape is refused where it stands; what belongs to the endpoint is looked at once the whole object
is read, in the order of the members.
-/
namespace PackRpc

structure ClientConfig where
  endpoint : Endpoint := .default
  limits : Limits := .default
  deriving DecidableEq

inductive ConfigFault where
  | json (error : JsonError)
  /-- Some value has not the shape that its key asks for, or a key stands twice. -/
  | wrongShape
  | invalidTimeout (seconds : Binary64)

def ConfigFault.message : ConfigFault → String
  | json error => error.message
  | wrongShape => "unexpected value"
  | invalidTimeout seconds =>
    "invalid timeout " ++ seconds.write .plain ++ ": expected non-negative seconds"

inductive ConfigError where
  | read (path : String) (fault : Fault)
  | parse (fault : ConfigFault)

def ConfigError.message : ConfigError → String
  | read path fault => "failed to read config " ++ path ++ ": " ++ fault.message
  | parse fault => "invalid config: " ++ fault.message

namespace ClientConfig

def default : ClientConfig := {}

def toJson (c : ClientConfig) : Json :=
  .object [
    ("host", .string c.endpoint.host),
    ("port", .ofNat c.endpoint.port.toNat),
    ("name", .string c.endpoint.name),
    ("timeout", .float c.endpoint.timeout.toBinary64),
    ("max_message_size", .ofNat c.limits.maxSize),
    ("max_depth", .ofNat c.limits.maxDepth)]

/-- The members of a configuration that are kept until its end, and the limits among the others. -/
structure Draft where
  maxSize : Option Nat := none
  maxDepth : Option Nat := none
  members : List (String × Json) := []

/-- Whether a container starts here, which no limit is. -/
def startsContainer (cs : List Char) : Bool :=
  cs.head? == some '[' || cs.head? == some '{'

def ofJson {α : Type} : Except JsonError α → Except ConfigFault α
  | .ok a => .ok a
  | .error e => .error (.json e)

def limit (cs : List Char) : Except ConfigFault (Nat × List Char) :=
  let cs := Json.skipBlanks cs
  if startsContainer cs then .error .wrongShape
  else
    match Json.scalar cs with
    | .error e => .error (.json e)
    | .ok (.int n, cs) => if 0 ≤ n.val then .ok (n.val.toNat, cs) else .error .wrongShape
    | .ok _ => .error .wrongShape

def member (draft : Draft) (name : String) (cs : List Char) :
    Except ConfigFault (Draft × List Char) := do
  if name = "max_message_size" then
    if draft.maxSize.isSome then .error .wrongShape
    else
      let (n, cs) ← limit (← ofJson (Json.colon cs))
      return ({ draft with maxSize := some n }, cs)
  else if name = "max_depth" then
    if draft.maxDepth.isSome then .error .wrongShape
    else
      let (n, cs) ← limit (← ofJson (Json.colon cs))
      return ({ draft with maxDepth := some n }, cs)
  else
    let cs ← ofJson (Json.colon cs)
    let (v, cs) ← ofJson (Json.valueAt (Json.maxDepth - 1) cs)
    return ({ draft with members := (name, v) :: draft.members }, cs)

def members : (fuel : Nat) → (first : Bool) → Draft → List Char →
    Except ConfigFault (Draft × List Char)
  | 0, _, _, _ => .error (.json .ended)
  | fuel + 1, first, draft, cs => do
    match ← ofJson (Json.nextItem '}' first cs) with
    | none => return (draft, (Json.skipBlanks cs).drop 1)
    | some cs =>
      let (name, cs) ← ofJson (Json.memberName cs)
      let (draft, cs) ← member draft name cs
      members fuel false draft cs

/-- The endpoint keys that have been given a value. -/
structure Given where
  host : Option String := none
  port : Option UInt16 := none
  name : Option String := none
  timeout : Option Duration := none

def textOf : Json → Except ConfigFault String
  | .string text => .ok text
  | _ => .error .wrongShape

def portOf : Json → Except ConfigFault UInt16
  | .int n => if 0 ≤ n.val ∧ n.val < 2 ^ 16 then .ok (.ofNat n.val.toNat) else .error .wrongShape
  | _ => .error .wrongShape

def timeoutOf (j : Json) : Except ConfigFault Duration :=
  let seconds := match j with
    | .int n => some (Binary64.ofInt n.val)
    | .float x => some x
    | _ => none
  match seconds with
  | none => .error .wrongShape
  | some x =>
    match Duration.ofBinary64? x with
    | some d => .ok d
    | none => .error (.invalidTimeout x)

def setOnce {α : Type} (old : Option α) (new : Except ConfigFault α) :
    Except ConfigFault (Option α) :=
  if old.isSome then .error .wrongShape else new.map some

def give (g : Given) (m : String × Json) : Except ConfigFault Given :=
  if m.1 = "host" then (setOnce g.host (textOf m.2)).map fun host => { g with host }
  else if m.1 = "port" then (setOnce g.port (portOf m.2)).map fun port => { g with port }
  else if m.1 = "name" then (setOnce g.name (textOf m.2)).map fun name => { g with name }
  else if m.1 = "timeout" then
    (setOnce g.timeout (timeoutOf m.2)).map fun timeout => { g with timeout }
  else .ok g

def ofDraft (draft : Draft) : Except ConfigFault ClientConfig :=
  match draft.members.reverse.foldlM give {} with
  | .error e => .error e
  | .ok g =>
    .ok {
      endpoint := {
        host := g.host.getD defaultHost
        port := g.port.getD defaultPort
        name := g.name.getD ""
        timeout := g.timeout.getD defaultTimeout }
      limits := ⟨draft.maxSize.getD defaultMaxSize, draft.maxDepth.getD defaultMaxDepth⟩ }

def parse (text : String) : Except ConfigFault ClientConfig := do
  match Json.skipBlanks text.toList with
  | '{' :: rest =>
    let (draft, rest) ← members (rest.length + 1) true {} rest
    let config ← ofDraft draft
    match Json.skipBlanks rest with
    | [] => return config
    | _ => .error (.json .malformed)
  | cs =>
    if startsContainer cs then .error .wrongShape
    else
      let _ ← ofJson (Json.scalar cs)
      .error .wrongShape

end ClientConfig

end PackRpc
