import PackRpc.Command.Exit
import PackRpc.Command.Line
import PackRpc.Json.Argument
import PackRpc.Kvs.Service
import PackRpc.Text.Split

namespace PackRpc.Command

structure System (m : Type → Type) where
  readFile : String → m (Except Fault String)
  /-- Makes calls as a configuration tells, over a connection of their own. -/
  invoke : ClientConfig → Invoke m
  /-- Starts to listen, and gives the address. -/
  listen : String → m (Except TransportError String)

inductive Outcome where
  | printed (text : String)
  | failed (failure : Failure)
  /-- Requests are answered from now on. -/
  | serving (announcement : String) (service : Kvs)

def Outcome.ofResult {α : Type} (print : α → String) : Except Failure α → Outcome
  | .ok a => .printed (print a)
  | .error f => .failed f

def orFail {ε α : Type} (f : ε → Failure) : Except ε α → Except Failure α
  | .ok a => .ok a
  | .error e => .error (f e)

/-! Where calls go. -/

def Target.override (t : Target) (c : ClientConfig) : Except Failure ClientConfig := do
  let timeout ← match t.timeout with
    | some text => orFail .ofTimeout (Duration.parse text)
    | none => pure c.endpoint.timeout
  return { c with
    endpoint := {
      host := t.host.getD c.endpoint.host
      port := t.port.getD c.endpoint.port
      name := t.name.getD c.endpoint.name
      timeout } }

def configOf (path : String) : Except Fault String → Except Failure ClientConfig
  | .error fault => .error (.ofConfig (.read path fault))
  | .ok text => orFail (fun e => .ofConfig (.parse e)) (ClientConfig.parse text)

/-- The configuration: that of the file, if there is one, with the changes. -/
def Target.resolve {m : Type → Type} [Monad m] (system : System m) (t : Target) :
    m (Except Failure ClientConfig) := do
  match t.config with
  | none => return t.override .default
  | some path =>
    let text ← system.readFile path
    return (configOf path text).bind t.override

/-! Calls. -/

structure Prepared where
  args : List Value
  types : List Descriptor
  result : Descriptor

/-- Reads the arguments of a call, the first of them being number `i`. Those beyond the types are read
without one. -/
def readArguments (i : Nat) : List Descriptor → List String → Except Failure (List Value)
  | _, [] => .ok []
  | types, text :: texts => do
    let place := "argument " ++ toString i
    let json ← orFail
      (fun e => ⟨.usage, place ++ " is not valid JSON: " ++ JsonError.message e⟩) (Json.parse text)
    let value ← orFail (fun e => ⟨.usage, place ++ ": " ++ ArgumentError.message e⟩)
      (json.toArgument (types.headD .object))
    return value :: (← readArguments (i + 1) (types.drop 1) texts)

def Call.prepare (c : Call) : Except Failure Prepared := do
  let registry ← c.defines.foldlM
    (fun r text => do return (← orFail (.ofParse "invalid --define") (Registry.define r text)).2)
    Registry.new
  let types ← c.types.mapM fun text =>
    orFail (.ofParse ("invalid --type " ++ Text.quoted text)) (registry.parse text)
  let result ← orFail (.ofParse "invalid --returns") (registry.parse c.returns)
  return { args := ← readArguments 0 types c.args, types, result }

section
variable {m : Type → Type} [Monad m]

def Call.run (c : Call) (client : Client) (invoke : Invoke m) : m (Except Failure Value) := do
  match c.prepare with
  | .error f => return .error f
  | .ok p =>
    let r ← client.call invoke c.method p.args p.types p.result
    return orFail .ofCall r

def callMethod (method : Method) (client : Client) (invoke : Invoke m) (args : List StaticValue) :
    m (Except Failure StaticValue) := do
  let r ← method.call client invoke args
  return orFail .ofCall r

end

/-! What servers say of themselves. -/

def textOf : StaticValue → String
  | .text s => s
  | _ => ""

def entriesOf : StaticValue → List (StaticValue × StaticValue)
  | .orderedMap entries => entries
  | _ => []

def statusOf (x : StaticValue) : Status :=
  (entriesOf x).map fun e => (textOf e.1, (entriesOf e.2).map fun f => (textOf f.1, textOf f.2))

/-! Serving. -/

/-- The id of a server that has been given none: the address, with an underscore before the port. -/
def defaultId (bind : String) : String :=
  match Text.splitLast ':' bind.toList with
  | none => bind
  | some (host, port) =>
    let isBracket := fun c => c == '[' || c == ']'
    .ofList (((host.dropWhile isBracket).reverse.dropWhile isBracket).reverse ++ '_' :: port)

def announcement (format : OutputFormat) (address id : String) : String :=
  match format with
  | .json =>
    Output.line (Json.text (.object
      [("event", .string "listening"), ("address", .string address), ("id", .string id)]))
  | _ => Output.line ("listening on " ++ address ++ " (id " ++ id ++ ")")

/-! The version. -/

def programName : String := "mpcall"

def programVersion : String := "0.1.0"

def build : List (String × Json) := [
  ("target", .string "x86_64-unknown-linux-gnu"),
  ("target_os", .string "linux"),
  ("target_arch", .string "x86_64"),
  ("default_port", .ofNat defaultPort.toNat),
  ("max_message_size", .ofNat defaultMaxSize),
  ("max_depth", .ofNat defaultMaxDepth)]

def bare : Json → String
  | .string text => text
  | j => j.text

def versionText (format : OutputFormat) (extended : Bool) : String :=
  let names := [("name", Json.string programName), ("version", .string programVersion)]
  match format, extended with
  | .json, false => Output.line (Json.text (.object names))
  | .json, true => Output.line (Json.text (.object (names ++ [("build", .object build)])))
  | _, false => Output.line (programName ++ " " ++ programVersion)
  | _, true => String.join ((names ++ build).map fun f => Output.line (f.1 ++ ": " ++ bare f.2))

section
variable {m : Type → Type} [Monad m]

def withClient {α : Type} (system : System m) (t : Target) (print : α → String)
    (body : Client → Invoke m → m (Except Failure α)) : m Outcome := do
  match ← t.resolve system with
  | .error f => return .failed f
  | .ok config =>
    let r ← body { endpoint := config.endpoint } (system.invoke config)
    return .ofResult print r

def Line.run (system : System m) (line : Line) : m Outcome := do
  let value := Output.value line.format
  let static := fun x => value (StaticValue.toValue x)
  match line.task with
  | .call c => withClient system line.target value c.run
  | .put key n =>
    withClient system line.target static fun client invoke =>
      callMethod KvsMethod.put client invoke [.text key, .int n.toInt64]
  | .get key =>
    withClient system line.target static fun client invoke =>
      callMethod KvsMethod.get client invoke [.text key]
  | .average =>
    withClient system line.target static fun client invoke =>
      callMethod KvsMethod.getAverage client invoke []
  | .status =>
    withClient system line.target (fun x => Output.status line.format (statusOf x))
      fun client invoke => callMethod Admin.getStatus client invoke []
  | .serve bind id config =>
    let id := id.getD (defaultId bind)
    match ← system.listen bind with
    | .error e => return .failed (.ofTransport "bind failed" e)
    | .ok address =>
      return .serving (announcement line.format address id) { Kvs.new id with config }
  | .version extended => return .printed (versionText line.format extended)

end

end PackRpc.Command
