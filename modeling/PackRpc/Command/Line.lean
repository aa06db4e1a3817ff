import PackRpc.Command.Scan
/-!
# Command lines

A command line says what to do, where calls go and how results are printed. An option that stands at
several levels counts where it stands deepest, and one that stands nowhere may be given by a variable of
the environment.
-/
namespace PackRpc.Command

structure Call where
  method : String
  args : List String
  types : List String
  returns : String
  defines : List String

inductive Task where
  | call (call : Call)
  | put (key : String) (value : Int32)
  | get (key : String)
  | average
  | status
  | serve (bind : String) (id : Option String) (config : String)
  | version (extended : Bool)

/-- Where calls go, as far as the command line and the environment tell. -/
structure Target where
  config : Option String := none
  host : Option String := none
  port : Option UInt16 := none
  name : Option String := none
  timeout : Option String := none

structure Line where
  format : OutputFormat
  target : Target
  task : Task

namespace Line

/-- The value of an option: the deepest one, or else that of its variable. -/
def value? (env : String → Option String) (parts : List (Level × Part)) (setting : Setting) :
    Option String :=
  match parts.reverse.findSome? fun p => p.2.given.lookup setting with
  | some text => some text
  | none => setting.environment?.bind env

def values (parts : List (Level × Part)) (setting : Setting) : List String :=
  parts.flatMap fun p => p.2.given.reverse.filterMap fun g =>
    if g.1 = setting then some g.2 else none

def task? (value? : Setting → Option String) (values : Setting → List String) :
    Level → (operands : List String) → Option Task
  | .call, method :: args =>
    some (.call ⟨method, args, values .type, (value? .returns).getD "object", values .define⟩)
  | .put, [key, value] => (stored? value).map (.put key ·)
  | .get, [key] => some (.get key)
  | .average, [] => some .average
  | .status, [] => some .status
  | .serve, [] =>
    some (.serve ((value? .bind).getD "127.0.0.1:9199") (value? .id)
      ((value? .serverConfig).getD "\x7b\x7d"))
  | .version, [] => some (.version (value? .extended).isSome)
  | _, _ => none

def parse (env : String → Option String) (words : List String) : Except Usage Line := do
  let parts ← scan env .top {} words
  let value? := value? env parts
  let task := do
    let (level, p) ← parts.getLast?
    task? value? (values parts) level p.operands.reverse
  match task with
  | none => .error .wrong
  | some task =>
    return {
      format := ((value? .format).bind fun text => formats.lookup text).getD .json
      target := {
        config := value? .config
        host := value? .host
        port := (value? .port).bind port?
        name := value? .name
        timeout := value? .timeout }
      task }

end Line

end PackRpc.Command
