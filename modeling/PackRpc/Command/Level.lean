import PackRpc.Command.Output
import PackRpc.Text.Integer

namespace PackRpc.Command

inductive Usage where
  /-- Help or the version was asked for. -/
  | shown
  | wrong
  deriving DecidableEq

def Usage.code : Usage → Nat
  | shown => 0
  | wrong => 2

inductive Setting where
  | format
  | logFormat
  | logLevel
  | config
  | host
  | port
  | name
  | timeout
  | type
  | returns
  | define
  | bind
  | id
  | serverConfig
  | extended
  | help
  | version
  deriving DecidableEq

namespace Setting

def long : Setting → String
  | format => "format"
  | logFormat => "log-format"
  | logLevel => "log-level"
  | config => "config"
  | host => "host"
  | port => "port"
  | name => "name"
  | timeout => "timeout"
  | type => "type"
  | returns => "returns"
  | define => "define"
  | bind => "bind"
  | id => "id"
  | serverConfig => "server-config"
  | extended => "extended"
  | help => "help"
  | version => "version"

def short? : Setting → Option Char
  | port => some 'p'
  | name => some 'n'
  | type => some 't'
  | returns => some 'r'
  | help => some 'h'
  | version => some 'V'
  | _ => none

/-- The variable that gives an option which does not stand on the command line. -/
def environment? : Setting → Option String
  | config => some "MPCALL_CONFIG"
  | host => some "MPCALL_HOST"
  | port => some "MPCALL_PORT"
  | name => some "MPCALL_NAME"
  | _ => none

def takesValue : Setting → Bool
  | extended | help | version => false
  | _ => true

def repeats : Setting → Bool
  | type | define => true
  | _ => false

def shows : Setting → Bool
  | help | version => true
  | _ => false

end Setting

def formats : List (String × OutputFormat) := [("json", .json), ("table", .table), ("pretty", .pretty)]

def port? (text : String) : Option UInt16 :=
  match Text.signed? 64 text.toList with
  | some n => if 0 ≤ n ∧ n < 2 ^ 16 then some (.ofNat n.toNat) else none
  | none => none

def stored? (text : String) : Option Int32 :=
  match Text.signed? 64 text.toList with
  | some n => if -2 ^ 31 ≤ n ∧ n < 2 ^ 31 then some (.ofInt n) else none
  | none => none

def Setting.accepts (setting : Setting) (text : String) : Bool :=
  match setting with
  | format => (formats.lookup text).isSome
  | logFormat => ["text", "json"].contains text
  | logLevel => ["off", "error", "warn", "info", "debug", "trace"].contains text
  | config => !text.isEmpty
  | port => (port? text).isSome
  | _ => true

inductive Operand where
  | text
  /-- An integer that can be stored, maybe a negative one. -/
  | integer
  /-- Any number of texts, negative numbers among them. -/
  | texts
  deriving DecidableEq

namespace Operand

/-- Whether a negative number is an operand here, not an option. -/
def allowsNegative : Operand → Bool
  | text => false
  | integer | texts => true

def accepts : Operand → String → Bool
  | integer, word => (stored? word).isSome
  | _, _ => true

end Operand

inductive Level where
  | top
  | call
  | kvs
  | put
  | get
  | average
  | status
  | serve
  | version
  deriving DecidableEq

namespace Level

def below : Level → List (String × Level)
  | top => [("call", call), ("kvs", kvs), ("status", status), ("serve", serve), ("version", version)]
  | kvs => [("put", put), ("get", get), ("average", average)]
  | _ => []

def everywhere : List Setting :=
  [.format, .logFormat, .logLevel, .config, .host, .port, .name, .timeout, .help]

def settings : Level → List Setting
  | top => .version :: everywhere
  | call => .type :: .returns :: .define :: everywhere
  | serve => .bind :: .id :: .serverConfig :: everywhere
  | version => .extended :: everywhere
  | _ => everywhere

def operands : Level → List Operand
  | call => [.text, .texts]
  | put => [.text, .integer]
  | get => [.text]
  | _ => []

def operand? : Level → Nat → Option Operand
  | call, 0 => some .text
  | call, _ + 1 => some .texts
  | level, n => level.operands[n]?

def required : Level → Nat
  | call => 1
  | level => level.operands.length

def long? (level : Level) (name : String) : Option Setting :=
  level.settings.find? fun s => s.long = name

def letter? (level : Level) (c : Char) : Option Setting :=
  level.settings.find? fun s => s.short? = some c

def helps : Level → List String → Bool
  | _, [] => true
  | level, word :: rest =>
    match level.below.lookup word with
    | some level => helps level rest
    | none => !level.below.isEmpty && word == "help" && rest.isEmpty

end Level

end PackRpc.Command
