import PackRpc.Descriptor.Basic
import PackRpc.OrderedMap
import PackRpc.Text.WhiteSpace
import PackRpc.Limits
/-!
# Reading descriptors

A parser takes the characters that remain and gives back those that follow what it has read. An error
names the characters that remained where it arose; their distance from the start is computed once, at
the very end, so that an offset is always that of a character.

A type is a name, or a name with type parameters between angle brackets. The names of the built-in types
come first and registered records after them.
-/
namespace PackRpc

inductive Wanted where
  | char (c : Char)
  | typeName
  | endOfInput
  deriving DecidableEq

def Wanted.message : Wanted → String
  | .char c => "expected '" ++ .singleton c ++ "'"
  | .typeName => "expected a type name"
  | .endOfInput => "expected end of input"

/-- Why a text is no descriptor or no declaration; `P` are positions in the text. -/
inductive ParseError (P : Type) where
  /-- Something else was found, or the end of the text. -/
  | unexpected (position : P) (wanted : Wanted) (found : Option Char)
  | bareTuple (position : P)
  | unknownType (position : P) (name : String)
  | wrongParameterCount (position : P) (name : String) (expected found : Nat)
  | duplicateField (record field : String)
  | tooDeep (position : P) (max : Nat)
  deriving DecidableEq

namespace ParseError

def map {P Q : Type} (f : P → Q) : ParseError P → ParseError Q
  | unexpected position wanted found => unexpected (f position) wanted found
  | bareTuple position => bareTuple (f position)
  | unknownType position name => unknownType (f position) name
  | wrongParameterCount position name expected found =>
    wrongParameterCount (f position) name expected found
  | duplicateField record field => duplicateField record field
  | tooDeep position max => tooDeep (f position) max

def message : ParseError Nat → String
  | unexpected offset wanted found =>
    "syntax error at offset " ++ toString offset ++ ": " ++ wanted.message ++ ", found " ++
      (match found with
        | some c => "'" ++ .singleton c ++ "'"
        | none => "end of input")
  | bareTuple offset =>
    "syntax error at offset " ++ toString offset ++ ": tuple requires type parameters"
  | unknownType offset name => "unknown type '" ++ name ++ "' at offset " ++ toString offset
  | wrongParameterCount offset name expected found =>
    name ++ " takes " ++ toString expected ++ " type parameter(s), found " ++ toString found ++
      " (offset " ++ toString offset ++ ")"
  | duplicateField record field =>
    "record " ++ record ++ " declares field '" ++ field ++ "' more than once"
  | tooDeep offset max =>
    "type parameters nested deeper than " ++ toString max ++ " levels (offset " ++
      toString offset ++ ")"

end ParseError

namespace Descriptor

/-- An error at the characters that remained. -/
abbrev Failure := ParseError (List Char)

/-- Reads something from the front of the characters and gives back what follows it. -/
abbrev Parser (α : Type) := List Char → Except Failure (α × List Char)

def skipBlanks (cs : List Char) : List Char := cs.dropWhile Text.isBlank

def isNameStart (c : Char) : Bool := c == '_' || c.isAlpha

def isNameRest (c : Char) : Bool := c == '_' || c.isAlphanum

def failAt (wanted : Wanted) (cs : List Char) : Failure :=
  .unexpected (skipBlanks cs) wanted (skipBlanks cs).head?

/-- What follows a character after blanks, if it is there. -/
def eat? (c : Char) (cs : List Char) : Option (List Char) :=
  match skipBlanks cs with
  | d :: rest => if d = c then some rest else none
  | [] => none

def expect (c : Char) (cs : List Char) : Except Failure (List Char) :=
  match eat? c cs with
  | some rest => .ok rest
  | none => .error (failAt (.char c) cs)

/-- Reads a name after blanks. It stands at the position given with it. -/
def name : Parser (List Char × String) := fun cs =>
  let start := skipBlanks cs
  match start with
  | c :: rest =>
    if isNameStart c then
      .ok ((start, .ofList (c :: rest.takeWhile isNameRest)), rest.dropWhile isNameRest)
    else .error (failAt .typeName cs)
  | [] => .error (failAt .typeName cs)

/-- Reads what separates things and closes a list of them: the rest of a list, one thing being read
already. The number of characters bounds the number of things. -/
def restOf {α : Type} (item : Parser α) (close : Char) : (fuel : Nat) → List α → Parser (List α)
  | 0, _, cs => .error (failAt (.char ',') cs)
  | fuel + 1, done, cs =>
    match eat? close cs with
    | some rest => .ok (done.reverse, rest)
    | none =>
      match expect ',' cs with
      | .error e => .error e
      | .ok rest =>
        match item rest with
        | .error e => .error e
        | .ok (a, rest) => restOf item close fuel (a :: done) rest

def parameters (type : Parser Descriptor) : Parser (List Descriptor) := fun cs =>
  match eat? '>' cs with
  | some rest => .ok ([], rest)
  | none =>
    match type cs with
    | .error e => .error e
    | .ok (d, rest) => restOf type '>' cs.length [d] rest

def plain? : String → Option Descriptor
  | "bool" | "boolean" => some .bool
  | "int8" | "byte" => some (.int true .w8)
  | "int16" | "short" => some (.int true .w16)
  | "int32" | "int" => some (.int true .w32)
  | "int64" | "long" => some (.int true .w64)
  | "uint8" | "ubyte" => some (.int false .w8)
  | "uint16" | "ushort" => some (.int false .w16)
  | "uint32" | "uint" => some (.int false .w32)
  | "uint64" | "ulong" => some (.int false .w64)
  | "float" | "double" => some .float
  | "string" => some .string
  | "raw" | "binary" => some .raw
  | "object" | "any" => some .object
  | "unit" | "void" => some .unit
  | _ => none

/-- What a name with these parameters means. The name stands at `start`, and `cs` follows it all. -/
def resolve (lookup : String → Option Descriptor) (start : List Char) (name : String)
    (params : Option (List Descriptor)) (cs : List Char) : Except Failure Descriptor :=
  let found := (params.map List.length).getD 0
  match name with
  | "nullable" | "optional" =>
    match params with
    | some [inner] => .ok (.nullable inner)
    | _ => .error (.wrongParameterCount start name 1 found)
  | "list" =>
    match params with
    | some [element] => .ok (.list element)
    | _ => .error (.wrongParameterCount start name 1 found)
  | "map" =>
    match params with
    | some [key, value] => .ok (.map key value)
    | _ => .error (.wrongParameterCount start name 2 found)
  | "tuple" =>
    match params with
    | some items => .ok (.tuple items)
    | none => .error (.bareTuple (skipBlanks cs))
  | _ =>
    match (plain? name).or (lookup name) with
    | none => .error (.unknownType start name)
    | some d => if found = 0 then .ok d else .error (.wrongParameterCount start name 0 found)

/-- Reads one type whose parameters are read with `inner`, which is absent where brackets may nest no
deeper. -/
def typeWith (lookup : String → Option Descriptor) (inner : Option (Parser Descriptor)) :
    Parser Descriptor := fun cs =>
  match name cs with
  | .error e => .error e
  | .ok ((start, name), cs) =>
    match eat? '<' cs with
    | none => (resolve lookup start name none cs).map (·, skipBlanks cs)
    | some cs =>
      match inner with
      | none => .error (.tooDeep start defaultMaxDepth)
      | some type =>
        match parameters type cs with
        | .error e => .error e
        | .ok (params, cs) => (resolve lookup start name (some params) cs).map (·, cs)

def typeAt (lookup : String → Option Descriptor) : (levels : Nat) → Parser Descriptor
  | 0 => typeWith lookup none
  | levels + 1 => typeWith lookup (some (typeAt lookup levels))

def type (lookup : String → Option Descriptor) : Parser Descriptor :=
  typeAt lookup defaultMaxDepth

/-- Reads the fields of a declaration up to the closing brace, `done` being the earlier ones, the last
of them first. A comma may follow the last field. -/
def fieldsOnto (lookup : String → Option Descriptor) (record : String) :
    (fuel : Nat) → List (String × Descriptor) → Parser (List (String × Descriptor))
  | 0, _, cs => .error (failAt (.char '}') cs)
  | fuel + 1, done, cs =>
    match eat? '}' cs with
    | some rest => .ok (done.reverse, rest)
    | none =>
      match name cs with
      | .error e => .error e
      | .ok ((_, field), cs) =>
        if done.any (·.1 == field) then .error (.duplicateField record field)
        else
          match expect ':' cs with
          | .error e => .error e
          | .ok cs =>
            match type lookup cs with
            | .error e => .error e
            | .ok (d, cs) =>
              let done := (field, d) :: done
              match eat? ',' cs with
              | some cs => fieldsOnto lookup record fuel done cs
              | none =>
                match expect '}' cs with
                | .error e => .error e
                | .ok cs => .ok (done.reverse, cs)

def declaration (lookup : String → Option Descriptor) : Parser RecordType := fun cs =>
  match name cs with
  | .error e => .error e
  | .ok ((_, name), cs) =>
    match expect '{' cs with
    | .error e => .error e
    | .ok cs =>
      match fieldsOnto lookup name (cs.length + 1) [] cs with
      | .error e => .error e
      | .ok (fields, cs) => .ok (⟨name, fields⟩, cs)

def whole {α : Type} (parser : Parser α) (cs : List Char) : Except Failure α :=
  match parser cs with
  | .error e => .error e
  | .ok (a, rest) =>
    match skipBlanks rest with
    | [] => .ok a
    | _ => .error (failAt .endOfInput rest)

def utf8Length (cs : List Char) : Nat :=
  (String.ofList cs).utf8ByteSize

/-- Reads all of a text and gives errors their byte offsets. -/
def run {α : Type} (parser : Parser α) (text : String) : Except (ParseError Nat) α :=
  match whole parser text.toList with
  | .ok a => .ok a
  | .error e => .error (e.map fun rest => utf8Length text.toList - utf8Length rest)

end Descriptor

abbrev Registry := OrderedMap String RecordType

namespace Registry

def new : Registry := .empty

def lookup (r : Registry) (name : String) : Option Descriptor :=
  (r.get? name).map RecordType.descriptor

def parse (r : Registry) (text : String) : Except (ParseError Nat) Descriptor :=
  Descriptor.run (Descriptor.type r.lookup) text

/-- Reads a declaration and registers the record type in the place of any other of its name. -/
def define (r : Registry) (text : String) : Except (ParseError Nat) (RecordType × Registry) :=
  match Descriptor.run (Descriptor.declaration r.lookup) text with
  | .ok t => .ok (t, r.insert t.name t)
  | .error e => .error e

end Registry

def Descriptor.parse (text : String) : Except (ParseError Nat) Descriptor :=
  Registry.new.parse text

end PackRpc
