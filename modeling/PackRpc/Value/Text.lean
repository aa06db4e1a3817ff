import PackRpc.Value.Basic
import PackRpc.Binary.Numeral
import PackRpc.Text.Quoted

namespace PackRpc.Value

mutual

def text : Value → String
  | .nil => "None"
  | .bool b => if b then "True" else "False"
  | .int n => toString n.toInt
  | .uint n => toString n.toNat
  | .float x => x.write .plain
  | .string s => s
  | .binary data => "<raw " ++ toString data.length ++ " bytes>"
  | .seq items => "[" ++ ", ".intercalate (texts items) ++ "]"
  | .map entries => "\x7b" ++ ", ".intercalate (entryTexts entries) ++ "\x7d"
  | .record type values =>
    type.name ++ "\x7b" ++ ", ".intercalate (fieldTexts type.fields values) ++ "\x7d"

def texts : List Value → List String
  | [] => []
  | item :: items => text item :: texts items

def entryTexts : List (Value × Value) → List String
  | [] => []
  | (key, value) :: entries => (text key ++ ": " ++ text value) :: entryTexts entries

/-- The fields of a record with their values, as far as both go. -/
def fieldTexts : List (String × Descriptor) → List Value → List String
  | field :: fields, value :: values => (field.1 ++ ": " ++ text value) :: fieldTexts fields values
  | _, _ => []

end

mutual

def structural : Value → String
  | .nil => "Nil"
  | .bool b => "Bool(" ++ (if b then "true" else "false") ++ ")"
  | .int n => "Int(" ++ toString n.toInt ++ ")"
  | .uint n => "UInt(" ++ toString n.toNat ++ ")"
  | .float x => "Float(" ++ x.write .structural ++ ")"
  | .string s => "String(" ++ Text.quoted s ++ ")"
  | .binary data => "Binary(" ++ Text.quotedBytes data ++ ")"
  | .seq items => "Seq([" ++ ", ".intercalate (structurals items) ++ "])"
  | .map entries => "Map([" ++ ", ".intercalate (entryStructurals entries) ++ "])"
  | .record type values => "Record(" ++ recordStructural type values ++ ")"

def recordStructural (type : RecordType) : List Value → String
  | values =>
    match fieldStructurals type.fields values with
    | [] => type.name
    | fields => type.name ++ " \x7b " ++ ", ".intercalate fields ++ " \x7d"

def structurals : List Value → List String
  | [] => []
  | item :: items => structural item :: structurals items

def entryStructurals : List (Value × Value) → List String
  | [] => []
  | (key, value) :: entries =>
    ("(" ++ structural key ++ ", " ++ structural value ++ ")") :: entryStructurals entries

def fieldStructurals : List (String × Descriptor) → List Value → List String
  | field :: fields, value :: values =>
    (field.1 ++ ": " ++ structural value) :: fieldStructurals fields values
  | _, _ => []

end

end PackRpc.Value
