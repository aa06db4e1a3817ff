import PackRpc.Descriptor.Basic

namespace PackRpc

namespace Descriptor

mutual

def text : Descriptor → String
  | .bool => "bool"
  | .int signed width => (if signed then "int" else "uint") ++ toString width.bits
  | .float => "float"
  | .string => "string"
  | .raw => "raw"
  | .tuple items => "tuple<" ++ ", ".intercalate (texts items) ++ ">"
  | .record name _ => name
  | .nullable inner => "nullable<" ++ text inner ++ ">"
  | .list element => "list<" ++ text element ++ ">"
  | .map key value => "map<" ++ text key ++ ", " ++ text value ++ ">"
  | .object => "object"
  | .unit => "unit"

def texts : List Descriptor → List String
  | [] => []
  | item :: items => text item :: texts items

end

end Descriptor

def RecordType.declaration (t : RecordType) : String :=
  t.name ++ "\x7b" ++ ", ".intercalate (t.fields.map fun f => f.1 ++ ": " ++ f.2.text) ++ "\x7d"

end PackRpc
