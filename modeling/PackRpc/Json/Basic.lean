import PackRpc.Packed.Basic
import PackRpc.Binary.Numeral
import PackRpc.Text.Quoted

namespace PackRpc

inductive Json where
  | null
  | bool (b : Bool)
  | int (n : PackedInt)
  | float (x : Binary64)
  | string (text : String)
  | array (items : List Json)
  | object (members : List (String × Json))

instance : Inhabited Json := ⟨.null⟩

namespace Json

def ofNat (n : Nat) : Json := .int (.ofUInt64 (.ofNat n))

def escape (c : Char) : String :=
  if c = '"' then "\\\""
  else if c = '\\' then "\\\\"
  else if c.toNat = 8 then "\\b"
  else if c.toNat = 12 then "\\f"
  else if c = '\n' then "\\n"
  else if c = '\r' then "\\r"
  else if c = '\t' then "\\t"
  else if c.toNat < 0x20 then "\\u00" ++ Text.hexByte (.ofNat c.toNat)
  else .singleton c

def stringText (text : String) : String :=
  "\"" ++ text.foldl (fun out c => out ++ escape c) "" ++ "\""

mutual

/-- The text of a JSON value, without blanks. -/
def text : Json → String
  | .null => "null"
  | .bool b => if b then "true" else "false"
  | .int n => toString n.val
  | .float x => x.write .json
  | .string s => stringText s
  | .array items => "[" ++ ",".intercalate (itemTexts items) ++ "]"
  | .object members => "\x7b" ++ ",".intercalate (memberTexts members) ++ "\x7d"

def itemTexts : List Json → List String
  | [] => []
  | item :: items => text item :: itemTexts items

def memberTexts : List (String × Json) → List String
  | [] => []
  | (name, value) :: members => (stringText name ++ ":" ++ text value) :: memberTexts members

end

end Json

end PackRpc
