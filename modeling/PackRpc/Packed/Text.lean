import PackRpc.Packed.Basic
import PackRpc.Binary.Numeral
import PackRpc.Text.Quoted

namespace PackRpc.Packed

mutual

def render : Packed → String
  | .nil => "nil"
  | .bool b => if b then "true" else "false"
  | .int n => toString n.val
  | .float32 x => x.write .plain
  | .float64 x => x.write .plain
  | .str text => Text.quoted text
  | .bin data => "<bin " ++ toString data.length ++ " bytes>"
  | .array items => "[" ++ ", ".intercalate (renderItems items) ++ "]"
  | .map entries => "\x7b" ++ ", ".intercalate (renderEntries entries) ++ "\x7d"
  | .ext type data => "<ext " ++ toString type.toInt ++ " " ++ toString data.length ++ " bytes>"

def renderItems : List Packed → List String
  | [] => []
  | item :: items => render item :: renderItems items

def renderEntries : List (Packed × Packed) → List String
  | [] => []
  | (key, value) :: entries => (render key ++ ": " ++ render value) :: renderEntries entries

end

end PackRpc.Packed
