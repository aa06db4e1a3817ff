import PackRpc.Json.Rendering
import PackRpc.Text.Table

namespace PackRpc

inductive OutputFormat where
  | json
  | table
  | pretty
  deriving DecidableEq

/-- Texts by name, for each server, in the order in which they are shown. -/
abbrev Status := List (String × List (String × String))

namespace Output

def line (text : String) : String := text ++ "\n"

def valueTable : Value → Text.Table
  | .record type values =>
    ⟨["FIELD", "VALUE"], List.zipWith (fun field v => [field, v.text]) type.fieldNames values⟩
  | .map entries => ⟨["KEY", "VALUE"], entries.map fun e => [e.1.text, e.2.text]⟩
  | .seq items => ⟨["#", "VALUE"], items.mapIdx fun i v => [toString i, v.text]⟩
  | v => ⟨["VALUE"], [[v.text]]⟩

def value (format : OutputFormat) (v : Value) : String :=
  match format with
  | .json => line v.toJson.text
  | .pretty => line v.text
  | .table => line (valueTable v).text

def status (format : OutputFormat) (s : Status) : String :=
  match format with
  | .json =>
    line (Json.object (s.map fun e => (e.1, .object (e.2.map fun f => (f.1, .string f.2))))).text
  | .table =>
    line (Text.Table.mk ["SERVER", "KEY", "VALUE"]
      (s.flatMap fun e => e.2.map fun f => [e.1, f.1, f.2])).text
  | .pretty =>
    String.join (s.map fun e =>
      line (e.1 ++ ":") ++ String.join (e.2.map fun f => line ("  " ++ f.1 ++ ": " ++ f.2)))

end Output

end PackRpc
