import PackRpc.Text.Split
import PackRpc.Text.Width

namespace PackRpc.Text

structure Table where
  header : List String
  rows : List (List String) := []

namespace Table

def cellLines (text : String) : List String := (splitAt '\n' text.toList).map .ofList

/-- The columns of a cell: those of its widest line. -/
def cellWidth (text : String) : Nat := ((cellLines text).map width).foldl max 0

def widths (t : Table) : List Nat :=
  t.rows.foldl (fun widths row => List.zipWith max widths (row.map cellWidth)) (t.header.map cellWidth)

def cell (n : Nat) (text : String) : String :=
  " " ++ text ++ "".pushn ' ' (n - width text) ++ " "

def line (widths : List Nat) (cells : List String) : String :=
  "│" ++ "┆".intercalate (List.zipWith cell widths cells) ++ "│"

def row (widths : List Nat) (cells : List String) : List String :=
  let parts := cells.map cellLines
  let height := (parts.map List.length).foldl max 0
  (List.range height).map fun i => line widths (parts.map fun lines => lines.getD i "")

def rule (widths : List Nat) (left line cross right : String) : String :=
  left ++ cross.intercalate (widths.map fun n => String.join (List.replicate (n + 2) line)) ++ right

def lines (t : Table) : List String :=
  let w := t.widths
  [rule w "┌" "─" "┬" "┐"] ++ row w t.header ++ [rule w "╞" "═" "╪" "╡"] ++
    ((t.rows.map (row w)).intersperse [rule w "├" "╌" "┼" "┤"]).flatten ++
    [rule w "└" "─" "┴" "┘"]

def text (t : Table) : String := "\n".intercalate t.lines

end Table

end PackRpc.Text
