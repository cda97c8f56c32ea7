/-!
# Tables in boxes

A table of texts between box-drawing lines. Columns are as wide as their widest cell; where that
makes the table too wide, the widest columns give way and their cells are cut. Widths count
characters.
-/

namespace LlvmBackend.Text

/-- Column titles and rows of cells, one cell for each column. -/
structure Table where
  headers : List String
  rows : List (List String)

namespace Table

/-- The greatest width of a whole table. -/
def maxWidth : Nat := 160

/-- Each column is as wide as the widest of its title and its cells. -/
def columnWidths (table : Table) : List Nat :=
  table.rows.foldl (fun widths row => widths.zipWith max (row.map String.length))
    (table.headers.map String.length)

/-- The width of a table with the frame and a blank on both sides of each cell. -/
def totalWidth (widths : List Nat) : Nat :=
  widths.foldl (· + ·) 0 + 3 * (widths.length - 1) + 4

/-- Takes one off the first number that equals a given one. -/
def lowerFirst (n : Nat) : List Nat → List Nat
  | [] => []
  | m :: rest => if m = n then (m - 1) :: rest else m :: lowerFirst n rest

/-- Takes one off the widest column, the last one among equals. -/
def narrowed (widths : List Nat) : List Nat :=
  (lowerFirst (widths.foldl max 0) widths.reverse).reverse

/-- The widths of the columns of a table that is not too wide. -/
def fittingWidths (table : Table) : List Nat :=
  let widths := table.columnWidths
  Nat.repeat narrowed (totalWidth widths - maxWidth) widths

/-- A cell of a width: filled up with blanks, or cut with a mark at the end. -/
def cellText (width : Nat) (cell : String) : String :=
  let length := cell.length
  if length ≤ width then cell ++ String.ofList (List.replicate (width - length) ' ')
  else String.ofList (cell.toList.take (width - 1)) ++ "+"

/-- A line of a frame: its left end, what parts its columns, and its right end. -/
def ruleLine (left middle right : String) (widths : List Nat) : String :=
  let bars := widths.map fun width => String.ofList (List.replicate (width + 2) '─')
  left ++ middle.intercalate bars ++ right ++ "\n"

/-- A line of cells. -/
def rowLine (widths : List Nat) (cells : List String) : String :=
  "│ " ++ " │ ".intercalate (widths.zipWith cellText cells) ++ " │\n"

/-- The text of a table; every line ends in a line feed. -/
def text (table : Table) : String :=
  let widths := table.fittingWidths
  ruleLine "┌" "┬" "┐" widths ++ rowLine widths table.headers ++ ruleLine "├" "┼" "┤" widths ++
    String.join (table.rows.map (rowLine widths)) ++ ruleLine "└" "┴" "┘" widths

end Table

end LlvmBackend.Text
