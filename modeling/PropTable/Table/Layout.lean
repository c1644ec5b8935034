import PropTable.Table.Basic
import PropTable.Text.Blank

/-!
# The layout of a printed table

Each column is as wide as its widest text, and every line loses the blanks at its end. Only a table
whose rows have a value for each column is printed.
-/

namespace PropTable.Table

/-- What stands between two columns when nothing else is asked for. -/
def defaultSeparator : String := "  "

/-- The length of the longest text at position `i` of the rows. -/
def columnWidth (grid : List (List String)) (i : Nat) : Nat :=
  (grid.filterMap fun row => row[i]?.map String.length).foldl max 0

/-- The widths of the columns. There are as many columns as heads. -/
def columnWidths (t : Table) : List Nat :=
  (List.range t.headers.length).map (columnWidth t.cells)

/-- One line: the texts padded to the widths of their columns. Texts without a column are left
out. -/
def formatLine (separator : String) (widths : List Nat) (row : List String) : String :=
  Text.trimRight
    (separator.intercalate ((row.zip widths).map fun (text, width) => Text.padRight width text))

/-- The lines of a table: the heads, then a line for each row. -/
def formatLines (t : Table) (separator : String) : List String :=
  t.cells.map (formatLine separator t.columnWidths)

/-- The printed table, or `none` if a row has no value for one of the columns. -/
def format? (t : Table) (separator : String) : Option String :=
  if t.isComplete then some ("\n".intercalate (t.formatLines separator)) else none

end PropTable.Table
