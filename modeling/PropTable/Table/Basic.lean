import PropTable.Evaluation.Valuation
import PropTable.Log.Event

/-!
# Truth tables

A truth table has one row for each assignment of its variables. Its columns are the variables
followed by the labels of the sub-formulas, and a row holds one value for each column. A table may
also be put together by hand, and then a row may lack values; `Table.isComplete` says that none does.
-/

namespace PropTable

/-- One row of a truth table: an assignment, the value of the formula, and the values of the
columns. -/
structure Row where
  assignment : List (String × Bool)
  result : Bool
  values : List Bool
deriving DecidableEq, Repr

def Row.valuation (r : Row) : Valuation :=
  Valuation.ofList r.assignment

/-- A truth table. -/
structure Table where
  tokens : List String
  names : List String
  labels : List String
  rows : List Row
deriving DecidableEq, Repr

/-- Why a column of a table cannot be read. -/
inductive ColumnError where
  /-- No column has this head. -/
  | unknownHeader (header : String)
  /-- A row has no value for the column. -/
  | missingValue
deriving DecidableEq, Repr

namespace Table

/-- The heads of the columns: the variables, then the labels. -/
def headers (t : Table) : List String :=
  t.names ++ t.labels

/-- The values of the formula from the first row to the last. -/
def results (t : Table) : List Bool :=
  t.rows.map Row.result

/-- Whether every row has a value for each column. Rows may hold further values. -/
def isComplete (t : Table) : Bool :=
  t.rows.all fun row => t.headers.length ≤ row.values.length

/-- The values of the first column with this head. -/
def column (t : Table) (header : String) : Except ColumnError (List Bool) :=
  match t.headers.idxOf? header with
  | none => .error (.unknownHeader header)
  | some i =>
    match t.rows.mapM fun row => row.values[i]? with
    | none => .error .missingValue
    | some values => .ok values

/-- The texts of the table: the heads, then the values of each row. -/
def cells (t : Table) : List (List String) :=
  t.headers :: t.rows.map fun row => row.values.map Log.truthLetter

end Table

end PropTable
