import PropTable.Solver
import PropTable.Table.Basic

/-!
# Building a truth table

`Table.build` evaluates a formula under every assignment of its variables. The labels of the first
evaluation head the columns of all rows.
-/

namespace PropTable

open Log

/-- Why there is no truth table. -/
inductive BuildError where
  /-- The formula has no tokens. -/
  | emptyFormula
  /-- The formula was refused. -/
  | formula (error : FormulaError)
  /-- A row has no value for one of the labels. -/
  | missingLabel (label : String)
deriving DecidableEq, Repr

def BuildError.message : BuildError → String
  | .emptyFormula => "Cannot build a truth table for an empty formula"
  | .formula error => error.message
  | .missingLabel label => label

namespace Table

/-- The values recorded under the labels, in their order. -/
def labelValues (e : Evaluation) : List String → Except BuildError (List Bool)
  | [] => .ok []
  | label :: labels =>
    match e.value? label with
    | none => .error (.missingLabel label)
    | some value => (labelValues e labels).map (value :: ·)

/-- The row of an assignment under the columns headed by `labels`. -/
def rowOf (labels : List String) (a : List (String × Bool)) (e : Evaluation) :
    Except BuildError Row :=
  (labelValues e labels).map fun values => ⟨a, e.result, a.map Prod.snd ++ values⟩

/-- The rows of the assignments, evaluated in turn until one fails, with the labels of the columns.
Where no labels are given yet, the first evaluation supplies them. -/
def rowsOf (s : Solver) (labels? : Option (List String)) :
    List (List (String × Bool)) → Journal (Except BuildError (List String × List Row))
  | [] => return .ok (labels?.getD [], [])
  | a :: rest => do
    let (outcome, _) ← s.evaluate (.ofValues a)
    match outcome with
    | .error err => return .error (.formula err)
    | .ok e =>
      let labels := labels?.getD e.labels
      match rowOf labels a e with
      | .error err => return .error err
      | .ok row =>
        (Except.map fun (labels, rows) => (labels, row :: rows)) <$> rowsOf s (some labels) rest

/-- The truth table of a formula whose negations and brackets nest at most `maxDepth` levels
deep. -/
def build (tokens : List String) (maxDepth : Int) : Journal (Except BuildError Table) := do
  let s ← Solver.create tokens maxDepth
  if tokens.isEmpty then return .error .emptyFormula
  match ← rowsOf s none s.assignments with
  | .error err => return .error err
  | .ok (labels, rows) =>
    Journal.tell (.tabulated s.names.length labels.length rows.length)
    return .ok ⟨tokens, s.names, labels, rows⟩

end Table

end PropTable
