import PropTable.Datum
import PropTable.Evaluation.Valuation
import PropTable.Formula.Parser

/-!
# Evaluating a token list

`evaluate` reads a token list as a formula, works out its value under an assignment, and records the
value of each sub-formula under its label. The record of a failed attempt is kept too: it holds the
sub-formulas that were complete when reading stopped.
-/

namespace PropTable

/-- Values for names, as a caller gives them. -/
abbrev Assignment := List (String × Datum)

/-- The truth value an assignment gives to a name. -/
def Assignment.value? (a : Assignment) (name : String) : Option Bool :=
  (a.lookup name).map Datum.truth

/-- The assignment that gives names truth values outright. -/
def Assignment.ofValues (values : List (String × Bool)) : Assignment :=
  values.map fun p => (p.1, .flag p.2)

/-- What a formula evaluates to: its own value, and those of its sub-formulas by label. -/
structure Evaluation where
  result : Bool
  trace : List (String × Bool)
deriving DecidableEq, Repr

namespace Evaluation

/-- The labels of the sub-formulas, in the order in which these were complete. -/
def labels (e : Evaluation) : List String :=
  e.trace.map Prod.fst

def value? (e : Evaluation) (label : String) : Option Bool :=
  e.trace.lookup label

def valuation (e : Evaluation) : Valuation :=
  Valuation.ofList e.trace

end Evaluation

/-- One attempt at a formula: what was recorded on the way, and how it ended. -/
structure Attempt where
  recordings : List Valuation.Recording
  outcome : Except FormulaError Evaluation

/-- Leaves out the readings whose label is one of the texts in `excluded`. -/
def withoutLabels (excluded : List String) (readings : List (String × Bool)) :
    List (String × Bool) :=
  readings.filter fun r => !excluded.contains r.1

/-- Evaluates a token list under an assignment. Nothing is recorded under the labels in `excluded`,
and negations and brackets may nest at most `maxDepth` levels deep. -/
def evaluate (tokens : List String) (a : Assignment) (excluded : List String) (maxDepth : Int) :
    Attempt :=
  let known := fun name => (a.value? name).isSome
  let ρ := fun name => (a.value? name).getD false
  match Tree.ofTokens known maxDepth.toNat tokens with
  | .ok tree =>
    let s := tree.survey ρ
    let (recordings, v) := Valuation.empty.recordAll (withoutLabels excluded s.readings)
    ⟨recordings, .ok ⟨s.value, v.entries⟩⟩
  | .error stop =>
    let readings := stop.finished.flatMap fun t => (t.survey ρ).readings
    let (recordings, _) := Valuation.empty.recordAll (withoutLabels excluded readings)
    ⟨recordings, .error (stop.error tokens.length maxDepth)⟩

end PropTable
