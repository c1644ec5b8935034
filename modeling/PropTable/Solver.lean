import PropTable.Evaluation.Basic
import PropTable.Log.Journal

/-!
# Solvers

A solver holds one formula and evaluates it under any number of assignments. It remembers the latest
evaluation, and nothing when the latest attempt failed. `assignmentsOf` lists all assignments of a
list of names: in the one at index `i`, the name at position `j` has the value of bit `j` of `i`.
-/

namespace PropTable

open Log

/-- The nesting bound in force when none is given. -/
def defaultMaxDepth : Int := 100

/-- All assignments of truth values to `names`, in the order of their indices. -/
def assignmentsOf (names : List String) : List (List (String × Bool)) :=
  (List.range (Nat.pow 2 names.length)).map fun i =>
    names.zipIdx.map fun (name, j) => (name, i.testBit j)

/-- A formula with its nesting bound and its latest evaluation. -/
structure Solver where
  tokens : List String
  maxDepth : Int
  last : Option Evaluation
deriving DecidableEq, Repr

namespace Solver

def text (s : Solver) : String :=
  displayTokens s.tokens " "

/-- The names of the formula in the order of their code points. -/
def names (s : Solver) : List String :=
  variablesOf s.tokens

/-- A solver that has evaluated nothing yet. -/
def create (tokens : List String) (maxDepth : Int) : Journal Solver := do
  let s : Solver := ⟨tokens, maxDepth, none⟩
  Journal.tell (.solverCreated s.text s.names)
  return s

def assignments (s : Solver) : List (List (String × Bool)) :=
  assignmentsOf s.names

def evaluate (s : Solver) (a : Assignment) :
    Journal (Except FormulaError Evaluation × Solver) := do
  let attempt := PropTable.evaluate s.tokens a s.names s.maxDepth
  Journal.tellAll (attempt.recordings.map .subformulaRecorded)
  match attempt.outcome with
  | .ok e =>
    Journal.tell (.evaluated s.text e.result e.labels.length)
    return (.ok e, { s with last := some e })
  | .error err => return (.error err, { s with last := none })

def lastLabels (s : Solver) : List String :=
  match s.last with
  | some e => e.labels
  | none => []

def lastTrace (s : Solver) : List (String × Bool) :=
  match s.last with
  | some e => e.trace
  | none => []

end Solver

end PropTable
