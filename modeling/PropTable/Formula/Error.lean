/-!
# Errors of a formula

A token list that cannot be evaluated is refused for one of three causes. `FormulaError.message` is
the one place where a cause becomes text.
-/

namespace PropTable

/-- The text that stands for the place behind the last token. -/
def endOfInput : String := "end of input"

/-- Why a formula was refused. -/
inductive FormulaError where
  /-- The tokens break the grammar at `position`, where `expected` was due. -/
  | malformed (expected found : String) (position : Int)
  /-- The negation or bracket at `position` opens more than `limit` levels. -/
  | tooDeep (limit : Int) (found : String) (position : Int)
  /-- The assignment has no value for a name. -/
  | unknownVariable (name : String)
deriving DecidableEq, Repr

namespace FormulaError

/-- The text of a token where it was not expected. The end marker is no token and stands without
quotes, and so does a token that is spelled like it. -/
def foundText (found : String) : String :=
  if found = endOfInput then found else "'" ++ found ++ "'"

def withinLimit (limit : Int) : String :=
  "nesting depth of at most " ++ toString limit

def mismatch (expected found : String) (position : Int) : String :=
  "Expected " ++ expected ++ " but found " ++ foundText found ++ " at token " ++ toString position

def message : FormulaError → String
  | .malformed expected found position => mismatch expected found position
  | .tooDeep limit found position => mismatch (withinLimit limit) found position
  | .unknownVariable name => "Unknown variable '" ++ name ++ "'"

/-- Whether the token list itself is at fault, as opposed to the assignment. -/
def isMalformed : FormulaError → Bool
  | .malformed .. => true
  | .tooDeep .. => true
  | .unknownVariable _ => false

end FormulaError

end PropTable
