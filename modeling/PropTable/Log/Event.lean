import PropTable.Evaluation.Valuation
import PropTable.Intent
import PropTable.Log.Severity
import PropTable.Text.Quoted

/-!
# Events

What the library does is told as a list of events. `Event.entry` gives the log entry of an event;
whether the entry is written is decided where the log is read.
-/

namespace PropTable.Log

/-- Something that the log tells of. -/
inductive Event where
  | solverCreated (formula : String) (names : List String)
  | subformulaRecorded (recording : Valuation.Recording)
  | evaluated (formula : String) (result : Bool) (labels : Int)
  | tabulated (names labels rows : Int)
  | formulaRejected (formula reason : String)
  | tokenAppended (token display : String)
  | tokenRemoved (token : String)
  | nothingToSolve
  | intentDispatched (intent : Intent)
  | intentUnknown (name : String)
  | formulaTaken (display : String)
  | formulaEmpty
  | formulaMalformed (reason : String)
  | variableUnknown (reason : String)
  | fileUnreadable (reason : String)
  | noTableSolved
deriving DecidableEq, Repr

def truthLetter (value : Bool) : String :=
  if value then "T" else "F"

namespace Event

def severity : Event → Severity
  | .solverCreated .. => .debug
  | .subformulaRecorded _ => .debug
  | .evaluated .. => .debug
  | .tabulated .. => .info
  | .formulaRejected .. => .error
  | .tokenAppended .. => .debug
  | .tokenRemoved _ => .debug
  | .nothingToSolve => .debug
  | .intentDispatched _ => .debug
  | .intentUnknown _ => .warning
  | .formulaTaken _ => .info
  | .formulaEmpty => .error
  | .formulaMalformed _ => .error
  | .variableUnknown _ => .error
  | .fileUnreadable _ => .error
  | .noTableSolved => .error

def message : Event → String
  | .solverCreated formula names =>
    "Solver created for " ++ formula ++ " with variables " ++ Text.quotedList names
  | .subformulaRecorded r =>
    "    " ++ (if r.first then "+" else "~") ++ " " ++ r.label ++ " = " ++ truthLetter r.value
  | .evaluated formula result labels =>
    "Evaluated " ++ formula ++ " → " ++ truthLetter result ++ " (" ++ toString labels ++
      " sub-expressions)"
  | .tabulated names labels rows =>
    "Truth table: " ++ toString names ++ " variables, " ++ toString labels ++
      " sub-expressions, " ++ toString rows ++ " rows"
  | .formulaRejected formula reason => "❌ Cannot solve " ++ formula ++ ": " ++ reason
  | .tokenAppended token display => "Buffer append '" ++ token ++ "' → " ++ display
  | .tokenRemoved token => "Buffer removed '" ++ token ++ "'"
  | .nothingToSolve => "Solve skipped: formula is empty"
  | .intentDispatched intent => "Dispatching intent " ++ intent.tag
  | .intentUnknown name => "No handler for intent: " ++ name
  | .formulaTaken display => "📋 Formula: " ++ display
  | .formulaEmpty => "Formula is empty; nothing to solve"
  | .formulaMalformed reason => "Malformed formula: " ++ reason
  | .variableUnknown reason => "Unknown variable: " ++ reason
  | .fileUnreadable reason => "Formula file error: " ++ reason
  | .noTableSolved => "No truth table was solved"

def entry (e : Event) : Entry :=
  ⟨e.severity, e.message⟩

end Event

/-- The events that pass a threshold. -/
def passing (threshold : Severity) (events : List Event) : List Event :=
  events.filter fun e => e.severity.passes threshold

/-- What is written of the events under a threshold. -/
def written (threshold : Severity) (events : List Event) : String :=
  String.join ((passing threshold events).map fun e => e.entry.line)

end PropTable.Log
