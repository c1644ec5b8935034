import PropTable.Buffer
import PropTable.Intent
import PropTable.Table.Build

/-!
# Sessions

A session couples a buffer with the latest truth table that was built from it. The table is a value
of its own: later edits of the buffer leave it alone, and only `Session.deleteAll` forgets it. A step
that fails leaves the tokens and the table as they were.
-/

namespace PropTable

open Log

/-- Why a step of a session failed. -/
inductive SessionError where
  | rejected (token : RejectedToken)
  | unsolved (error : BuildError)

/-- A buffer, the nesting bound for its formula, and the latest table. -/
structure Session where
  buffer : Buffer
  maxDepth : Int
  lastTable : Option Table
deriving DecidableEq, Repr

namespace Session

/-- A session on a buffer, without a table. -/
def ofBuffer (b : Buffer) (maxDepth : Int) : Session :=
  ⟨b, maxDepth, none⟩

def display (s : Session) : String :=
  s.buffer.display

def add (s : Session) (x : Datum) : Journal (Except RejectedToken Unit × Session) := do
  match ← s.buffer.append x with
  | .error r => return (.error r, s)
  | .ok b => return (.ok (), { s with buffer := b })

def deleteLast (s : Session) : Journal Session := do
  return { s with buffer := ← s.buffer.removeLast }

/-- Drops the formula and the table. -/
def deleteAll (s : Session) : Session :=
  { s with buffer := s.buffer.clear, lastTable := none }

/-- Drops the formula and keeps the table. -/
def clearBuffer (s : Session) : Session :=
  { s with buffer := s.buffer.clear }

/-- Builds the truth table of the formula. There is none for an empty formula. -/
def solve (s : Session) : Journal (Except BuildError (Option Table) × Session) := do
  if s.buffer.isEmpty then
    Journal.tell .nothingToSolve
    return (.ok none, s)
  match ← Table.build s.buffer.tokens s.maxDepth with
  | .ok table => return (.ok (some table), { s with lastTable := some table })
  | .error (.formula err) =>
    Journal.tell (.formulaRejected s.display err.message)
    return (.error (.formula err), s)
  | .error err => return (.error err, s)

def perform (s : Session) (i : Intent) :
    Journal (Except SessionError (Option Table) × Session) := do
  match i with
  | .solve =>
    let (outcome, s) ← s.solve
    return (outcome.mapError .unsolved, s)
  | .clear => return (.ok none, s.deleteAll)
  | .deleteLast => return (.ok none, ← s.deleteLast)
  | .addSymbol symbol =>
    let (outcome, s) ← s.add (.text symbol.spelling)
    return ((outcome.map fun _ => none).mapError .rejected, s)
  | .addLetter letter =>
    let (outcome, s) ← s.add (.text letter.token)
    return ((outcome.map fun _ => none).mapError .rejected, s)

/-- Carries out the intent that a name stands for; other names change nothing. -/
def dispatch (s : Session) (name : String) :
    Journal (Except SessionError (Option Table) × Session) := do
  match Intent.ofName? name with
  | none =>
    Journal.tell (.intentUnknown name)
    return (.ok none, s)
  | some i =>
    Journal.tell (.intentDispatched i)
    s.perform i

/-- Carries out intents by name, up to the first that fails. -/
def dispatchAll (s : Session) : List String → Journal (Except SessionError Unit × Session)
  | [] => return (.ok (), s)
  | name :: names => do
    match ← s.dispatch name with
    | (.error err, s) => return (.error err, s)
    | (.ok _, s) => s.dispatchAll names

end Session

end PropTable
