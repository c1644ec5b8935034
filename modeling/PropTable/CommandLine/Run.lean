import PropTable.CommandLine.Arguments
import PropTable.CommandLine.FormulaFile
import PropTable.Log.Registry
import PropTable.Session
import PropTable.Table.Layout

/-!
# The command line

A run takes a formula from the arguments or from a file, or replays intents, and prints a truth
table. `run` gives all that happens as a value: the events, what is printed behind them, and how the
run ends. The verbosity flags decide which events are written and nothing else.
-/

namespace PropTable.CommandLine

open Log

/-- How a run ends. -/
inductive Exit where
  | success
  | unsolved
  | malformed
  | unknownVariable
  | unreadable
  /-- The run was cut short by an error that nothing handles. -/
  | fault
deriving DecidableEq, Repr

def Exit.code : Exit → Nat
  | .success => 0
  | .unsolved => 1
  | .malformed => 2
  | .unknownVariable => 3
  | .unreadable => 4
  | .fault => 1

/-- How a run ends, and the lines it prints. -/
structure Verdict where
  exit : Exit
  lines : List String
deriving DecidableEq, Repr

def failing (exit : Exit) : Verdict := ⟨exit, []⟩

/-- Ends a run for which there is no truth table. -/
def concludeWithout : BuildError → Journal Verdict
  | .formula (.unknownVariable name) => do
    Journal.tell (.variableUnknown (FormulaError.unknownVariable name).message)
    return failing .unknownVariable
  | .formula err => do
    Journal.tell (.formulaMalformed err.message)
    return failing .malformed
  | .emptyFormula => do
    Journal.tell (.fileUnreadable BuildError.emptyFormula.message)
    return failing .unreadable
  | .missingLabel _ => return failing .fault

/-- Ends a run in which a step of a session failed. -/
def concludeSession : SessionError → Journal Verdict
  | .rejected r => do
    Journal.tell (.fileUnreadable r.message)
    return failing .unreadable
  | .unsolved err => concludeWithout err

def printTable (t : Table) : Verdict :=
  match t.format? Table.defaultSeparator with
  | some text => ⟨.success, [text]⟩
  | none => failing .fault

/-- Carries out intents on a new session and prints the table that it is left with. -/
def replay (names : List String) : Journal Verdict := do
  let (outcome, s) ← (Session.ofBuffer .empty defaultMaxDepth).dispatchAll names
  match outcome with
  | .error err => concludeSession err
  | .ok () =>
    match s.lastTable with
    | some t => return printTable t
    | none =>
      Journal.tell .noTableSolved
      return failing .unsolved

/-- Checks that the tokens are a formula. Whether they are does not depend on the values of the
names, so the first assignment decides. -/
def validate (tokens : List String) : Journal Verdict := do
  let s ← Solver.create tokens defaultMaxDepth
  let (outcome, _) ← s.evaluate (.ofValues (s.assignments.headD []))
  match outcome with
  | .error err => concludeWithout (.formula err)
  | .ok _ => return ⟨.success, ["✅ Formula is well-formed"]⟩

def tabulate (tokens : List String) : Journal Verdict := do
  match ← Table.build tokens defaultMaxDepth with
  | .error err => concludeWithout err
  | .ok t => return printTable t

/-- Takes the tokens as a formula, and checks or tabulates it. -/
def solve (validateOnly : Bool) (tokens : List String) : Journal Verdict := do
  match ← Buffer.ofList (tokens.map .text) with
  | .error r =>
    Journal.tell (.formulaMalformed r.message)
    return failing .malformed
  | .ok b =>
    if b.isEmpty then
      Journal.tell .formulaEmpty
      return failing .unsolved
    Journal.tell (.formulaTaken b.display)
    if validateOnly then validate b.tokens else tabulate b.tokens

/-- The tokens that the settings name. A formula file takes the place of the operands. -/
def sourceTokens (o : Settings) (read : String → Contents) : Except FileError (List String) :=
  match o.formulaFile with
  | none => .ok o.operands
  | some name =>
    let path := normalizePath name
    tokensOfContents path (read path)

def usage : String :=
  "usage: proptable [-h] [-f FORMULA_FILE] [--intents] [-v] [--debug] [--validate-only] [tokens ...]"

def execute (o : Settings) (read : String → Contents) : Journal Verdict := do
  if o.help then return ⟨.success, [usage]⟩
  if o.intents then replay o.operands
  else
    match sourceTokens o read with
    | .error err =>
      Journal.tell (.fileUnreadable err.message)
      return failing .unreadable
    | .ok tokens => solve o.validateOnly tokens

/-- All that a run does: its journal, and the threshold for what is written of it. -/
structure Report where
  threshold : Severity
  journal : Journal Verdict

namespace Report

/-- The text a run writes: the log, then the printed lines. -/
def output (r : Report) : String :=
  written r.threshold r.journal.events ++
    String.join (r.journal.result.lines.map fun line => line ++ "\n")

def exitCode (r : Report) : Nat :=
  r.journal.result.exit.code

end Report

/-- The report of a run under given settings, where `read` looks up files by their normalized
names. -/
def report (o : Settings) (read : String → Contents) : Report :=
  ⟨thresholdFor o.verbose o.debug, execute o read⟩

def run (read : String → Contents) (arguments : List String) : Except UsageError Report :=
  (parse arguments).map fun o => report o read

end PropTable.CommandLine
