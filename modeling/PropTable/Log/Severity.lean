/-!
# Severities and the lines of the log

Each entry of the log has a severity. Where entries are written, a numeric threshold decides which
of them pass. Entries from `info` on are written as they are, and entries below it are marked.
-/

namespace PropTable.Log

/-- How serious an entry is. -/
inductive Severity where
  | debug
  | info
  | warning
  | error
deriving DecidableEq, Repr

/-- The number that thresholds compare. -/
def Severity.rank : Severity → Int
  | .debug => 10
  | .info => 20
  | .warning => 30
  | .error => 40

/-- The mark in front of an entry of a given rank. Only `10` has a name of its own below `20`, and
`0` is the rank of an entry that was given none. -/
def mark (rank : Int) : String :=
  if 20 ≤ rank then ""
  else if rank = 10 then "[DEBUG] "
  else if rank = 0 then "[NOTSET] "
  else "[Level " ++ toString rank ++ "] "

def entryText (rank : Int) (message : String) : String :=
  mark rank ++ message

/-- An entry of the log. -/
structure Entry where
  severity : Severity
  message : String
deriving DecidableEq, Repr

def Entry.line (e : Entry) : String :=
  entryText e.severity.rank e.message ++ "\n"

/-- Whether an entry of this severity passes a threshold. -/
def Severity.passes (s threshold : Severity) : Bool :=
  threshold.rank ≤ s.rank

end PropTable.Log
