import PropTable.Datum
import PropTable.Formula.Symbol
import PropTable.Log.Journal

/-!
# Formula buffers

A buffer holds the tokens of a formula under construction. Tokens come and go at its end only, and
any order of them is legal; whether they form a formula is not the concern of the buffer.
-/

namespace PropTable

open Log

/-- A datum that is no token: only texts with at least one character are. -/
structure RejectedToken where
  datum : Datum

def RejectedToken.message (r : RejectedToken) : String :=
  "Formula tokens must be non-empty strings, got " ++ r.datum.shown

/-- The tokens of a formula under construction, from the first to the last. -/
structure Buffer where
  tokens : List String
deriving DecidableEq, Repr

namespace Buffer

def empty : Buffer := ⟨[]⟩

/-- The token that a datum stands for. -/
def token? : Datum → Option String
  | .text t => if t.isEmpty then none else some t
  | _ => none

def display (b : Buffer) : String :=
  displayTokens b.tokens " "

def isEmpty (b : Buffer) : Bool :=
  b.tokens.isEmpty

def text (b : Buffer) : String :=
  "FormulaBuffer(" ++ Text.quotedList b.tokens ++ ")"

/-- Adds a token at the end, or rejects what is no token. -/
def append (b : Buffer) (x : Datum) : Journal (Except RejectedToken Buffer) := do
  match token? x with
  | none => return .error ⟨x⟩
  | some t =>
    let b : Buffer := ⟨b.tokens ++ [t]⟩
    Journal.tell (.tokenAppended t b.display)
    return .ok b

/-- Adds tokens one after the other, up to the first that is rejected. -/
def appendAll (b : Buffer) : List Datum → Journal (Except RejectedToken Buffer)
  | [] => return .ok b
  | x :: xs => do
    match ← b.append x with
    | .error r => return .error r
    | .ok b => b.appendAll xs

/-- The buffer that holds the data as its tokens. -/
def ofList (xs : List Datum) : Journal (Except RejectedToken Buffer) :=
  empty.appendAll xs

/-- Drops the last token, if there is one. -/
def removeLast (b : Buffer) : Journal Buffer := do
  match b.tokens.getLast? with
  | none => return b
  | some t =>
    Journal.tell (.tokenRemoved t)
    return ⟨b.tokens.dropLast⟩

def clear (_ : Buffer) : Buffer := empty

end Buffer

end PropTable
