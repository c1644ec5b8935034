import PropTable.Formula.Symbol

/-!
# Intents

An intent is a command from a button, a voice or a script. There are fifteen: one for each symbol,
one for each of four letters, and three that act on the formula as a whole. A name is resolved
without regard to underscores and to the case of its letters.
-/

namespace PropTable

/-- The letters that have an intent of their own. -/
inductive Letter where
  | p
  | q
  | r
  | s
deriving DecidableEq, Repr

def Letter.token : Letter → String
  | .p => "P"
  | .q => "Q"
  | .r => "R"
  | .s => "S"

/-- A command to a session. -/
inductive Intent where
  | addSymbol (s : Symbol)
  | addLetter (l : Letter)
  | solve
  | clear
  | deleteLast
deriving DecidableEq, Repr

namespace Intent

def all : List Intent :=
  [.addSymbol (.connective .and), .addSymbol (.connective .or), .addSymbol .not,
    .addSymbol (.connective .implies), .addSymbol (.connective .iff),
    .addSymbol (.connective .xor), .addSymbol .leftParen, .addSymbol .rightParen,
    .addLetter .p, .addLetter .q, .addLetter .r, .addLetter .s, .solve, .clear, .deleteLast]

def tag : Intent → String
  | .addSymbol .not => "add_not"
  | .addSymbol (.connective .and) => "add_and"
  | .addSymbol (.connective .or) => "add_or"
  | .addSymbol (.connective .xor) => "add_xor"
  | .addSymbol (.connective .implies) => "add_implication"
  | .addSymbol (.connective .iff) => "add_equivalence"
  | .addSymbol .leftParen => "add_open_parentheses"
  | .addSymbol .rightParen => "add_closed_parentheses"
  | .addLetter .p => "add_p"
  | .addLetter .q => "add_q"
  | .addLetter .r => "add_r"
  | .addLetter .s => "add_s"
  | .solve => "solve_formula"
  | .clear => "clear_formula"
  | .deleteLast => "delete_formula"

/-- What is left of a name when underscores and case are ignored. Case is that of ASCII letters;
the one other character with an ASCII lower case is the Kelvin sign, and no tag has its letter. -/
def key (name : String) : String :=
  String.ofList ((name.toList.filter (· != '_')).map Char.toLower)

/-- The intent that a name stands for. -/
def ofName? (name : String) : Option Intent :=
  all.find? fun i => key i.tag == key name

/-- The token that an intent adds to the formula, if it adds one. -/
def token? : Intent → Option String
  | .addSymbol s => some s.spelling
  | .addLetter l => some l.token
  | _ => none

theorem mem_all (i : Intent) : i ∈ all := by
  cases i with
  | addSymbol s =>
    cases s with
    | connective c => cases c <;> decide
    | _ => decide
  | addLetter l => cases l <;> decide
  | _ => decide

end Intent

end PropTable
