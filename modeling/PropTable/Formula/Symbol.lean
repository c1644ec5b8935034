/-!
# Symbols of a formula

A formula is a list of tokens. Eight spellings are reserved: negation, the five connectives and the
two brackets. Every other text stands for itself. `Symbol.ofToken?` reads a spelling and
`Symbol.spelling` writes it; `ofToken?_spelling` and `spelling_of_ofToken?` say that the two agree.
-/

namespace PropTable

/-- A binary connective. -/
inductive Connective where
  | and
  | or
  | xor
  | implies
  | iff
deriving DecidableEq, Repr

namespace Connective

/-- The truth function of a connective. -/
def apply : Connective → Bool → Bool → Bool
  | .and, a, b => a && b
  | .or, a, b => a || b
  | .xor, a, b => a != b
  | .implies, a, b => !a || b
  | .iff, a, b => a == b

/-- How loosely a connective binds: the operands of a connective of rank `k + 1` are phrases of
rank `k`, and rank `0` is left to negations, groups and names. -/
def rank : Connective → Nat
  | .and => 1
  | .or => 2
  | .xor => 2
  | .implies => 3
  | .iff => 4

/-- Whether a chain of the connective groups from the right. -/
def groupsRight : Connective → Bool
  | .implies => true
  | _ => false

/-- The rank of the loosest connective, hence of a whole formula. -/
def loosest : Nat := 4

theorem rank_le_loosest (c : Connective) : c.rank ≤ loosest := by cases c <;> decide

theorem rank_pos (c : Connective) : 0 < c.rank := by cases c <;> decide

end Connective

/-- A token with a fixed meaning. -/
inductive Symbol where
  | not
  | connective (c : Connective)
  | leftParen
  | rightParen
deriving DecidableEq, Repr

namespace Symbol

/-- All symbols, in the order of their precedence table. -/
def all : List Symbol :=
  [.not, .connective .and, .connective .or, .connective .xor, .connective .implies,
    .connective .iff, .leftParen, .rightParen]

/-- The token that stands for the symbol. -/
def spelling : Symbol → String
  | .not => "!"
  | .connective .and => "&&"
  | .connective .or => "||"
  | .connective .xor => "xor"
  | .connective .implies => "->"
  | .connective .iff => "<->"
  | .leftParen => "("
  | .rightParen => ")"

/-- The mark that stands for the symbol wherever a formula is shown. -/
def glyph : Symbol → String
  | .not => "¬"
  | .connective .and => "∧"
  | .connective .or => "∨"
  | .connective .xor => "⊕"
  | .connective .implies => "→"
  | .connective .iff => "↔"
  | .leftParen => "("
  | .rightParen => ")"

/-- The symbol that a token spells, if it spells one. -/
def ofToken? (token : String) : Option Symbol :=
  all.find? fun s => s.spelling == token

theorem mem_all (s : Symbol) : s ∈ all := by
  cases s with
  | connective c => cases c <;> decide
  | _ => decide

@[simp] theorem ofToken?_spelling (s : Symbol) : ofToken? s.spelling = some s := by
  cases s with
  | connective c => cases c <;> decide
  | _ => decide

theorem spelling_of_ofToken? {token : String} {s : Symbol} (h : ofToken? token = some s) :
    s.spelling = token := by
  simpa using List.find?_some h

end Symbol

/-- A token is a variable when it is neither empty nor reserved. -/
def isVariable (token : String) : Bool :=
  !token.isEmpty && (Symbol.ofToken? token).isNone

/-- The way a token is shown: symbols by their glyph, names as they are. -/
def displayToken (token : String) : String :=
  match Symbol.ofToken? token with
  | some s => s.glyph
  | none => token

/-- The tokens as they are shown, with `separator` between them. -/
def displayTokens (tokens : List String) (separator : String := " ") : String :=
  separator.intercalate (tokens.map displayToken)

/-- The names of a formula: its variables without repetition, in the order of their code points. -/
def variablesOf (tokens : List String) : List String :=
  (tokens.filter isVariable).eraseDups.mergeSort fun a b => decide (a ≤ b)

end PropTable
