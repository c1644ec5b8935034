import PropTable.Formula.Symbol

/-!
# Labels of sub-formulas

The column of a truth table that belongs to a sub-formula is headed by its label. A binary label
brings its own brackets, so a bracketed sub-formula is given no second pair: `Label.parenthesize`
leaves a label alone when one pair already encloses all of it.
-/

namespace PropTable.Label

/-- Whether the group that is open at the start of `cs` is closed by the last character of `cs`,
where `inner` further groups are open inside it. -/
def closesAtEnd (inner : Nat) : List Char → Bool
  | [] => false
  | c :: cs =>
    if c = '(' then closesAtEnd (inner + 1) cs
    else if c = ')' then
      match inner with
      | 0 => cs.isEmpty
      | inner + 1 => closesAtEnd inner cs
    else closesAtEnd inner cs

/-- Whether the first and the last character are brackets that belong together. -/
def enclosed : List Char → Bool
  | [] => false
  | c :: cs => c = '(' && closesAtEnd 0 cs

/-- Whether one pair of brackets encloses the whole label. -/
def isEnclosed (label : String) : Bool :=
  enclosed label.toList

/-- The label of a bracketed sub-formula. -/
def parenthesize (label : String) : String :=
  if isEnclosed label then label else "(" ++ label ++ ")"

/-- The label of two operands joined by a symbol. -/
def binary (s : Symbol) (left right : String) : String :=
  "(" ++ left ++ s.glyph ++ right ++ ")"

def negation (operand : String) : String :=
  Symbol.not.glyph ++ operand

end PropTable.Label
