import PropTable.Formula.Label

/-!
# Formula trees

`Tree` is the shape of a well-formed formula, brackets included. Its meaning is `Tree.value`, its
text is `Tree.label`, and `Tree.nodes` lists the negations and connectives below it, operands before
the node that joins them. `Tree.survey` computes all three in one walk (`survey_eq`).
-/

namespace PropTable

/-- A well-formed formula. -/
inductive Tree where
  | name (token : String)
  | negation (operand : Tree)
  | binary (c : Connective) (left right : Tree)
  | group (inner : Tree)
deriving DecidableEq, Repr

namespace Tree

/-- The truth value of the formula when the names have the values `ρ`. -/
def value (ρ : String → Bool) : Tree → Bool
  | .name token => ρ token
  | .negation t => !t.value ρ
  | .binary c l r => c.apply (l.value ρ) (r.value ρ)
  | .group t => t.value ρ

/-- The text that heads the column of the formula. -/
def label : Tree → String
  | .name token => token
  | .negation t => Label.negation t.label
  | .binary c l r => Label.binary (.connective c) l.label r.label
  | .group t => Label.parenthesize t.label

/-- The negations and connectives of the formula, each after those of its operands. -/
def nodes : Tree → List Tree
  | .name _ => []
  | .negation t => t.nodes ++ [.negation t]
  | .binary c l r => l.nodes ++ (r.nodes ++ [.binary c l r])
  | .group t => t.nodes

def reading (ρ : String → Bool) (t : Tree) : String × Bool :=
  (t.label, t.value ρ)

/-- What one walk over a formula finds: its value, its label, and the label and value of each
negation and connective in the order of `Tree.nodes`. -/
structure Survey where
  value : Bool
  label : String
  readings : List (String × Bool)

/-- Surveys the formula under the values `ρ`. No operand is skipped, whatever the other one's
value is. -/
def survey (ρ : String → Bool) : Tree → Survey
  | .name token => ⟨ρ token, token, []⟩
  | .negation t =>
    let s := t.survey ρ
    let label := Label.negation s.label
    ⟨!s.value, label, s.readings ++ [(label, !s.value)]⟩
  | .binary c l r =>
    let s := l.survey ρ
    let u := r.survey ρ
    let label := Label.binary (.connective c) s.label u.label
    let value := c.apply s.value u.value
    ⟨value, label, s.readings ++ (u.readings ++ [(label, value)])⟩
  | .group t =>
    let s := t.survey ρ
    ⟨s.value, Label.parenthesize s.label, s.readings⟩

theorem survey_eq (ρ : String → Bool) (t : Tree) :
    t.survey ρ = ⟨t.value ρ, t.label, t.nodes.map (reading ρ)⟩ := by
  induction t with
  | name token => rfl
  | negation t ih => simp [survey, ih, value, label, nodes, reading]
  | binary c l r ihl ihr => simp [survey, ihl, ihr, value, label, nodes, reading]
  | group t ih => simp [survey, ih, value, label, nodes]

end Tree

end PropTable
