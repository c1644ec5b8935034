import PropTable.Formula.Error
import PropTable.Formula.Tree

/-!
# From tokens to a formula tree

The grammar has one kind of phrase for each rank of connective. A phrase of rank `k + 1` is a chain
of phrases of rank `k` joined by connectives of rank `k + 1`; a phrase of rank `0` is a negation, a
bracketed formula or a name. Chains group from the left, except those of implications.

`phrase` reads the longest phrase at the front of a token list. Each step hands back the rest of the
list with a proof that it is shorter, so the recursion goes down on the length of the list and, where
no token is consumed, on the rank. Brackets and negations are the only phrases that hold a phrase of
the same or a looser rank, and each of them takes one unit of `room`; chains take none.
-/

namespace PropTable

/-- What a token list lacks at the place where reading stopped. -/
inductive Fault where
  /-- Neither a name nor an opening bracket nor a negation stands here. -/
  | operandExpected
  /-- A bracket is open and nothing else can follow but its partner. -/
  | closingExpected
  /-- The formula is complete, but tokens follow. -/
  | operatorExpected
  /-- The negation or opening bracket here has no room left. -/
  | noRoom
  /-- The name here has no value. -/
  | unknownName (name : String)
deriving DecidableEq, Repr

/-- Where and why reading stopped: `rest` starts with the offending token, and `finished` lists the
phrases that were complete by then, from left to right. Together they hold every negation and
connective that was complete. -/
structure Stop where
  fault : Fault
  rest : List String
  finished : List Tree
deriving DecidableEq, Repr

namespace Stop

/-- The same stop, seen from a phrase that had read `t` before it. -/
def after (t : Tree) (s : Stop) : Stop :=
  { s with finished := t :: s.finished }

/-- The negations and connectives that were complete, in the order in which they became so. -/
def nodes (s : Stop) : List Tree :=
  s.finished.flatMap Tree.nodes

end Stop

/-- A phrase read off the front of a list of `n` tokens, with the tokens behind it. -/
structure Phrase (n : Nat) where
  tree : Tree
  rest : List String
  shorter : rest.length < n

namespace Phrase

/-- A phrase of a shorter list is a phrase of every list that ends in it. -/
def mono {m n : Nat} (h : m ≤ n) (p : Phrase m) : Phrase n :=
  ⟨p.tree, p.rest, Nat.lt_of_lt_of_le p.shorter h⟩

end Phrase

/-- The connective a token spells, if it spells one. -/
def connective? (token : String) : Option Connective :=
  match Symbol.ofToken? token with
  | some (.connective c) => some c
  | _ => none

mutual

/-- Reads a phrase of rank `0`. Only names for which `known` holds are admitted. -/
def operand (known : String → Bool) (room : Nat) (ts : List String) :
    Except Stop (Phrase ts.length) :=
  match ts with
  | [] => .error ⟨.operandExpected, [], []⟩
  | t :: r =>
    match Symbol.ofToken? t with
    | none =>
      if known t then .ok ⟨.name t, r, by simp⟩ else .error ⟨.unknownName t, t :: r, []⟩
    | some .not =>
      match room with
      | 0 => .error ⟨.noRoom, t :: r, []⟩
      | room + 1 =>
        match operand known room r with
        | .error stop => .error stop
        | .ok ⟨tree, rest, h⟩ => .ok ⟨.negation tree, rest, by simp; omega⟩
    | some .leftParen =>
      match room with
      | 0 => .error ⟨.noRoom, t :: r, []⟩
      | room + 1 =>
        match phrase known room Connective.loosest r with
        | .error stop => .error stop
        | .ok ⟨tree, [], _⟩ => .error ⟨.closingExpected, [], [tree]⟩
        | .ok ⟨tree, u :: rest, h⟩ =>
          if Symbol.ofToken? u = some .rightParen then
            .ok ⟨.group tree, rest, by simp at h ⊢; omega⟩
          else .error ⟨.closingExpected, u :: rest, [tree]⟩
    | some _ => .error ⟨.operandExpected, t :: r, []⟩
termination_by (ts.length, 0)

/-- Reads the longest phrase of rank `k`. -/
def phrase (known : String → Bool) (room k : Nat) (ts : List String) :
    Except Stop (Phrase ts.length) :=
  match k with
  | 0 => operand known room ts
  | k + 1 =>
    match phrase known room k ts with
    | .error stop => .error stop
    | .ok ⟨left, rest, h⟩ =>
      match chain known room k left rest with
      | .error stop => .error stop
      | .ok p => .ok (p.mono h)
termination_by (ts.length, k + 1)

/-- Extends `left` by the connectives of rank `k + 1` that follow it, if any. -/
def chain (known : String → Bool) (room k : Nat) (left : Tree) (ts : List String) :
    Except Stop (Phrase (ts.length + 1)) :=
  match ts with
  | [] => .ok ⟨left, [], by simp⟩
  | t :: r =>
    match connective? t with
    | none => .ok ⟨left, t :: r, by simp⟩
    | some c =>
      if c.rank = k + 1 then
        if c.groupsRight then
          match phrase known room (k + 1) r with
          | .error stop => .error (stop.after left)
          | .ok ⟨right, rest, h⟩ => .ok ⟨.binary c left right, rest, by simp; omega⟩
        else
          match phrase known room k r with
          | .error stop => .error (stop.after left)
          | .ok ⟨right, rest, h⟩ =>
            match chain known room k (.binary c left right) rest with
            | .error stop => .error stop
            | .ok p => .ok (p.mono (by simp; omega))
      else .ok ⟨left, t :: r, by simp⟩
termination_by (ts.length, 0)

end

/-- Reads a whole token list as a formula that nests at most `room` levels deep. -/
def Tree.ofTokens (known : String → Bool) (room : Nat) (tokens : List String) :
    Except Stop Tree :=
  match phrase known room Connective.loosest tokens with
  | .error stop => .error stop
  | .ok ⟨tree, [], _⟩ => .ok tree
  | .ok ⟨tree, t :: rest, _⟩ => .error ⟨.operatorExpected, t :: rest, [tree]⟩

/-- The error that a stop amounts to in a list of `total` tokens under the bound `limit`. -/
def Stop.error (total : Nat) (limit : Int) (s : Stop) : FormulaError :=
  let found := s.rest.headD endOfInput
  let position := total - s.rest.length
  match s.fault with
  | .operandExpected => .malformed "a variable or '('" found position
  | .closingExpected => .malformed "')'" found position
  | .operatorExpected => .malformed "an operator or end of input" found position
  | .noRoom => .tooDeep limit found position
  | .unknownName name => .unknownVariable name

end PropTable
