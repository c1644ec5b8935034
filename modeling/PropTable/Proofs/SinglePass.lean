import PropTable.Evaluation.Basic

/-!
# Evaluation in a single pass

`evaluate` reads a formula first and works out its values from the tree. The same can be done while
the tokens are read: a phrase has its value and its label as soon as it is complete, and each
negation and connective is recorded at that moment. `Task.phrase` reads like this, with a count of
the open levels and the record so far as its state.

A chain that groups from the right can be read in two ways. The grammar has what stands behind the
connective read as a chain again (`Chaining.recursion`). A loop goes from operand to operand, keeps
those that it has read, and joins them from the right at the end of the chain (`Chaining.loop`).
-/

namespace PropTable

/-- How chains are read that group from the right. -/
inductive Chaining where
  | recursion
  | loop
deriving DecidableEq, Repr

/-- What is kept of a phrase. -/
structure Operand where
  value : Bool
  label : String
deriving DecidableEq, Repr

namespace Operand

def negation (x : Operand) : Operand :=
  ⟨!x.value, Label.negation x.label⟩

def group (x : Operand) : Operand :=
  ⟨x.value, Label.parenthesize x.label⟩

def binary (c : Connective) (l r : Operand) : Operand :=
  ⟨c.apply l.value r.value, Label.binary (.connective c) l.label r.label⟩

/-- A phrase at the front of a list of `n` tokens, with the tokens behind it. -/
structure Before (n : Nat) extends Operand where
  rest : List String
  shorter : rest.length < n

namespace Before

/-- The same phrase at the front of a longer list. -/
def mono {m n : Nat} (h : m ≤ n) (x : Before m) : Before n :=
  ⟨x.toOperand, x.rest, Nat.lt_of_lt_of_le x.shorter h⟩

end Before

end Operand

/-- The state of a pass: how many levels are open, the recorded values, and what was recorded. -/
structure Pass where
  depth : Nat
  valuation : Valuation
  recordings : List Valuation.Recording

namespace Pass

def initial : Pass := ⟨0, .empty, []⟩

/-- The state with one more level open. -/
def deeper (p : Pass) : Pass := { p with depth := p.depth + 1 }

end Pass

/-- A step of a pass. The state outlives an error. -/
def Rule (α : Type) : Type := Pass → Except FormulaError α × Pass

namespace Rule

variable {α β : Type}

instance : Monad Rule where
  pure a p := (.ok a, p)
  bind m f p :=
    match m p with
    | (.ok a, q) => f a q
    | (.error err, q) => (.error err, q)

theorem bind_apply {m : Rule α} {f : α → Rule β} {p q : Pass} {a : α} (h : m p = (.ok a, q)) :
    (m >>= f) p = f a q := by
  simp only [bind, h]

theorem bind_error {m : Rule α} {f : α → Rule β} {p q : Pass} {err : FormulaError}
    (h : m p = (.error err, q)) : (m >>= f) p = (.error err, q) := by
  simp only [bind, h]

end Rule

/-- What a pass is about. It has `total` tokens. -/
structure Task where
  chaining : Chaining
  assignment : Assignment
  excluded : List String
  limit : Int
  total : Nat

namespace Task

/-- Ends the pass with a fault in front of `rest`. -/
def fail {α : Type} (task : Task) (fault : Fault) (rest : List String) : Rule α :=
  fun p => (.error (Stop.error task.total task.limit ⟨fault, rest, []⟩), p)

/-- Opens a level in front of `rest` for as long as `inner` takes. -/
def nested {α : Type} (task : Task) (rest : List String) (inner : Rule α) : Rule α := fun p =>
  if task.limit < p.deeper.depth then task.fail .noRoom rest p.deeper
  else
    let (result, q) := inner p.deeper
    (result, { q with depth := q.depth - 1 })

/-- Records the value of a negation or connective that is complete, unless its label is
excluded. -/
def record (task : Task) (x : Operand) : Rule Operand := fun p =>
  if task.excluded.contains x.label then (.ok x, p)
  else
    let recording := ⟨x.label, x.value, !p.valuation.contains x.label⟩
    (.ok x, ⟨p.depth, p.valuation.record x.label x.value, p.recordings ++ [recording]⟩)

/-- Ends a chain in front of `ts`: joins its operands from the right. The latest of those in front
of the last stands first, each with the connective behind it. -/
def finish (task : Task) (ts : List String) :
    List (Operand × Connective) → Operand → Rule (Operand.Before (ts.length + 1))
  | [], last => return ⟨last, ts, Nat.lt_succ_self ts.length⟩
  | (left, c) :: waiting, last => do
    let joined ← task.record (.binary c left last)
    task.finish ts waiting joined

mutual

/-- Reads a phrase of rank `0`. -/
def operand (task : Task) (ts : List String) : Rule (Operand.Before ts.length) :=
  match ts with
  | [] => task.fail .operandExpected []
  | t :: r =>
    match Symbol.ofToken? t with
    | none =>
      match task.assignment.value? t with
      | none => task.fail (.unknownName t) (t :: r)
      | some value => return ⟨⟨value, t⟩, r, by simp⟩
    | some .not => do
      let ⟨inner, rest, h⟩ ← task.nested (t :: r) (task.operand r)
      let x ← task.record inner.negation
      return ⟨x, rest, by simp; omega⟩
    | some .leftParen => do
      match ← task.nested (t :: r) (task.phrase Connective.loosest r) with
      | ⟨_, [], _⟩ => task.fail .closingExpected []
      | ⟨inner, u :: rest, h⟩ =>
        if Symbol.ofToken? u = some .rightParen then
          return ⟨inner.group, rest, by simp at h ⊢; omega⟩
        else task.fail .closingExpected (u :: rest)
    | some _ => task.fail .operandExpected (t :: r)
termination_by (ts.length, 0)

/-- Reads the longest phrase of rank `k`. -/
def phrase (task : Task) (k : Nat) (ts : List String) : Rule (Operand.Before ts.length) :=
  match k with
  | 0 => task.operand ts
  | k + 1 => do
    let ⟨left, rest, h⟩ ← task.phrase k ts
    let x ← task.chain k left rest
    return x.mono h
termination_by (ts.length, k + 1)

/-- Extends `left` by the connectives of rank `k + 1` that follow it, if any. -/
def chain (task : Task) (k : Nat) (left : Operand) (ts : List String) :
    Rule (Operand.Before (ts.length + 1)) :=
  match ts with
  | [] => return ⟨left, [], by simp⟩
  | t :: r =>
    match connective? t with
    | none => return ⟨left, t :: r, by simp⟩
    | some c =>
      if c.rank = k + 1 then
        if c.groupsRight then
          match task.chaining with
          | .loop => task.collect k [] left (t :: r)
          | .recursion => do
            let ⟨right, rest, h⟩ ← task.phrase (k + 1) r
            let x ← task.record (.binary c left right)
            return ⟨x, rest, by simp; omega⟩
        else do
          let ⟨right, rest, h⟩ ← task.phrase k r
          let x ← task.record (.binary c left right)
          let y ← task.chain k x rest
          return y.mono (by simp; omega)
      else return ⟨left, t :: r, by simp⟩
termination_by (ts.length, 1)

/-- Goes on to the end of a chain of connectives of rank `k + 1` and joins its operands then. -/
def collect (task : Task) (k : Nat) (waiting : List (Operand × Connective)) (last : Operand)
    (ts : List String) : Rule (Operand.Before (ts.length + 1)) :=
  match ts with
  | [] => task.finish [] waiting last
  | t :: r =>
    match connective? t with
    | none => task.finish (t :: r) waiting last
    | some c =>
      if c.rank = k + 1 then do
        let ⟨next, rest, h⟩ ← task.phrase k r
        let x ← task.collect k ((last, c) :: waiting) next rest
        return x.mono (by simp; omega)
      else task.finish (t :: r) waiting last
termination_by (ts.length, 0)

end

end Task

/-- Evaluates a token list in a single pass. -/
def evaluateInOnePass (chaining : Chaining) (tokens : List String) (a : Assignment)
    (excluded : List String) (maxDepth : Int) : Attempt :=
  let task : Task := ⟨chaining, a, excluded, maxDepth, tokens.length⟩
  match task.phrase Connective.loosest tokens .initial with
  | (.error err, p) => ⟨p.recordings, .error err⟩
  | (.ok ⟨x, [], _⟩, p) => ⟨p.recordings, .ok ⟨x.value, p.valuation.entries⟩⟩
  | (.ok ⟨_, t :: rest, _⟩, p) =>
    let error := Stop.error task.total task.limit ⟨.operatorExpected, t :: rest, []⟩
    ⟨p.recordings, .error error⟩

end PropTable
