import Mathlib.Data.List.Induction
import PropTable.Proofs.Assignments

/-!
# Runs of a solver

Requests to a solver may come in any order, and evaluations may fail among them. Neither the formula
nor its bound ever changes (`Solver.solver_askAll`), so each evaluation is that of a solver that has
evaluated nothing before, and all that remains of the earlier ones is the latest, unless it failed
(`Solver.run_memoryless`).
-/

namespace PropTable

open Log

namespace Solver

/-- What a solver is asked for. -/
inductive Request where
  | evaluate (a : Assignment)
  | assignments
  | names
  | text
  | labels
  | trace
  | last

inductive Answer where
  | evaluated (outcome : Except FormulaError Evaluation)
  | assignments (assignments : List (List (String × Bool)))
  | names (names : List String)
  | text (text : String)
  | labels (labels : List String)
  | trace (trace : List (String × Bool))
  | last (e : Option Evaluation)

def ask (s : Solver) : Request → Journal (Answer × Solver)
  | .evaluate a => do
    let (outcome, s) ← s.evaluate a
    return (.evaluated outcome, s)
  | .assignments => return (.assignments s.assignments, s)
  | .names => return (.names s.names, s)
  | .text => return (.text s.text, s)
  | .labels => return (.labels s.lastLabels, s)
  | .trace => return (.trace s.lastTrace, s)
  | .last => return (.last s.last, s)

/-- Answers requests in turn, whether evaluations fail or not. -/
def askAll (s : Solver) : List Request → Journal (List Answer × Solver)
  | [] => return ([], s)
  | q :: qs => do
    let (answer, s) ← s.ask q
    let (answers, s) ← s.askAll qs
    return (answer :: answers, s)

/-! ## What is expected -/

/-- The assignment of a request for an evaluation. -/
def Request.assignment? : Request → Option Assignment
  | .evaluate a => some a
  | _ => none

/-- The evaluation that the latest of the requests for one has led to. There is none if this
evaluation failed, or if none was asked for. -/
def latest (fresh : Solver) (qs : List Request) : Option Evaluation :=
  (qs.filterMap Request.assignment?).getLast?.bind fun a =>
    (fresh.evaluate a).result.1.toOption

/-- The answer to a request behind others, where `fresh` has evaluated nothing yet. -/
def expected (fresh : Solver) (history : List Request) : Request → Answer
  | .evaluate a => .evaluated (fresh.evaluate a).result.1
  | .assignments => .assignments fresh.assignments
  | .names => .names fresh.names
  | .text => .text fresh.text
  | .labels => .labels (((fresh.latest history).map Evaluation.labels).getD [])
  | .trace => .trace (((fresh.latest history).map Evaluation.trace).getD [])
  | .last => .last (fresh.latest history)

/-- The solver shows an evaluation as its latest, or shows that there is none. -/
structure Shows (s : Solver) (e : Option Evaluation) : Prop where
  last : s.last = e
  labels : s.lastLabels = (e.map Evaluation.labels).getD []
  trace : s.lastTrace = (e.map Evaluation.trace).getD []

/-! ## One request -/

section

variable {fresh : Solver}

-- What was evaluated before has no part in an evaluation, nor in what it logs.
theorem evaluate_withLast (s : Solver) (e : Option Evaluation) (a : Assignment) :
    ({ s with last := e } : Solver).evaluate a = s.evaluate a := by
  unfold evaluate
  rfl

theorem solver_evaluate (s : Solver) (a : Assignment) :
    (s.evaluate a).result.2 = { s with last := (s.evaluate a).result.1.toOption } := by
  unfold evaluate
  simp only [Journal.result_bind]
  cases (PropTable.evaluate s.tokens a s.names s.maxDepth).outcome <;> rfl

theorem shows_last (s : Solver) : s.Shows s.last := by
  obtain ⟨ts, limit, e⟩ := s
  cases e with
  | none => exact ⟨rfl, rfl, rfl⟩
  | some e => exact ⟨rfl, rfl, rfl⟩

theorem latest_concat (fresh : Solver) (qs : List Request) (q : Request) :
    fresh.latest (qs ++ [q]) = match q.assignment? with
      | some a => (fresh.evaluate a).result.1.toOption
      | none => fresh.latest qs := by
  unfold latest
  rw [List.filterMap_append]
  cases hq : q.assignment? with
  | none => rw [List.filterMap_cons_none hq, List.filterMap_nil, List.append_nil]
  | some a =>
    rw [List.filterMap_cons_some hq, List.filterMap_nil, List.getLast?_concat]
    rfl

/-- A solver whose latest evaluation is that of the requests answers as expected behind them, and
its latest evaluation is then that of all requests. -/
theorem result_ask (fresh : Solver) (qs : List Request) (q : Request) :
    (({ fresh with last := fresh.latest qs } : Solver).ask q).result =
      (fresh.expected qs q, { fresh with last := fresh.latest (qs ++ [q]) }) := by
  have hshows := shows_last { fresh with last := fresh.latest qs }
  rw [latest_concat]
  cases q with
  | evaluate a =>
    simp only [ask, Journal.result_bind, evaluate_withLast, solver_evaluate]
    rfl
  | labels => exact congrArg (fun ls => (Answer.labels ls, _)) hshows.labels
  | trace => exact congrArg (fun rs => (Answer.trace rs, _)) hshows.trace
  | _ => rfl

/-! ## All requests -/

theorem askAll_append (s : Solver) (qs rs : List Request) :
    (s.askAll (qs ++ rs)).result =
      ((s.askAll qs).result.1 ++ ((s.askAll qs).result.2.askAll rs).result.1,
        ((s.askAll qs).result.2.askAll rs).result.2) := by
  induction qs generalizing s with
  | nil => rfl
  | cons q qs ih =>
    simp only [List.cons_append, askAll, Journal.result_bind, ih]
    rfl

theorem length_answers (s : Solver) (qs : List Request) :
    (s.askAll qs).result.1.length = qs.length := by
  induction qs generalizing s with
  | nil => rfl
  | cons q qs ih => exact congrArg (· + 1) (ih _)

/-- The tokens and the bound stay, and the latest evaluation is all that changes. -/
theorem solver_askAll (hfresh : fresh.last = none) (qs : List Request) :
    (fresh.askAll qs).result.2 = { fresh with last := fresh.latest qs } := by
  induction qs using List.reverseRecOn with
  | nil =>
    obtain ⟨ts, limit, e⟩ := fresh
    obtain rfl : e = none := hfresh
    rfl
  | append_singleton qs q ih =>
    rw [askAll_append, ih]
    exact congrArg Prod.snd (result_ask fresh qs q)

theorem answer_askAll (hfresh : fresh.last = none) {qs : List Request} {k : Nat} {q : Request}
    (hq : qs[k]? = some q) :
    (fresh.askAll qs).result.1[k]? = some (fresh.expected (qs.take k) q) := by
  obtain ⟨hk, rfl⟩ := List.getElem?_eq_some_iff.1 hq
  have hsplit : qs = qs.take k ++ (qs[k] :: qs.drop (k + 1)) := by
    rw [← List.drop_eq_getElem_cons hk, List.take_append_drop]
  have hlen : (fresh.askAll (qs.take k)).result.1.length = k := by
    rw [length_answers, List.length_take, Nat.min_eq_left (Nat.le_of_lt hk)]
  have hanswer := congrArg Prod.fst (result_ask fresh (qs.take k) qs[k])
  conv_lhs => rw [hsplit, askAll_append, solver_askAll hfresh]
  simp only [List.getElem?_append_right (Nat.le_of_eq hlen), hlen, Nat.sub_self]
  exact congrArg some hanswer

/-- After any requests, and however the evaluations among them ended, a solver has the tokens, the
variables and the bound that it was made with. Each evaluation is that of a solver which has
evaluated nothing before, and all else is answered by the formula or by the latest evaluation. A
latest evaluation that failed leaves nothing to show, neither of itself nor of those before it. -/
theorem run_memoryless (ts : List String) (limit : Int) (qs : List Request) :
    let fresh := (create ts limit).result
    let answers := (fresh.askAll qs).result.1
    let s := (fresh.askAll qs).result.2
    (s.tokens = ts ∧ s.names = variablesOf ts ∧ s.maxDepth = limit) ∧
    (∀ (k : Nat) a, qs[k]? = some (.evaluate a) →
      answers[k]? = some (.evaluated (fresh.evaluate a).result.1)) ∧
    (∀ (k : Nat) q, qs[k]? = some q → answers[k]? = some (fresh.expected (qs.take k) q)) ∧
    (∀ a, s.evaluate a = fresh.evaluate a) ∧
    s.Shows (fresh.latest qs) ∧
    ∀ a err, (qs.filterMap Request.assignment?).getLast? = some a →
      (fresh.evaluate a).result.1 = .error err → s.Shows none := by
  intro fresh answers s
  have hfresh : fresh.last = none := rfl
  have hs : s = { fresh with last := fresh.latest qs } := solver_askAll hfresh qs
  have hshows : s.Shows (fresh.latest qs) := by
    rw [hs]
    exact shows_last _
  refine ⟨?_, fun k a hq => answer_askAll hfresh hq, fun k q hq => answer_askAll hfresh hq,
    fun a => ?_, hshows, fun a err ha herr => ?_⟩
  · rw [hs]
    exact ⟨rfl, rfl, rfl⟩
  · rw [hs]
    exact evaluate_withLast fresh _ a
  · have hnone : fresh.latest qs = none := by
      rw [latest, ha, Option.bind_some, herr]
      rfl
    exact hnone ▸ hshows

-- The evaluation that fails has recorded the negation by then. It shows nothing of it, nor of the
-- evaluation before it.
theorem run_memoryless_of_missing_name :
    let fresh := (create ["!", "A", "&&", "B"] 1).result
    let both : Assignment := [("A", .flag false), ("B", .int 2)]
    let one : Assignment := [("A", .null)]
    let qs : List Request := [.evaluate both, .trace, .evaluate one]
    (fresh.askAll qs).result.1[1]? = some (.trace [("¬A", true), ("(¬A∧B)", true)]) ∧
    (fresh.askAll qs).result.1[2]? = some (.evaluated (.error (.unknownVariable "B"))) ∧
    (PropTable.evaluate fresh.tokens one fresh.names fresh.maxDepth).recordings =
      [⟨"¬A", true, true⟩] ∧
    (fresh.askAll qs).result.2.Shows none := by
  intro fresh both one qs
  have hnames : fresh.names = ["A", "B"] := variablesOf_eq (by decide) (by decide) (by decide)
  have hread : Tree.ofTokens both.known fresh.maxDepth.toNat fresh.tokens = .ok _ :=
    ofTokens_tokens (t := .binary .and (.negation (.name "A")) (.name "B"))
      (by decide) (by decide) (by decide)
  have hstop : Tree.ofTokens one.known fresh.maxDepth.toNat fresh.tokens =
      .error ⟨.unknownName "B", ["B"], [.negation (.name "A")]⟩ := by
    have hnegation : readPhrase one.known 1 0 ["!", "A", "&&", "B"] =
        .ok (.negation (.name "A"), ["&&", "B"]) := by
      rw [readPhrase_zero, readOperand_negation, readOperand_name _ _ (by decide)]
      rfl
    have hname : readPhrase one.known 1 0 ["B"] = .error ⟨.unknownName "B", ["B"], []⟩ := by
      rw [readPhrase_zero, readOperand_name _ _ (by decide)]
      rfl
    have hchain : readPhrase one.known 1 1 ["!", "A", "&&", "B"] =
        .error ⟨.unknownName "B", ["B"], [.negation (.name "A")]⟩ := by
      rw [readPhrase_succ, hnegation]
      refine (readChain_left (c := .and) _ _ _ rfl rfl _ _).trans ?_
      rw [hname]
      rfl
    have hphrase : readPhrase one.known 1 Connective.loosest ["!", "A", "&&", "B"] =
        .error ⟨.unknownName "B", ["B"], [.negation (.name "A")]⟩ := by
      rw [Connective.loosest, readPhrase_succ, readPhrase_succ, readPhrase_succ, hchain]
    change Tree.ofTokens one.known 1 ["!", "A", "&&", "B"] = _
    rw [ofTokens_eq, hphrase]
  have hboth : (fresh.evaluate both).result.1 =
      .ok ⟨true, [("¬A", true), ("(¬A∧B)", true)]⟩ := by
    rw [result_evaluate, hnames]
    exact evaluate_of_tree hread
  have hone : (fresh.evaluate one).result.1 = .error (.unknownVariable "B") := by
    rw [result_evaluate]
    exact evaluate_of_stop hstop
  have hrecordings : (PropTable.evaluate fresh.tokens one fresh.names fresh.maxDepth).recordings =
      [⟨"¬A", true, true⟩] := by
    rw [hnames]
    refine Eq.trans (recordings_of_stop hstop) ?_
    decide
  obtain ⟨-, hevaluated, hanswers, -, -, hfailed⟩ := run_memoryless ["!", "A", "&&", "B"] 1 qs
  refine ⟨?_, ?_, hrecordings, hfailed one _ rfl hone⟩
  · have htrace : fresh.latest (qs.take 1) = some ⟨true, [("¬A", true), ("(¬A∧B)", true)]⟩ := by
      show (fresh.evaluate both).result.1.toOption = _
      rw [hboth]
      rfl
    have h := hanswers 1 .trace rfl
    rw [expected, htrace] at h
    exact h
  · have h := hevaluated 2 one rfl
    rw [hone] at h
    exact h

end

end Solver

end PropTable
