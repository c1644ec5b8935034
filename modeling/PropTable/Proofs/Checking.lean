import PropTable.Proofs.Arguments
import PropTable.Proofs.Exits
import PropTable.Proofs.Output

/-!
# Checking a formula against tabulating it

A run that only checks its formula evaluates it under one assignment, and one that prints the table
evaluates it under all of them. Whether a formula is refused, and for what, is the same under every
assignment that a table has, so both runs end alike, and they write the same unless they succeed
(`check_agrees`).
-/

namespace PropTable

namespace Table

-- Without an empty token, what has no table is malformed.
theorem build_cases {ts : List String} (limit : Int) (hts : "" ∉ ts) (hne : ts ≠ []) :
    (Sentence limit ts ∧ ∃ T, (build ts limit).result = .ok T) ∨
    (¬ Sentence limit ts ∧ ∃ err, (build ts limit).result = .error (.formula err) ∧
      err.isMalformed = true) := by
  by_cases h : Sentence limit ts
  · exact .inl ⟨h, exists_build_iff.2 ⟨h, hts⟩⟩
  · refine .inr ⟨h, ?_⟩
    cases hbuild : (build ts limit).result with
    | ok T => exact absurd (exists_build_iff.1 ⟨T, hbuild⟩).1 h
    | error err =>
      obtain ⟨cause, rfl, hmalformed⟩ := isMalformed_of_build hts hne hbuild
      exact ⟨cause, rfl, hmalformed⟩

end Table

namespace CommandLine

open Log

variable {tokens : List String}

/-! ## The two ways to use a formula -/

theorem visible_validate (tokens : List String) :
    visible (validate tokens) =
      match (evaluate tokens (.ofValues ((variablesOf tokens).map fun x => (x, false)))
        (variablesOf tokens) defaultMaxDepth).outcome with
      | .error err => visible (concludeWithout (.formula err))
      | .ok _ => (Exit.success.code, "✅ Formula is well-formed\n") := by
  obtain ⟨rest, has⟩ := assignmentsOf_eq_cons (variablesOf tokens)
  have hfirst : (assignmentsOf (variablesOf tokens)).headD [] =
      (variablesOf tokens).map fun x => (x, false) := by
    rw [has]
    rfl
  let s : Solver := ⟨tokens, defaultMaxDepth, none⟩
  let a : Assignment := .ofValues ((variablesOf tokens).map fun x => (x, false))
  have houtcome := s.result_evaluate a
  change (s.evaluate _).result.1 = (evaluate tokens _ (variablesOf tokens) _).outcome at houtcome
  rw [← houtcome, validate, visible_bind (Solver.quiet_create tokens defaultMaxDepth)]
  show visible (s.evaluate (.ofValues ((assignmentsOf (variablesOf tokens)).headD [])) >>= _) = _
  rw [hfirst, visible_bind (s.quiet_evaluate _)]
  generalize (s.evaluate a).result = answered
  obtain ⟨outcome, _⟩ := answered
  cases outcome with
  | error err => rfl
  | ok e => exact visible_pure _

theorem visible_tabulate (tokens : List String) :
    visible (tabulate tokens) =
      match (Table.build tokens defaultMaxDepth).result with
      | .error err => visible (concludeWithout err)
      | .ok T => visible (pure (printTable T)) := by
  rw [tabulate, visible_bind (Table.quiet_build tokens defaultMaxDepth)]
  cases (Table.build tokens defaultMaxDepth).result with
  | error err => rfl
  | ok T => rfl

theorem visible_printTable {T : Table} {text : String}
    (h : T.format? Table.defaultSeparator = some text) :
    visible (pure (printTable T)) = (Exit.success.code, text ++ "\n") := by
  rw [visible_pure, printTable, h]
  rfl

/-! ## Sentences and other token lists -/

theorem exists_format_of_build {limit : Int} {T : Table}
    (h : (Table.build tokens limit).result = .ok T) :
    ∃ text, T.format? Table.defaultSeparator = some text := by
  rw [Table.format?, if_pos (Table.isComplete_of_build h)]
  exact ⟨_, rfl⟩

/-- A sentence has a table, and the assignment that is checked gives it a value. -/
theorem visible_of_sentence (htokens : "" ∉ tokens) (h : Sentence defaultMaxDepth tokens) :
    (∃ T text, (Table.build tokens defaultMaxDepth).result = .ok T ∧
      T.format? Table.defaultSeparator = some text ∧
      visible (tabulate tokens) = (0, text ++ "\n")) ∧
    visible (validate tokens) = (0, "✅ Formula is well-formed\n") := by
  constructor
  · obtain ⟨T, hT⟩ := Table.exists_build_iff.2 ⟨h, htokens⟩
    obtain ⟨text, htext⟩ := exists_format_of_build hT
    refine ⟨T, text, hT, htext, ?_⟩
    rw [visible_tabulate, hT]
    exact visible_printTable htext
  · let a := Assignment.ofValues ((variablesOf tokens).map fun x => (x, false))
    obtain ⟨rest, has⟩ := assignmentsOf_eq_cons (variablesOf tokens)
    have hfirst : (variablesOf tokens).map (fun x => (x, false)) ∈
        assignmentsOf (variablesOf tokens) := has ▸ List.mem_cons_self
    have hnames := (a.covered_known_iff tokens).1 (covered_of_mem_assignmentsOf htokens hfirst)
    obtain ⟨e, he⟩ := (evaluate_ok_iff tokens a (variablesOf tokens) defaultMaxDepth).1.2
      ⟨h, hnames⟩
    rw [visible_validate, he]
    rfl

/-- Where there is no table, checking meets the error that tabulating meets. -/
theorem visible_of_not_sentence (htokens : "" ∉ tokens) (hne : tokens ≠ [])
    (h : ¬ Sentence defaultMaxDepth tokens) :
    visible (validate tokens) = visible (tabulate tokens) ∧ (visible (tabulate tokens)).1 = 2 := by
  obtain ⟨hsentence, -⟩ | ⟨-, err, hbuild, hmalformed⟩ := Table.build_cases _ htokens hne
  · exact absurd hsentence h
  · obtain ⟨cause, hcause, hfirst⟩ := Table.cause_of_build hne hbuild
    obtain rfl := BuildError.formula.inj hcause
    constructor
    · rw [visible_validate, hfirst, visible_tabulate, hbuild]
    · rw [visible_tabulate, hbuild]
      exact congrArg (fun v : Verdict => v.exit.code) (concludeWithout_malformed hmalformed)

/-! ## Runs -/

-- An empty token, or the lack of tokens, is noticed before it matters what the formula is for.
theorem visible_solve (validateOnly : Bool) (tokens : List String) :
    visible (solve validateOnly tokens) =
      if "" ∈ tokens then
        (2, (Event.formulaMalformed (RejectedToken.mk (.text "")).message).entry.line)
      else if tokens = [] then (1, Event.formulaEmpty.entry.line)
      else visible (if validateOnly then validate tokens else tabulate tokens) := by
  rw [solve, visible_bind (Buffer.quiet_ofList _), Buffer.result_ofList]
  by_cases htokens : "" ∈ tokens
  · rw [if_pos htokens, if_pos htokens]
    exact visible_failing rfl .malformed
  · rw [if_neg htokens, if_neg htokens]
    by_cases hnil : tokens = []
    · subst hnil
      exact visible_failing rfl .unsolved
    · have hempty : Buffer.isEmpty ⟨tokens⟩ = false := List.isEmpty_eq_false_iff.2 hnil
      rw [if_neg hnil]
      simp only [hempty, Bool.false_eq_true, if_false]
      exact visible_bind (Journal.quiet_tell rfl) _

/-- The exit code that tokens from the command line call for. -/
def tokensCode (tokens : List String) : Nat :=
  if "" ∈ tokens then 2
  else if tokens = [] then 1
  else if Sentence 100 tokens then 0
  else 2

theorem run_of_parse {arguments : List String} {o : Settings} (read : String → Contents)
    (h : parse arguments = .ok o) : run read arguments = .ok (report o read) := by
  rw [run, h]
  rfl

/-- Checking the tokens and tabulating them have one exit code, and it tells whether they are a
formula within the nesting limit. Where they are none, both runs write the same; where they are one,
the table is written. -/
theorem check_agrees (read : String → Contents) (tokens : List String) :
    ∃ full checked, run read ("--" :: tokens) = .ok full ∧
      run read ("--validate-only" :: "--" :: tokens) = .ok checked ∧
      full.exitCode = tokensCode tokens ∧ checked.exitCode = tokensCode tokens ∧
      (tokensCode tokens ≠ 0 → checked.output = full.output) ∧
      (tokensCode tokens = 0 → ∃ T text, (Table.build tokens 100).result = .ok T ∧
        T.format? Table.defaultSeparator = some text ∧ full.output = text ++ "\n") := by
  have hcheck : parse ("--validate-only" :: "--" :: tokens) =
      .ok { Settings.initial with validateOnly := true, operands := tokens } :=
    (Takes.flag (p := ("--validate-only", .validateOnly)) (by decide) rfl
      (takes_separator _ tokens)).parse
  refine ⟨_, _, run_of_parse read (takes_separator .initial tokens).parse,
    run_of_parse read hcheck, ?_⟩
  change (visible (solve false tokens)).1 = _ ∧ (visible (solve true tokens)).1 = _ ∧
    (_ → (visible (solve true tokens)).2 = (visible (solve false tokens)).2) ∧
    (_ → ∃ T text, _ ∧ _ ∧ (visible (solve false tokens)).2 = text ++ "\n")
  rw [visible_solve, visible_solve, tokensCode]
  by_cases htokens : "" ∈ tokens
  · simp only [if_pos htokens]
    exact ⟨trivial, trivial, fun _ => trivial, nofun⟩
  · simp only [if_neg htokens]
    by_cases hnil : tokens = []
    · simp only [if_pos hnil]
      exact ⟨trivial, trivial, fun _ => trivial, nofun⟩
    · simp only [if_neg hnil, Bool.false_eq_true, if_false, if_true]
      by_cases hs : Sentence 100 tokens
      · obtain ⟨⟨T, text, hT, htext, htable⟩, hvalid⟩ := visible_of_sentence htokens hs
        rw [if_pos hs, htable, hvalid]
        exact ⟨rfl, rfl, fun h => absurd rfl h, fun _ => ⟨T, text, hT, htext, rfl⟩⟩
      · obtain ⟨hsame, hcode⟩ := visible_of_not_sentence htokens hnil hs
        rw [if_neg hs, hsame]
        exact ⟨hcode, hcode, fun _ => rfl, nofun⟩

end CommandLine

end PropTable
