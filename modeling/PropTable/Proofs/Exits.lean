import PropTable.CommandLine.Run
import PropTable.Proofs.FirstError
import PropTable.Proofs.SessionRuns

/-!
# How a run ends

A table assigns values to all variables among its tokens, and a buffer holds no token that is neither
a variable nor reserved. So no front end meets a variable without a value: a solution fails only
where the tokens are malformed, in whatever state a session is, and a run from the command line ends
in one of the ways that it announces (`never_unknownVariable`).
-/

namespace PropTable

open Log

/-! ## Evaluations and tables -/

theorem isMalformed_of_evaluate {ts ex : List String} {a : Assignment} {limit : Int}
    {err : FormulaError} (hcovered : Covered a.known ts)
    (h : (evaluate ts a ex limit).outcome = .error err) : err.isMalformed = true := by
  obtain ⟨stop, hstop, rfl⟩ := stop_of_evaluate h
  cases hfault : stop.fault with
  | unknownName x =>
    obtain ⟨hx, hr, hunknown⟩ := mem_of_unknownName hstop hfault
    rw [hcovered x hx hr] at hunknown
    cases hunknown
  | _ =>
    simp only [Stop.error, hfault]
    rfl

theorem covered_of_mem_assignmentsOf {ts : List String} {a : List (String × Bool)}
    (hts : "" ∉ ts) (ha : a ∈ assignmentsOf (variablesOf ts)) :
    Covered (Assignment.ofValues a).known ts := by
  rw [known_of_mem_assignmentsOf ha]
  exact (covered_variables_iff ts).2 hts

theorem Table.isMalformed_of_build {ts : List String} {limit : Int} {err : BuildError}
    (hts : "" ∉ ts) (hne : ts ≠ []) (h : (Table.build ts limit).result = .error err) :
    ∃ cause, err = .formula cause ∧ cause.isMalformed = true := by
  obtain ⟨cause, rfl, hcause⟩ := Table.cause_of_build hne h
  obtain ⟨rest, has⟩ := assignmentsOf_eq_cons (variablesOf ts)
  have hfirst : (variablesOf ts).map (fun x => (x, false)) ∈ assignmentsOf (variablesOf ts) :=
    has ▸ List.mem_cons_self
  exact ⟨cause, rfl, isMalformed_of_evaluate (covered_of_mem_assignmentsOf hts hfirst) hcause⟩

/-! ## Sessions -/

theorem Intent.request_ne_reject (i : Intent) (x : Datum) : i.request ≠ .reject x := by
  intro h
  cases i <;> cases h

theorem Step.dispatch_ne_reject (name : String) (x : Datum) :
    (Step.dispatch name).request ≠ .reject x := by
  intro h
  simp only [Step.request] at h
  cases hname : Intent.ofName? name with
  | none =>
    rw [hname] at h
    cases h
  | some i =>
    rw [hname] at h
    exact i.request_ne_reject x h

namespace Session

/-- A solution in a session that holds no empty text fails only where the tokens are malformed, and
no intent fails for another reason. -/
theorem isMalformed_of_step {s : Session} {x : Step} {err : SessionError}
    (hs : "" ∉ s.buffer.tokens) (hx : x = .solve ∨ ∃ name, x = .dispatch name)
    (h : (s.step x).result.1 = .error err) :
    ∃ cause, err = .unsolved (.formula cause) ∧ cause.isMalformed = true := by
  have hreject : ∀ y, x.request ≠ .reject y := by
    intro y hy
    cases hx with
    | inl hsolve =>
      rw [hsolve] at hy
      cases hy
    | inr hdispatch =>
      obtain ⟨name, rfl⟩ := hdispatch
      exact Step.dispatch_ne_reject name y hy
  rw [result_step] at h
  cases answer_eq_error h with
  | inl hrejected =>
    obtain ⟨y, hy⟩ := hrejected
    exact absurd hy (hreject y)
  | inr hunsolved =>
    obtain ⟨-, hne, err, hbuild, rfl⟩ := hunsolved
    obtain ⟨cause, rfl, hcause⟩ := Table.isMalformed_of_build hs hne hbuild
    exact ⟨cause, rfl, hcause⟩

section

variable {s : Session} {name : String} {names : List String}

theorem dispatchAll_cons_error {err : SessionError}
    (h : (s.step (.dispatch name)).result.1 = .error err) :
    (s.dispatchAll (name :: names)).result.1 = .error err := by
  change (s.dispatch name).result.1 = .error err at h
  rw [dispatchAll]
  simp only [Journal.result_bind]
  generalize (s.dispatch name).result = answered at h
  obtain ⟨outcome, next⟩ := answered
  cases h
  rfl

theorem dispatchAll_cons {answer : Option Table}
    (h : (s.step (.dispatch name)).result.1 = .ok answer) :
    (s.dispatchAll (name :: names)).result =
      ((s.step (.dispatch name)).result.2.dispatchAll names).result := by
  change (s.dispatch name).result.1 = .ok answer at h
  change _ = ((s.dispatch name).result.2.dispatchAll names).result
  rw [dispatchAll]
  simp only [Journal.result_bind]
  generalize (s.dispatch name).result = answered at h
  obtain ⟨outcome, next⟩ := answered
  cases h
  rfl

end

-- Intents by name are steps of a session, up to the first that fails.
theorem dispatchAll_cases (s : Session) (names : List String) :
    (s.dispatchAll names).result = (.ok (), s.run (names.map .dispatch)) ∨
    ∃ before name err, before ++ [name] <+: names ∧
      ((s.run (before.map .dispatch)).step (.dispatch name)).result.1 = .error err ∧
      (s.dispatchAll names).result.1 = .error err := by
  induction names generalizing s with
  | nil => exact .inl rfl
  | cons name names ih =>
    cases hstep : (s.step (.dispatch name)).result.1 with
    | error err =>
      refine .inr ⟨[], name, err, ?_, hstep, dispatchAll_cons_error hstep⟩
      exact List.prefix_append [name] names
    | ok answer =>
      rw [dispatchAll_cons hstep]
      cases ih (s.step (.dispatch name)).result.2 with
      | inl hall => exact .inl hall
      | inr hfirst =>
        obtain ⟨before, next, err, hprefix, hfailed, herr⟩ := hfirst
        refine .inr ⟨name :: before, next, err, ?_, hfailed, herr⟩
        exact (List.prefix_cons_inj name).2 hprefix

end Session

/-! ## Buffers -/

namespace Buffer

-- Texts fill a buffer unless one of them is empty.
theorem result_appendAll (b : Buffer) (ts : List String) :
    (b.appendAll (ts.map .text)).result =
      if "" ∈ ts then .error ⟨.text ""⟩ else .ok ⟨b.tokens ++ ts⟩ := by
  induction ts generalizing b with
  | nil =>
    rw [if_neg List.not_mem_nil, List.append_nil]
    rfl
  | cons t ts ih =>
    rw [List.map_cons, appendAll]
    simp only [append, Journal.result_bind, token?, String.isEmpty_iff]
    by_cases ht : t = ""
    · rw [if_pos ht, ht, if_pos List.mem_cons_self]
      rfl
    · have hmem : "" ∈ t :: ts ↔ "" ∈ ts := by
        rw [List.mem_cons]
        exact or_iff_right (Ne.symm ht)
      have hrest := ih ⟨b.tokens ++ [t]⟩
      rw [List.append_assoc] at hrest
      rw [if_neg ht]
      simp only [hmem]
      exact hrest

theorem result_ofList (ts : List String) :
    (ofList (ts.map .text)).result = if "" ∈ ts then .error ⟨.text ""⟩ else .ok ⟨ts⟩ :=
  result_appendAll empty ts

end Buffer

/-! ## The command line -/

namespace CommandLine

/-- The ways to end that a run announces. -/
def announced : List Exit := [.success, .unsolved, .malformed, .unreadable]

theorem code_announced {exit : Exit} (h : exit ∈ announced) : exit.code ∈ [0, 1, 2, 4] := by
  revert exit
  decide

theorem concludeWithout_malformed {cause : FormulaError} (h : cause.isMalformed = true) :
    (concludeWithout (.formula cause)).result = failing .malformed := by
  cases cause with
  | unknownVariable name => cases h
  | _ => rfl

theorem printTable_complete {T : Table} (h : T.isComplete = true) :
    (printTable T).exit = .success := by
  rw [printTable, Table.format?, if_pos h]

variable {tokens : List String}

theorem tabulate_announced (htokens : "" ∉ tokens) (hne : tokens ≠ []) :
    (tabulate tokens).result.exit ∈ announced := by
  unfold tabulate
  simp only [Journal.result_bind]
  cases hbuild : (Table.build tokens defaultMaxDepth).result with
  | ok T =>
    show (printTable T).exit ∈ announced
    rw [printTable_complete (Table.isComplete_of_build hbuild)]
    decide
  | error err =>
    obtain ⟨cause, rfl, hcause⟩ := Table.isMalformed_of_build htokens hne hbuild
    show (concludeWithout (.formula cause)).result.exit ∈ announced
    rw [concludeWithout_malformed hcause]
    decide

theorem result_validate (tokens : List String) :
    (validate tokens).result =
      match (evaluate tokens (.ofValues ((assignmentsOf (variablesOf tokens)).headD []))
        (variablesOf tokens) defaultMaxDepth).outcome with
      | .error err => (concludeWithout (.formula err)).result
      | .ok _ => ⟨.success, ["✅ Formula is well-formed"]⟩ := by
  let a := Assignment.ofValues ((assignmentsOf (variablesOf tokens)).headD [])
  have hs : (Solver.evaluate ⟨tokens, defaultMaxDepth, none⟩ a).result.1 =
      (evaluate tokens a (variablesOf tokens) defaultMaxDepth).outcome := Solver.result_evaluate _ a
  rw [← hs]
  unfold validate
  simp only [Journal.result_bind]
  split <;> rename_i houtcome
  · change (Solver.evaluate ⟨tokens, defaultMaxDepth, none⟩ a).result.1 = _ at houtcome
    rw [houtcome]
  · change (Solver.evaluate ⟨tokens, defaultMaxDepth, none⟩ a).result.1 = _ at houtcome
    rw [houtcome]
    rfl

theorem validate_announced (htokens : "" ∉ tokens) :
    (validate tokens).result.exit ∈ announced := by
  rw [result_validate]
  obtain ⟨rest, has⟩ := assignmentsOf_eq_cons (variablesOf tokens)
  have hfirst : (assignmentsOf (variablesOf tokens)).headD [] ∈
      assignmentsOf (variablesOf tokens) := by
    rw [has]
    exact List.mem_cons_self
  have hcovered := covered_of_mem_assignmentsOf htokens hfirst
  split
  · rename_i err houtcome
    rw [concludeWithout_malformed (isMalformed_of_evaluate hcovered houtcome)]
    decide
  · decide

-- The buffer stands between the tokens and the solution, and lets no empty text pass.
theorem solve_announced (validateOnly : Bool) (tokens : List String) :
    (solve validateOnly tokens).result.exit ∈ announced := by
  have hbuffer := Buffer.result_ofList tokens
  unfold solve
  simp only [Journal.result_bind, hbuffer]
  by_cases htokens : "" ∈ tokens
  · rw [if_pos htokens]
    show Exit.malformed ∈ announced
    decide
  · rw [if_neg htokens]
    by_cases hnil : tokens = []
    · subst hnil
      show Exit.unsolved ∈ announced
      decide
    · have hempty : Buffer.isEmpty ⟨tokens⟩ = false := List.isEmpty_eq_false_iff.2 hnil
      simp only [hempty, Bool.false_eq_true, if_false, Journal.result_bind]
      cases validateOnly with
      | true => exact validate_announced htokens
      | false => exact tabulate_announced htokens hnil

theorem replay_announced (names : List String) : (replay names).result.exit ∈ announced := by
  let start : Session := .ofBuffer .empty defaultMaxDepth
  unfold replay
  simp only [Journal.result_bind]
  cases start.dispatchAll_cases names with
  | inl hall =>
    change (start.dispatchAll names).result = _ at hall
    rw [hall]
    cases hT : (start.run (names.map .dispatch)).lastTable with
    | none =>
      show Exit.unsolved ∈ announced
      decide
    | some T =>
      obtain ⟨i, hsolved, -⟩ := (Session.lastTable_run .empty defaultMaxDepth _).1 hT
      show (printTable T).exit ∈ announced
      rw [printTable_complete (Table.isComplete_of_build hsolved.table)]
      decide
  | inr hfirst =>
    obtain ⟨before, name, err, -, hfailed, herr⟩ := hfirst
    have htokens : "" ∉ (start.run (before.map .dispatch)).buffer.tokens := by
      rw [Session.tokens_run]
      exact not_mem_tokensAfter List.not_mem_nil _
    obtain ⟨cause, rfl, hcause⟩ := Session.isMalformed_of_step htokens (.inr ⟨name, rfl⟩) hfailed
    generalize (start.dispatchAll names).result = answered at herr
    obtain ⟨outcome, s⟩ := answered
    cases herr
    show (concludeWithout (.formula cause)).result.exit ∈ announced
    rw [concludeWithout_malformed hcause]
    decide

theorem execute_announced (o : Settings) (read : String → Contents) :
    (execute o read).result.exit ∈ announced := by
  unfold execute
  by_cases hhelp : o.help = true
  · rw [if_pos hhelp]
    show Exit.success ∈ announced
    decide
  · rw [if_neg hhelp]
    by_cases hintents : o.intents = true
    · rw [if_pos hintents]
      exact replay_announced o.operands
    · rw [if_neg hintents]
      cases sourceTokens o read with
      | error err =>
        show Exit.unreadable ∈ announced
        decide
      | ok tokens => exact solve_announced o.validateOnly tokens

end CommandLine

/-! ## No front end meets an unknown variable -/

/-- Without an empty token, a table is refused only where the tokens are malformed or there are none.
So whatever state a session is in, a solution or an intent fails only where the tokens are malformed,
and whatever files there are, a run from the command line ends in a way that it announces. -/
theorem never_unknownVariable :
    (∀ (ts : List String) (limit : Int) (err : BuildError), "" ∉ ts →
      (Table.build ts limit).result = .error err →
      (ts = [] ∧ err = .emptyFormula) ∨
        ∃ cause, err = .formula cause ∧ cause.isMalformed = true) ∧
    (∀ (ts : List String) (limit : Int) (steps : List Step) (x : Step) (err : SessionError),
      "" ∉ ts → (x = .solve ∨ ∃ name, x = .dispatch name) →
      (((Session.ofBuffer ⟨ts⟩ limit).run steps).step x).result.1 = .error err →
      ∃ cause, err = .unsolved (.formula cause) ∧ cause.isMalformed = true) ∧
    ∀ (read : String → CommandLine.Contents) (arguments : List String)
      (report : CommandLine.Report), CommandLine.run read arguments = .ok report →
      report.journal.result.exit ∈ CommandLine.announced ∧ report.exitCode ∈ [0, 1, 2, 4] := by
  refine ⟨?_, ?_, ?_⟩
  · intro ts limit err hts h
    by_cases hne : ts = []
    · subst hne
      cases h
      exact .inl ⟨rfl, rfl⟩
    · exact .inr (Table.isMalformed_of_build hts hne h)
  · intro ts limit steps x err hts hx h
    apply Session.isMalformed_of_step _ hx h
    rw [Session.tokens_run]
    exact not_mem_tokensAfter hts steps
  · intro read arguments report h
    cases hparse : CommandLine.parse arguments with
    | error err =>
      rw [CommandLine.run, hparse] at h
      cases h
    | ok o =>
      rw [CommandLine.run, hparse] at h
      cases h
      have hexit : (CommandLine.report o read).journal.result.exit ∈ CommandLine.announced :=
        CommandLine.execute_announced o read
      exact ⟨hexit, CommandLine.code_announced hexit⟩

-- The connective lacks its second operand, in a list, in a session and on a command line.
theorem never_unknownVariable_of_missing_operand :
    "" ∉ ["A", "xor", ")"] ∧
    (∃ cause, (Table.build ["A", "xor", ")"] 1).result = .error (.formula cause) ∧
      cause.isMalformed = true) ∧
    (∃ cause, (((Session.ofBuffer ⟨["A", "xor"]⟩ 1).run [.append (.text ")")]).step
        (.dispatch "Solve_Formula")).result.1 = .error (.unsolved (.formula cause)) ∧
      cause.isMalformed = true) ∧
    ∃ report, CommandLine.run (fun _ => .error .notFound)
      ["--intents", "add_p", "nonsense", "ADD_AND", "solve_formula"] = .ok report ∧
      report.journal.result.exit ∈ CommandLine.announced ∧ report.exitCode ∈ [0, 1, 2, 4] := by
  have hts : "" ∉ ["A", "xor", ")"] := by decide
  have herr : ∃ err, (Table.build ["A", "xor", ")"] 1).result = .error err := by
    cases hresult : (Table.build ["A", "xor", ")"] 1).result with
    | ok T =>
      obtain ⟨s, hs, -⟩ := sentence_iff_scan.1 (Table.exists_build_iff.1 ⟨T, hresult⟩).1
      cases hs
    | error err => exact ⟨err, rfl⟩
  obtain ⟨err, herr⟩ := herr
  obtain ⟨hbuild, hstep, hrun⟩ := never_unknownVariable
  refine ⟨hts, ?_, ?_, ?_⟩
  · obtain ⟨hnil, -⟩ | ⟨cause, rfl, hcause⟩ := hbuild _ 1 _ hts herr
    · cases hnil
    · exact ⟨cause, herr, hcause⟩
  · have hname : Intent.ofName? "Solve_Formula" = some .solve := by decide +kernel
    have hrequest : (Step.dispatch "Solve_Formula").request = .solve := by
      simp only [Step.request, hname]
      rfl
    let s := (Session.ofBuffer ⟨["A", "xor"]⟩ 1).run [.append (.text ")")]
    have hfailed : (s.step (.dispatch "Solve_Formula")).result.1 = .error (.unsolved err) :=
      congrArg Prod.fst (s.failsCleanly.unsolved _ err hrequest (by decide) herr)
    obtain ⟨cause, hcause, hmalformed⟩ :=
      hstep ["A", "xor"] 1 _ _ _ (by decide) (.inr ⟨_, rfl⟩) hfailed
    exact ⟨cause, hfailed.trans (congrArg Except.error hcause), hmalformed⟩
  · have hparse : CommandLine.parse
        ["--intents", "add_p", "nonsense", "ADD_AND", "solve_formula"] =
        .ok ⟨["add_p", "nonsense", "ADD_AND", "solve_formula"], none, false, true, false, false,
          false⟩ := by decide +kernel
    have hreport := congrArg
      (Except.map fun o => CommandLine.report o fun _ => .error .notFound) hparse
    exact ⟨_, hreport, hrun _ _ _ hreport⟩

end PropTable
