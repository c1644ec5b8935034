import PropTable.CommandLine.Run

/-!
# What a run writes

A run that is not asked to be verbose writes its warnings and errors, and then what it prints.
Editing a buffer, evaluating a formula and building a table tell of nothing as serious as that: they
are quiet (`Journal.Quiet`), so what is seen of a run is what it does behind them (`visible_bind`).
-/

namespace PropTable

namespace Log

variable {α β : Type} {j : Journal α}

/-- Nothing of the journal is written in a run that is not verbose. -/
def Journal.Quiet (j : Journal α) : Prop :=
  ∀ e ∈ j.events, e.severity.passes .warning = false

namespace Journal

theorem quiet_pure (a : α) : (pure a : Journal α).Quiet := by
  intro e he
  cases he

theorem quiet_tell {e : Event} (h : e.severity.passes .warning = false) : (tell e).Quiet := by
  intro f hf
  rw [List.mem_singleton.1 hf]
  exact h

theorem Quiet.bind {f : α → Journal β} (hj : j.Quiet) (hf : (f j.result).Quiet) :
    (j >>= f).Quiet := by
  intro e he
  rw [events_bind, List.mem_append] at he
  cases he with
  | inl he => exact hj e he
  | inr he => exact hf e he

theorem Quiet.map (hj : j.Quiet) (f : α → β) : (f <$> j).Quiet := hj

end Journal

theorem written_append (threshold : Severity) (es fs : List Event) :
    written threshold (es ++ fs) = written threshold es ++ written threshold fs := by
  rw [written, passing, List.filter_append, List.map_append, String.join_append]
  rfl

theorem written_of_quiet (h : j.Quiet) : written .warning j.events = "" := by
  have hnone : passing .warning j.events = [] :=
    List.filter_eq_nil_iff.2 fun e he => Bool.eq_false_iff.1 (h e he)
  rw [written, hnone]
  rfl

theorem written_singleton {threshold : Severity} {e : Event}
    (h : e.severity.passes threshold = true) : written threshold [e] = e.entry.line := by
  have hpassing : passing threshold [e] = [e] :=
    List.filter_eq_self.2 fun f hf => List.mem_singleton.1 hf ▸ h
  rw [written, hpassing]
  exact String.empty_append

end Log

open Log

/-! ## Quiet work -/

namespace Buffer

theorem quiet_append (b : Buffer) (x : Datum) : (b.append x).Quiet := by
  unfold append
  cases token? x with
  | none => exact Journal.quiet_pure _
  | some t => exact (Journal.quiet_tell rfl).bind (Journal.quiet_pure _)

theorem quiet_appendAll (b : Buffer) (xs : List Datum) : (b.appendAll xs).Quiet := by
  induction xs generalizing b with
  | nil => exact Journal.quiet_pure _
  | cons x xs ih =>
    apply (b.quiet_append x).bind
    cases (b.append x).result with
    | error r => exact Journal.quiet_pure _
    | ok b => exact ih b

theorem quiet_ofList (xs : List Datum) : (ofList xs).Quiet := quiet_appendAll empty xs

theorem quiet_removeLast (b : Buffer) : b.removeLast.Quiet := by
  unfold removeLast
  cases b.tokens.getLast? with
  | none => exact Journal.quiet_pure _
  | some t => exact (Journal.quiet_tell rfl).bind (Journal.quiet_pure _)

end Buffer

namespace Solver

theorem quiet_create (tokens : List String) (maxDepth : Int) : (create tokens maxDepth).Quiet :=
  (Journal.quiet_tell rfl).bind (Journal.quiet_pure _)

theorem quiet_evaluate (s : Solver) (a : Assignment) : (s.evaluate a).Quiet := by
  have hrecordings : ∀ rs : List Valuation.Recording,
      (Journal.tellAll (rs.map .subformulaRecorded)).Quiet := by
    intro rs e he
    obtain ⟨r, -, rfl⟩ := List.mem_map.1 he
    rfl
  apply (hrecordings _).bind
  cases (PropTable.evaluate s.tokens a s.names s.maxDepth).outcome with
  | error err => exact Journal.quiet_pure _
  | ok e => exact (Journal.quiet_tell rfl).bind (Journal.quiet_pure _)

end Solver

namespace Table

theorem quiet_rowsOf (s : Solver) (labels? : Option (List String))
    (as : List (List (String × Bool))) : (rowsOf s labels? as).Quiet := by
  induction as generalizing labels? with
  | nil => exact Journal.quiet_pure _
  | cons a as ih =>
    apply (s.quiet_evaluate (.ofValues a)).bind
    generalize (s.evaluate (.ofValues a)).result = answered
    obtain ⟨outcome, _⟩ := answered
    cases outcome with
    | error err => exact Journal.quiet_pure _
    | ok e =>
      dsimp only
      cases rowOf (labels?.getD e.labels) a e with
      | error err => exact Journal.quiet_pure _
      | ok row => exact (ih _).map _

theorem quiet_build (tokens : List String) (maxDepth : Int) : (build tokens maxDepth).Quiet := by
  unfold build
  apply (Solver.quiet_create tokens maxDepth).bind
  by_cases htokens : tokens.isEmpty = true
  · rw [if_pos htokens]
    exact Journal.quiet_pure _
  · rw [if_neg htokens]
    apply (quiet_rowsOf _ _ _).bind
    cases (rowsOf _ _ _).result with
    | error err => exact Journal.quiet_pure _
    | ok rows => exact (Journal.quiet_tell rfl).bind (Journal.quiet_pure _)

end Table

namespace Session

variable {s : Session} {name : String}

theorem quiet_solve {answer : Option Table} (h : s.solve.result.1 = .ok answer) :
    s.solve.Quiet := by
  unfold solve at h ⊢
  by_cases hempty : s.buffer.isEmpty = true
  · rw [if_pos hempty]
    exact (Journal.quiet_tell rfl).bind (Journal.quiet_pure _)
  · rw [if_neg hempty] at h ⊢
    apply (Table.quiet_build _ _).bind
    rw [Journal.result_bind] at h
    cases hbuild : (Table.build s.buffer.tokens s.maxDepth).result with
    | ok T => exact Journal.quiet_pure _
    | error err =>
      rw [hbuild] at h
      cases err <;> cases h

theorem quiet_add (s : Session) (x : Datum) : (s.add x).Quiet := by
  apply (s.buffer.quiet_append x).bind
  cases (s.buffer.append x).result with
  | error r => exact Journal.quiet_pure _
  | ok b => exact Journal.quiet_pure _

-- Only a formula that is refused, or a name that stands for nothing, is worth a warning.
theorem quiet_dispatch {i : Intent} {answer : Option Table} (hname : Intent.ofName? name = some i)
    (h : (s.dispatch name).result.1 = .ok answer) : (s.dispatch name).Quiet := by
  unfold dispatch at h ⊢
  simp only [hname] at h ⊢
  apply (Journal.quiet_tell rfl).bind
  change (s.perform i).result.1 = .ok answer at h
  show (s.perform i).Quiet
  cases i with
  | addSymbol symbol => exact (s.quiet_add _).bind (Journal.quiet_pure _)
  | addLetter letter => exact (s.quiet_add _).bind (Journal.quiet_pure _)
  | deleteLast =>
    have hdelete : s.deleteLast.Quiet := s.buffer.quiet_removeLast.bind (Journal.quiet_pure _)
    exact hdelete.bind (Journal.quiet_pure _)
  | clear => exact Journal.quiet_pure _
  | solve =>
    have hsolve : s.solve.result.1 = .ok answer := by
      change s.solve.result.1.mapError _ = _ at h
      cases hresult : s.solve.result.1 with
      | ok T =>
        rw [hresult] at h
        cases h
        rfl
      | error err =>
        rw [hresult] at h
        cases h
    exact (quiet_solve hsolve).bind (Journal.quiet_pure _)

end Session

/-! ## What is seen of a run -/

namespace CommandLine

/-- The exit code of a run that is not verbose, and the text it writes. -/
def visible (j : Journal Verdict) : Nat × String :=
  let r : Report := ⟨.warning, j⟩
  (r.exitCode, r.output)

theorem visible_bind {α : Type} {j : Journal α} (hj : j.Quiet) (f : α → Journal Verdict) :
    visible (j >>= f) = visible (f j.result) := by
  have hwritten : written .warning (j >>= f).events = written .warning (f j.result).events := by
    rw [Journal.events_bind, written_append, written_of_quiet hj]
    exact String.empty_append
  simp only [visible, Report.output, hwritten]
  rfl

theorem visible_pure (v : Verdict) :
    visible (pure v) = (v.exit.code, String.join (v.lines.map fun line => line ++ "\n")) := by
  rw [visible, Report.output]
  exact congrArg (Prod.mk _) String.empty_append

-- A run that fails tells of its failure and prints nothing.
theorem visible_failing {e : Event} (he : e.severity.passes .warning = true) (exit : Exit) :
    visible (Journal.tell e >>= fun _ => pure (failing exit)) = (exit.code, e.entry.line) := by
  show (exit.code, written .warning [e] ++ "") = _
  rw [written_singleton he, String.append_empty]

end CommandLine

end PropTable
