import PropTable.CommandLine.Run
import PropTable.Proofs.Arguments
import PropTable.Proofs.LogRuns

/-!
# Verbose runs

A flag in front of a command line is read as if it stood alone, and the other arguments as if it
were not there (`parse_flag`). The flags for verbosity move the threshold of the log and nothing else, so
a run ends alike and prints the same with and without them. What it writes without them it also
writes with them, in the same order (`verbose_extends`).
-/

namespace PropTable.CommandLine

open Log

/-! ## Flags in front -/

/-- The state of reading with a flag switched on. -/
def Progress.enable (s : Switch) : Progress → Progress
  | .done r => .done (r.enable s)
  | .wantsValue t r => .wantsValue t (r.enable s)

theorem Settings.enable_comm (o : Settings) (s t : Switch) :
    (o.enable s).enable t = (o.enable t).enable s := by
  cases s <;> cases t <;> rfl

namespace Reader

theorem enable_comm (r : Reader) (s t : Switch) : (r.enable s).enable t = (r.enable t).enable s :=
  congrArg (fun o => { r with settings := o }) (r.settings.enable_comm s t)

variable (r : Reader) (s : Switch) (a : String)

theorem setAside_enable : (r.enable s).setAside a = (r.setAside a).enable s := rfl

theorem takeOperand_enable : (r.enable s).takeOperand a = (r.takeOperand a).enable s := by
  obtain ⟨o, run, extras⟩ := r
  cases run <;> cases s <;> rfl

theorem takeSeparator_enable : (r.enable s).takeSeparator a = (r.takeSeparator a).enable s := by
  obtain ⟨o, run, extras⟩ := r
  cases run <;> rfl

theorem interrupt_enable : (r.enable s).interrupt = r.interrupt.enable s := by
  obtain ⟨o, run, extras⟩ := r
  cases run <;> rfl

theorem takeFile_enable : (r.enable s).takeFile a = (r.takeFile a).enable s := by
  cases s <;> rfl

end Reader

theorem applyLetters_enable (r : Reader) (s t : Switch) (cs : List Char) :
    applyLetters (r.enable s) t cs = (applyLetters r t cs).map (Progress.enable s) := by
  induction cs generalizing r t with
  | nil =>
    rw [applyLetters, applyLetters]
    by_cases ht : t.takesValue = true
    · rw [if_pos ht, if_pos ht]
      rfl
    · rw [if_neg ht, if_neg ht, r.enable_comm]
      rfl
  | cons c cs ih =>
    rw [applyLetters, applyLetters]
    by_cases ht : t.takesValue = true
    · rw [if_pos ht, if_pos ht, r.takeFile_enable]
      rfl
    · rw [if_neg ht, if_neg ht]
      cases Switch.ofSpelling? (String.ofList ['-', c]) with
      | none => rfl
      | some next =>
        dsimp only
        rw [r.enable_comm, ih]

theorem applyOption_enable (r : Reader) (s t : Switch) (short : Bool)
    (attached : Option (List Char)) :
    applyOption (r.enable s) t short attached =
      (applyOption r t short attached).map (Progress.enable s) := by
  cases attached with
  | none => exact applyLetters_enable r s t []
  | some value =>
    rw [applyOption, applyOption]
    by_cases ht : t.takesValue = true
    · rw [if_pos ht, if_pos ht, r.takeFile_enable]
      rfl
    · rw [if_neg ht, if_neg ht, applyLetters_enable]
      by_cases hvalue : (short && !value.isEmpty) = true
      · rw [if_pos hvalue, if_pos hvalue]
      · rw [if_neg hvalue, if_neg hvalue]
        rfl

theorem Reader.help_enable {s : Switch} (hs : s ≠ .help) (r : Reader) :
    (r.enable s).settings.help = r.settings.help :=
  CommandLine.help_enable hs

/-- What is switched on before reading does not matter to reading, and stays switched on. -/
theorem readAll_enable {s : Switch} (hs : s ≠ .help) (r : Reader)
    (classified : List (String × Kind)) :
    readAll (r.enable s) classified = (readAll r classified).map (Reader.enable · s) := by
  fun_induction readAll r classified with
  | case1 r => rfl
  | case2 r a rest ih => rw [readAll, r.takeOperand_enable, ih]
  | case3 r a rest ih => rw [readAll, r.takeSeparator_enable, ih]
  | case4 r a rest ih => rw [readAll, r.interrupt_enable, Reader.setAside_enable, ih]
  | case5 r a t short attached rest err happly =>
    rw [readAll, r.interrupt_enable, applyOption_enable, happly]
    rfl
  | case6 r a t short attached rest r' happly hhelp =>
    rw [readAll, r.interrupt_enable, applyOption_enable, happly]
    exact if_pos ((r'.help_enable hs).trans hhelp)
  | case7 r a t short attached rest r' happly hhelp ih =>
    rw [readAll, r.interrupt_enable, applyOption_enable, happly, ← ih]
    exact if_neg ((r'.help_enable hs).symm ▸ hhelp)
  | case8 r a t short attached t' r' happly value rest hhelp =>
    rw [readAll, r.interrupt_enable, applyOption_enable, happly]
    exact if_pos ((r'.help_enable hs).trans hhelp)
  | case9 r a t short attached t' r' happly value rest hhelp ih =>
    rw [readAll, r.interrupt_enable, applyOption_enable, happly, ← ih, ← r'.takeFile_enable]
    exact if_neg ((r'.help_enable hs).symm ▸ hhelp)
  | case10 r a t short attached rest t' r' happly hrest =>
    rw [readAll, r.interrupt_enable, applyOption_enable, happly]
    simp only [Except.map, Progress.enable]

/-- A flag in front of the arguments is switched on in what they ask for. They are refused with it
for what they are refused without it. -/
theorem parse_flag {p : String × Switch} (hp : p ∈ flags) (arguments : List String) :
    parse (p.1 :: arguments) = (parse arguments).map (Settings.enable · p.2) := by
  obtain ⟨hseparator, hkind⟩ := classify_flag p hp
  obtain ⟨hvalue, hhelp⟩ := takesValue_flag p hp
  have happly : applyOption (Reader.interrupt ⟨.initial, .ahead, []⟩) p.2 (isShort p.1) none =
      .ok (.done (Reader.enable ⟨.initial, .ahead, []⟩ p.2)) := by
    rw [applyOption, applyLetters, hvalue, if_neg Bool.false_ne_true]
    rfl
  have hinitial : (Reader.enable ⟨.initial, .ahead, []⟩ p.2).settings.help = false :=
    Reader.help_enable hhelp _
  rw [parse, parse]
  cases hclassified : classifyAll arguments with
  | error err =>
    rw [classifyAll, if_neg hseparator, hkind, hclassified]
    rfl
  | ok classified =>
    rw [classifyAll_cons hseparator hkind hclassified]
    dsimp only
    rw [readAll, happly]
    dsimp only
    rw [hinitial, if_neg Bool.false_ne_true, readAll_enable hhelp]
    cases readAll ⟨.initial, .ahead, []⟩ classified with
    | error err => rfl
    | ok r =>
      simp only [Except.map, Reader.help_enable hhelp]
      by_cases hextras : (r.settings.help || r.extras.isEmpty) = true
      · rw [if_pos hextras]
        exact if_pos hextras
      · rw [if_neg hextras]
        exact if_neg hextras

/-! ## What a run writes -/

/-- One piece of what a run writes. -/
inductive Piece where
  | logged (e : Entry)
  | printed (line : String)
deriving DecidableEq, Repr

def Piece.text : Piece → String
  | .logged e => e.line
  | .printed line => line ++ "\n"

namespace Report

/-- The pieces of the log and the printed lines, in the order in which they are written. -/
def pieces (r : Report) : List Piece :=
  (passing r.threshold r.journal.events).map (fun e => .logged e.entry) ++
    r.journal.result.lines.map .printed

/-- The text that is written by a run in a program that has used its log before: the run moves the
level of the process-wide channel and sends its entries there. -/
def outputAfter (r : Report) (actions : List Action) : String :=
  let w := (World.empty.run actions).setShared r.threshold
  w.registry.writeShared (r.journal.events.map Event.entry) ++
    String.join (r.journal.result.lines.map fun line => line ++ "\n")

/-- The run `s` ends like `r`, prints what `r` prints, and writes what `r` writes, with more between
it at most. -/
structure Extends (s r : Report) : Prop where
  exitCode : s.exitCode = r.exitCode
  lines : s.journal.result.lines = r.journal.result.lines
  pieces : r.pieces.Sublist s.pieces

end Report

/-- Two command lines are refused for the same, or the second run extends the first. -/
inductive Extended : Except UsageError Report → Except UsageError Report → Prop where
  | refused (err : UsageError) : Extended (.error err) (.error err)
  | accepted {r s : Report} : s.Extends r → Extended (.ok r) (.ok s)

/-! ## Channels and pieces -/

theorem join_map_if {α : Type} (p : α → Bool) (f : α → String) (xs : List α) :
    String.join (xs.map fun x => if p x then f x else "") = String.join ((xs.filter p).map f) := by
  induction xs with
  | nil => rfl
  | cons x xs ih =>
    rw [List.map_cons, String.join_cons, ih]
    by_cases hx : p x = true
    · rw [if_pos hx, List.filter_cons_of_pos hx, List.map_cons, String.join_cons]
    · rw [if_neg hx, List.filter_cons_of_neg hx, String.empty_append]

/-- What was done with the log before does not show: the process-wide channel writes the events that
pass the threshold that was set last, each of them once. -/
theorem writeShared_setShared {w : World} {gs : List (String × Severity)} (h : w.Agrees gs)
    (threshold : Severity) (events : List Event) :
    (w.setShared threshold).registry.writeShared (events.map Event.entry) =
      written threshold events := by
  let name := w.registry.shared.getD Registry.sharedName
  have hshared : (w.setShared threshold).registry.shared = some name :=
    w.registry.shared_setSharedThreshold threshold
  have hchannel : (w.setShared threshold).registry.channel? name = some (.fresh threshold) := by
    refine (w.registry.channel?_setSharedThreshold name threshold fun x hx => ?_).trans (if_pos rfl)
    obtain ⟨level, -, hlevel⟩ := h.channel (h.shared x hx)
    exact ⟨level, hlevel⟩
  have hwrite : ∀ e : Event, (w.setShared threshold).registry.write name e.entry =
      if e.severity.passes threshold then e.entry.line else "" := by
    intro e
    rw [Registry.write, hchannel]
    refine (Channel.write_fresh threshold e.entry).trans ?_
    exact if_congr decide_eq_true_iff.symm rfl rfl
  rw [Registry.writeShared, Registry.openShared, hshared]
  show String.join ((events.map Event.entry).map _) = _
  rw [List.map_map, written, passing, ← join_map_if]
  exact congrArg String.join (List.map_congr_left fun e _ => hwrite e)

theorem output_eq_pieces (r : Report) : r.output = String.join (r.pieces.map Piece.text) := by
  rw [Report.output, Report.pieces, List.map_append, String.join_append, List.map_map,
    List.map_map]
  rfl

theorem outputAfter_eq (r : Report) (actions : List Action) :
    r.outputAfter actions = r.output := by
  have h : (World.empty.run actions).Agrees _ := World.agrees_empty.run actions
  rw [Report.outputAfter, writeShared_setShared h]
  rfl

/-! ## Two thresholds -/

theorem passing_sublist {threshold threshold' : Severity}
    (h : threshold'.rank ≤ threshold.rank) (events : List Event) :
    (passing threshold events).Sublist (passing threshold' events) := by
  refine List.monotone_filter_right events fun e he => ?_
  exact decide_eq_true (Int.le_trans h (of_decide_eq_true he))

theorem extends_of_threshold {threshold threshold' : Severity}
    (h : threshold'.rank ≤ threshold.rank) (j : Journal Verdict) :
    Report.Extends ⟨threshold', j⟩ ⟨threshold, j⟩ := by
  constructor
  case exitCode => rfl
  case lines => rfl
  case pieces => exact ((passing_sublist h j.events).map _).append (List.Sublist.refl _)

-- The flags for verbosity lower the threshold, and debugging output has the lowest of all.
theorem rank_thresholdFor_verbose (verbose debug : Bool) :
    (thresholdFor true debug).rank ≤ (thresholdFor verbose debug).rank := by
  cases verbose <;> cases debug <;> decide

theorem rank_thresholdFor_debug (verbose verbose' debug : Bool) :
    (thresholdFor verbose' true).rank ≤ (thresholdFor verbose debug).rank := by
  cases verbose <;> cases verbose' <;> cases debug <;> decide

theorem run_flag {p : String × Switch} (hp : p ∈ flags) (read : String → Contents)
    (arguments : List String) :
    run read (p.1 :: arguments) =
      (parse arguments).map fun o => report (o.enable p.2) read := by
  rw [run, parse_flag hp]
  cases parse arguments <;> rfl

/-- Whatever the arguments and the files are: `-v` in front of the arguments changes neither how the
run ends nor what it prints, and `--debug` neither. Each of the two has more of the log written and
leaves out nothing. What is written is the same whatever was done with the log before. -/
theorem verbose_extends (read : String → Contents) (arguments : List String) :
    Extended (run read arguments) (run read ("-v" :: arguments)) ∧
    Extended (run read ("-v" :: arguments)) (run read ("--debug" :: arguments)) ∧
    ∀ (r : Report) (actions : List Action),
      r.outputAfter actions = String.join (r.pieces.map Piece.text) := by
  rw [run_flag (p := ("-v", .verbose)) (by decide),
    run_flag (p := ("--debug", .debug)) (by decide), run]
  refine ⟨?_, ?_, fun r actions => (outputAfter_eq r actions).trans (output_eq_pieces r)⟩
  · cases parse arguments with
    | error err => exact .refused err
    | ok o =>
      exact .accepted (extends_of_threshold (rank_thresholdFor_verbose o.verbose o.debug) _)
  · cases parse arguments with
    | error err => exact .refused err
    | ok o =>
      exact .accepted (extends_of_threshold (rank_thresholdFor_debug true o.verbose o.debug) _)

end PropTable.CommandLine
