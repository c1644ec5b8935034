import Mathlib.Data.List.Basic
import PropTable.CommandLine.Arguments

/-!
# Reading a command line

What a command line asks for is read off its arguments from left to right. `Takes o arguments o'`
says that the arguments are in order and lead from the settings `o` to the settings `o'`; there is
one lemma for each kind of argument, and `Takes.parse` for the whole line.
-/

namespace PropTable.CommandLine

/-- Where no operand stands before them, the arguments are read without complaint, and turn the
settings `o` into `o'`. -/
def Takes (o : Settings) (arguments : List String) (o' : Settings) : Prop :=
  ∃ classified run, classifyAll arguments = .ok classified ∧
    readAll ⟨o, .ahead, []⟩ classified = .ok ⟨o', run, []⟩

/-- The options that have no value and let the program go on with its work. -/
def flags : List (String × Switch) :=
  Switch.spellings.filter fun p => !p.2.takesValue && p.2 != .help

variable {o o' : Settings} {arguments : List String}

theorem Takes.parse (h : Takes .initial arguments o) : parse arguments = .ok o := by
  obtain ⟨classified, run, hclassified, hread⟩ := h
  simp only [CommandLine.parse, hclassified, hread, List.isEmpty_nil, Bool.or_true, if_true]

theorem classifyAll_cons {a : String} {kind : Kind} {classified : List (String × Kind)}
    (ha : a ≠ separatorSpelling) (hkind : classify a = .ok kind)
    (h : classifyAll arguments = .ok classified) :
    classifyAll (a :: arguments) = .ok ((a, kind) :: classified) := by
  rw [classifyAll, if_neg ha, hkind, h]
  rfl

/-! ## Flags -/

theorem classify_flag : ∀ p ∈ flags, p.1 ≠ separatorSpelling ∧
    classify p.1 = .ok (.known p.2 (isShort p.1) none) := by
  decide +kernel

theorem takesValue_flag : ∀ p ∈ flags, p.2.takesValue = false ∧ p.2 ≠ .help := by
  decide

theorem help_enable {s : Switch} (hs : s ≠ .help) : (o.enable s).help = o.help := by
  cases s with
  | help => exact absurd rfl hs
  | _ => rfl

theorem Takes.flag {p : String × Switch} (hp : p ∈ flags) (ho : o.help = false)
    (h : Takes (o.enable p.2) arguments o') : Takes o (p.1 :: arguments) o' := by
  obtain ⟨classified, run, hclassified, hread⟩ := h
  obtain ⟨hseparator, hkind⟩ := classify_flag p hp
  obtain ⟨hvalue, hhelp⟩ := takesValue_flag p hp
  refine ⟨_, run, classifyAll_cons hseparator hkind hclassified, ?_⟩
  have happly : applyOption (Reader.interrupt ⟨o, .ahead, []⟩) p.2 (isShort p.1) none =
      .ok (.done ⟨o.enable p.2, .ahead, []⟩) := by
    simp only [applyOption, applyLetters, hvalue, Bool.false_eq_true, if_false]
    rfl
  rw [readAll, happly]
  simp only [help_enable hhelp, ho, Bool.false_eq_true, if_false]
  exact hread

/-! ## Operands -/

-- The run of operands is not over where it has just been begun.
theorem readAll_operands (o : Settings) (run : Run) (hrun : run ≠ .over) (tokens : List String) :
    ∃ run', readAll ⟨o, run, []⟩ (tokens.map fun t => (t, .operand)) =
      .ok ⟨{ o with operands := o.operands ++ tokens }, run', []⟩ := by
  induction tokens generalizing o run with
  | nil =>
    rw [List.append_nil]
    exact ⟨run, rfl⟩
  | cons t tokens ih =>
    have htake : Reader.takeOperand ⟨o, run, []⟩ t =
        ⟨{ o with operands := o.operands ++ [t] }, .inside, []⟩ := by
      match run, hrun with
      | .ahead, _ => rfl
      | .inside, _ => rfl
      | .over, h => exact absurd rfl h
    obtain ⟨run', hrest⟩ := ih { o with operands := o.operands ++ [t] } .inside nofun
    refine ⟨run', ?_⟩
    rw [List.map_cons, readAll, htake, hrest, List.append_assoc]
    rfl

theorem takes_separator (o : Settings) (tokens : List String) :
    Takes o (separatorSpelling :: tokens) { o with operands := o.operands ++ tokens } := by
  obtain ⟨run, hread⟩ := readAll_operands o .inside nofun tokens
  refine ⟨(separatorSpelling, .separator) :: tokens.map fun t => (t, .operand), run, ?_, hread⟩
  rw [classifyAll, if_pos rfl]

theorem takes_operands (o : Settings) {names : List String}
    (h : ∀ x ∈ names, x ≠ separatorSpelling ∧ classify x = .ok .operand) :
    Takes o names { o with operands := o.operands ++ names } := by
  obtain ⟨run, hread⟩ := readAll_operands o .ahead nofun names
  refine ⟨_, run, ?_, hread⟩
  clear hread
  induction names with
  | nil => rfl
  | cons x names ih =>
    obtain ⟨hx, hkind⟩ := h x List.mem_cons_self
    exact classifyAll_cons hx hkind (ih fun y hy => h y (List.mem_cons_of_mem x hy))

/-! ## Formula files -/

theorem classify_of_not_hyphen {file : String} (h : file.startsWith "-" = false) :
    file ≠ separatorSpelling ∧ classify file = .ok .operand := by
  constructor
  · intro he
    rw [he] at h
    revert h
    decide +kernel
  · rw [classify, h]
    rfl

theorem takes_file (ho : o.help = false) {file : String} (h : file.startsWith "-" = false) :
    Takes o ["-f", file] { o with formulaFile := some file } := by
  obtain ⟨hfile, hkind⟩ := classify_of_not_hyphen h
  have hoption : classify "-f" = .ok (.known .formulaFile true none) := by decide +kernel
  refine ⟨[("-f", .known .formulaFile true none), (file, .operand)], .ahead, ?_, ?_⟩
  · exact classifyAll_cons (by decide) hoption (classifyAll_cons hfile hkind rfl)
  · have htake : Reader.takeFile ⟨o, .ahead, []⟩ file =
        ⟨{ o with formulaFile := some file }, .ahead, []⟩ := by
      rw [Reader.takeFile, if_neg hfile]
    have happly : applyOption (Reader.interrupt ⟨o, .ahead, []⟩) .formulaFile true none =
        .ok (.wantsValue .formulaFile ⟨o, .ahead, []⟩) := rfl
    rw [readAll, happly]
    simp only [ho, Bool.false_eq_true, if_false, htake, readAll]

end PropTable.CommandLine
