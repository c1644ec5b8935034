import PropTable.Proofs.Checking
import PropTable.Proofs.Utf8
import PropTable.Proofs.Words

/-!
# Formula files against arguments

A run on a formula file is the run on the words of the file's text, provided that the bytes of the
file are the encoding of a text; any other file is refused (`file_agrees`). So tokens that are
written to a file come back from it, whatever blanks stand between them.
-/

namespace PropTable.CommandLine

open Log Text

variable {o : Settings} {read : String → Contents} {tokens : List String}

/-! ## Flags -/

/-- The flags that leave open where the formula comes from. -/
def modes : List String := ["-v", "--debug", "--validate-only"]

theorem flag_of_mode : ∀ x ∈ modes, ∃ p ∈ flags, p.1 = x ∧ p.2 ≠ .intents := by
  decide

theorem enable_mode {p : String × Switch} (hp : p ∈ flags) (hintents : p.2 ≠ .intents)
    (o : Settings) (verbose debug validateOnly : Bool) :
    { o.enable p.2 with verbose := verbose, debug := debug, validateOnly := validateOnly } =
      { o with verbose := verbose, debug := debug, validateOnly := validateOnly } := by
  obtain ⟨-, hhelp⟩ := takesValue_flag p hp
  cases hs : p.2 with
  | help => exact absurd hs hhelp
  | intents => exact absurd hs hintents
  | _ => rfl

-- Behind such flags, the other arguments are read as they would be without them.
theorem takes_modes {given : List String} (h : ∀ x ∈ given, x ∈ modes) (o : Settings)
    (ho : o.help = false) :
    ∃ verbose debug validateOnly, ∀ arguments o',
      Takes { o with verbose := verbose, debug := debug, validateOnly := validateOnly }
        arguments o' →
      Takes o (given ++ arguments) o' := by
  induction given generalizing o with
  | nil => exact ⟨o.verbose, o.debug, o.validateOnly, fun _ _ h => h⟩
  | cons x given ih =>
    obtain ⟨p, hp, rfl, hintents⟩ := flag_of_mode x (h x List.mem_cons_self)
    have hrest : ∀ y ∈ given, y ∈ modes := fun y hy => h y (List.mem_cons_of_mem _ hy)
    have hhelp : (o.enable p.2).help = false := (help_enable (takesValue_flag p hp).2).trans ho
    obtain ⟨verbose, debug, validateOnly, htakes⟩ := ih hrest (o.enable p.2) hhelp
    refine ⟨verbose, debug, validateOnly, ?_⟩
    intro arguments o' h
    rw [← enable_mode hp hintents] at h
    exact .flag hp ho (htakes arguments o' h)

/-! ## Sources -/

theorem report_of_source (hhelp : o.help = false) (hintents : o.intents = false)
    (h : sourceTokens o read = .ok tokens) :
    report o read = ⟨thresholdFor o.verbose o.debug, solve o.validateOnly tokens⟩ := by
  simp only [report, execute, hhelp, hintents, h, Bool.false_eq_true, if_false]

theorem report_of_unreadable (hhelp : o.help = false) (hintents : o.intents = false)
    {err : FileError} (h : sourceTokens o read = .error err) :
    report o read = ⟨thresholdFor o.verbose o.debug,
      Journal.tell (.fileUnreadable err.message) >>= fun _ => pure (failing .unreadable)⟩ := by
  simp only [report, execute, hhelp, hintents, h, Bool.false_eq_true, if_false]

theorem tokensOfContents_encode (path : String) (text : List Char) :
    tokensOfContents path (.ok (Utf8.encode text)) = .ok (words text) := by
  rw [tokensOfContents, Utf8.decode_eq_ok_iff.2 rfl]

-- An error is written whatever the threshold is.
theorem output_unreadable (threshold : Severity) (reason : String) :
    Report.output ⟨threshold, Journal.tell (.fileUnreadable reason) >>= fun _ =>
      pure (failing .unreadable)⟩ = (Event.fileUnreadable reason).entry.line := by
  have hpasses : (Event.fileUnreadable reason).severity.passes threshold = true := by
    show Severity.passes .error threshold = true
    cases threshold <;> decide
  show written threshold [.fileUnreadable reason] ++ "" = _
  rw [written_singleton hpasses, String.append_empty]

/-! ## Both ways to give a formula -/

/-- Where the bytes of a file encode a text, the run on the file is the run on the words of the
text, which are the same however its lines end. Where they encode none, the run fails and prints no
table. Words that are written to a file with blanks between them are what is read from it. -/
theorem file_agrees {given : List String} {file : String} {bytes : List UInt8}
    (hgiven : ∀ x ∈ given, x ∈ modes) (hfile : file.startsWith "-" = false)
    (hread : read (normalizePath file) = .ok bytes) :
    (∀ text, bytes = Utf8.encode text → ∃ tokens r,
      (∀ ws, Runs text ws ↔ ws = tokens) ∧ (∀ ws, Runs (foldLineEnds text) ws ↔ ws = tokens) ∧
      run read (given ++ ["-f", file]) = .ok r ∧ run read (given ++ "--" :: tokens) = .ok r) ∧
    ((∀ text, bytes ≠ Utf8.encode text) → ∃ m r, Utf8.decode bytes = .error m ∧
      run read (given ++ ["-f", file]) = .ok r ∧ r.exitCode = 4 ∧
      r.journal.result.lines = [] ∧ r.output = (Event.fileUnreadable m.message).entry.line) ∧
    ∀ front parts, (∀ c ∈ front, isBlank c = true) →
      (∀ p ∈ parts, IsWord p.1 ∧ ∀ c ∈ p.2, isBlank c = true) →
      (∀ p ∈ parts.dropLast, p.2 ≠ []) → bytes = Utf8.encode (spread front parts) →
      tokensOfContents (normalizePath file) (read (normalizePath file)) =
        .ok (parts.map Prod.fst) := by
  obtain ⟨verbose, debug, validateOnly, htakes⟩ := takes_modes hgiven .initial rfl
  let o : Settings :=
    { Settings.initial with verbose := verbose, debug := debug, validateOnly := validateOnly }
  have hrun : run read (given ++ ["-f", file]) =
      .ok (report { o with formulaFile := some file } read) :=
    run_of_parse read (htakes _ _ (takes_file rfl hfile)).parse
  have hrunTokens : ∀ tokens, run read (given ++ "--" :: tokens) =
      .ok (report { o with operands := tokens } read) :=
    fun tokens => run_of_parse read (htakes _ _ (takes_separator _ tokens)).parse
  have hsource : sourceTokens { o with formulaFile := some file } read =
      tokensOfContents (normalizePath file) (.ok bytes) :=
    congrArg (tokensOfContents (normalizePath file)) hread
  refine ⟨?_, ?_, ?_⟩
  · intro text hbytes
    rw [hbytes, tokensOfContents_encode] at hsource
    refine ⟨words text, _, fun ws => runs_iff, ?_, hrun, ?_⟩
    · intro ws
      rw [runs_iff, words_foldLineEnds]
    · have hgivenTokens : sourceTokens { o with operands := words text } read = .ok (words text) :=
        rfl
      rw [hrunTokens, report_of_source rfl rfl hsource, report_of_source rfl rfl hgivenTokens]
  · intro hbytes
    cases hdecode : Utf8.decode bytes with
    | ok text => exact absurd (Utf8.decode_eq_ok_iff.1 hdecode) (hbytes text)
    | error m =>
      rw [tokensOfContents, hdecode] at hsource
      refine ⟨m, _, rfl, hrun, ?_⟩
      rw [report_of_unreadable rfl rfl hsource]
      exact ⟨rfl, rfl, output_unreadable _ _⟩
  · intro front parts hfront hparts hapart hbytes
    rw [hread, hbytes, tokensOfContents_encode, runs_iff.1 (runs_spread hfront hparts hapart)]

-- One file has a line end of two characters and an em quad in it, the other one is no text.
theorem file_agrees_of_two_files :
    let bytes : List UInt8 := [0x50, 0x0d, 0x0a, 0x26, 0x26, 0xe2, 0x80, 0x81, 0xc3, 0xa9]
    let readText : String → Contents := fun _ => .ok bytes
    let readOther : String → Contents := fun _ => .ok [0x50, 0xff]
    (∀ x ∈ ["-v"], x ∈ modes) ∧ "a.txt".startsWith "-" = false ∧
    (readText (normalizePath "a.txt") = .ok bytes ∧
      (∃ r, run readText ["-v", "-f", "a.txt"] = .ok r ∧
        run readText ["-v", "--", "P", "&&", "é"] = .ok r) ∧
      tokensOfContents (normalizePath "a.txt") (readText (normalizePath "a.txt")) =
        .ok ["P", "&&", "é"]) ∧
    (readOther (normalizePath "a.txt") = .ok [0x50, 0xff] ∧
      ∃ r, run readOther ["-v", "-f", "a.txt"] = .ok r ∧ r.exitCode = 4 ∧
        r.journal.result.lines = []) := by
  intro bytes readText readOther
  let text : List Char := ['P', '\r', '\n', '&', '&', '\u2001', 'é']
  let parts : List (String × List Char) := [("P", ['\r', '\n']), ("&&", ['\u2001']), ("é", [])]
  have hgiven : ∀ x ∈ ["-v"], x ∈ modes := by decide
  have hfile : "a.txt".startsWith "-" = false := by decide +kernel
  have hreadText : readText (normalizePath "a.txt") = .ok bytes := rfl
  have hreadOther : readOther (normalizePath "a.txt") = .ok [0x50, 0xff] := rfl
  obtain ⟨htext, -, hspread⟩ := file_agrees hgiven hfile hreadText
  obtain ⟨-, hother, -⟩ := file_agrees hgiven hfile hreadOther
  refine ⟨hgiven, hfile, ⟨hreadText, ?_, ?_⟩, hreadOther, ?_⟩
  · obtain ⟨tokens, r, hruns, -, hrun, hrunTokens⟩ := htext text (by decide +kernel)
    obtain rfl : ["P", "&&", "é"] = tokens := (hruns _).1 (runs_iff.2 (by decide +kernel))
    exact ⟨r, hrun, hrunTokens⟩
  · have hparts : ∀ p ∈ parts, IsWord p.1 ∧ ∀ c ∈ p.2, isBlank c = true := by
      intro p hp
      simp only [parts, List.mem_cons, List.not_mem_nil, or_false] at hp
      obtain rfl | rfl | rfl := hp
      · exact ⟨isWord_ofList (w := ['P']) nofun (List.forall_mem_singleton.2 rfl),
          List.forall_mem_cons.2 ⟨rfl, List.forall_mem_singleton.2 rfl⟩⟩
      · exact ⟨isWord_ofList (w := ['&', '&']) nofun
          (List.forall_mem_cons.2 ⟨rfl, List.forall_mem_singleton.2 rfl⟩),
          List.forall_mem_singleton.2 rfl⟩
      · exact ⟨isWord_ofList (w := ['é']) nofun (List.forall_mem_singleton.2 rfl), nofun⟩
    exact hspread [] parts nofun hparts (by decide) (by decide +kernel)
  · have hnone : ∀ t, [0x50, 0xff] ≠ Utf8.encode t := by
      intro t h
      cases Utf8.decode_eq_ok_iff.2 h
    obtain ⟨m, r, -, hrun, hcode, hlines, -⟩ := hother hnone
    exact ⟨r, hrun, hcode, hlines⟩

end PropTable.CommandLine
