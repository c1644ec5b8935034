import Mathlib.Data.List.Forall2
import PropTable.Proofs.TruthTable

/-!
# Replaying the log

While a formula is evaluated, the debugging log tells of each record: a line with `+` tells of a
label that is new, and a line with `~` of one that gets another value. Such a line can be read back
(`readRecording?`), and the lines in their order build up the trace again (`replay`). So the log of
an evaluation holds its trace, and the log of a truth table holds one such log for each row, with
the same labels and marks in all of them (`replay_log`). What the lines say is spelled out here,
apart from the messages of the events.
-/

namespace PropTable

open Log
open PropTable.Valuation (Recording)

namespace Log

/-- The entries that are written of events under a threshold. -/
def entriesAt (threshold : Severity) (events : List Event) : List Entry :=
  (passing threshold events).map Event.entry

/-- The text of a line that tells of a recording. -/
def recordingText (r : Recording) : String :=
  "    " ++ (if r.first then "+" else "~") ++ " " ++ r.label ++ " = " ++
    (if r.value then "T" else "F")

/-- The text of the line that tells how a formula came out, and how many labels there are. -/
def resultText (formula : String) (result : Bool) (labels : Nat) : String :=
  "Evaluated " ++ formula ++ " → " ++ (if result then "T" else "F") ++ " (" ++ toString labels ++
    " sub-expressions)"

/-- The text of the line that tells of a new solver. -/
def solverText (formula : String) (names : List String) : String :=
  "Solver created for " ++ formula ++ " with variables " ++ Text.quotedList names

/-- The text of the line that tells how large a truth table is. -/
def tableText (names labels rows : Nat) : String :=
  "Truth table: " ++ toString names ++ " variables, " ++ toString labels ++
    " sub-expressions, " ++ toString rows ++ " rows"

/-- What a line tells of if it tells of a recording: the mark stands between four spaces and one,
the value behind the last space, and the label between them, whatever it holds. -/
def recordingIn (cs : List Char) : Recording where
  label := String.ofList ((cs.drop 6).take (cs.length - 10))
  value := cs.getLast? == some 'T'
  first := cs[4]? == some '+'

/-- The recording that a text tells of. -/
def readRecording? (text : String) : Option Recording :=
  if recordingText (recordingIn text.toList) = text then some (recordingIn text.toList) else none

/-- The recordings that entries tell of. -/
def recordingsOf (log : List Entry) : List Recording :=
  log.filterMap fun e => readRecording? e.message

/-! ## Entries and their texts -/

theorem entry_recorded (r : Recording) :
    (Event.subformulaRecorded r).entry = ⟨.debug, recordingText r⟩ := rfl

theorem entry_evaluated (formula : String) (result : Bool) (labels : Nat) :
    (Event.evaluated formula result labels).entry = ⟨.debug, resultText formula result labels⟩ :=
  rfl

theorem entry_created (formula : String) (names : List String) :
    (Event.solverCreated formula names).entry = ⟨.debug, solverText formula names⟩ := rfl

theorem entry_tabulated (names labels rows : Nat) :
    (Event.tabulated names labels rows).entry = ⟨.info, tableText names labels rows⟩ := rfl

/-! ## Lines that are read back -/

theorem toList_recordingText (r : Recording) :
    (recordingText r).toList =
      [' ', ' ', ' ', ' ', if r.first then '+' else '~', ' '] ++ r.label.toList ++
        [' ', '=', ' ', if r.value then 'T' else 'F'] := by
  obtain ⟨label, value, first⟩ := r
  unfold recordingText
  simp only [String.toList_append]
  cases value <;> cases first <;> simp

-- Six characters stand in front of the label, and four behind it.
theorem recordingIn_line (mark letter : Char) (label : List Char) :
    recordingIn ([' ', ' ', ' ', ' ', mark, ' '] ++ label ++ [' ', '=', ' ', letter]) =
      ⟨String.ofList label, letter == 'T', mark == '+'⟩ := by
  have hlast : ([' ', ' ', ' ', ' ', mark, ' '] ++ label ++ [' ', '=', ' ', letter]).getLast? =
      some letter := by
    rw [List.getLast?_append]
    rfl
  rw [recordingIn, hlast]
  simp

theorem recordingIn_recordingText (r : Recording) : recordingIn (recordingText r).toList = r := by
  rw [toList_recordingText, recordingIn_line, String.ofList_toList]
  obtain ⟨label, value, first⟩ := r
  cases value <;> cases first <;> rfl

theorem readRecording?_recordingText (r : Recording) :
    readRecording? (recordingText r) = some r := by
  rw [readRecording?, recordingIn_recordingText, if_pos rfl]

/-- Texts of recordings are read back, and only those are read as recordings. -/
theorem readRecording?_eq_some_iff {text : String} {r : Recording} :
    readRecording? text = some r ↔ recordingText r = text := by
  constructor
  · intro h
    rw [readRecording?] at h
    by_cases htext : recordingText (recordingIn text.toList) = text
    · rw [if_pos htext] at h
      rw [← Option.some.inj h]
      exact htext
    · rw [if_neg htext] at h
      cases h
  · rintro rfl
    exact readRecording?_recordingText r

-- The line of a recording starts with a space.
theorem readRecording?_resultText (formula : String) (result : Bool) (labels : Nat) :
    readRecording? (resultText formula result labels) = none := by
  rw [Option.eq_none_iff_forall_ne_some]
  intro r hr
  have hresult : (resultText formula result labels).toList.head? = some 'E' := by
    unfold resultText
    simp only [String.toList_append]
    rfl
  rw [← readRecording?_eq_some_iff.1 hr, toList_recordingText] at hresult
  cases hresult

/-! ## Replays -/

/-- Follows a line of the log: a label with `+` goes behind the others, and a label with `~` gets
another value where it stands. The line is out of order if the first is not new, or the second not
there. -/
def follow (entries : List (String × Bool)) (r : Recording) : Option (List (String × Bool)) :=
  if r.label ∈ entries.map Prod.fst then
    if r.first then none
    else some (entries.map fun e => if e.1 = r.label then (r.label, r.value) else e)
  else if r.first then some (entries ++ [(r.label, r.value)])
  else none

/-- Follows lines in turn. -/
def followAll : List (String × Bool) → List Recording → Option (List (String × Bool))
  | entries, [] => some entries
  | entries, r :: rs => (follow entries r).bind fun next => followAll next rs

def replay (rs : List Recording) : Option (List (String × Bool)) := followAll [] rs

/-- The labels of the lines with `+`. -/
def firstLabels (rs : List Recording) : List String :=
  (rs.filter Recording.first).map Recording.label

/-- What lines tell apart from the values: the labels with their marks. -/
def shape (rs : List Recording) : List (String × Bool) :=
  rs.map fun r => (r.label, r.first)

section

variable {entries next : List (String × Bool)} {r : Recording} {rs front back : List Recording}

theorem firstLabels_cons (r : Recording) (rs : List Recording) :
    firstLabels (r :: rs) = (if r.first then [r.label] else []) ++ firstLabels rs := by
  rw [firstLabels]
  by_cases hfirst : r.first = true
  · rw [List.filter_cons_of_pos hfirst, if_pos hfirst]
    rfl
  · rw [List.filter_cons_of_neg hfirst, if_neg hfirst]
    rfl

/-- A line that is in order adds its label if it has a `+`, and otherwise finds it. -/
theorem labels_follow (h : follow entries r = some next) :
    next.map Prod.fst = entries.map Prod.fst ++ (if r.first then [r.label] else []) ∧
      (r.first = false → r.label ∈ entries.map Prod.fst) := by
  unfold follow at h
  by_cases hmem : r.label ∈ entries.map Prod.fst
  · rw [if_pos hmem] at h
    by_cases hfirst : r.first = true
    · rw [if_pos hfirst] at h
      cases h
    · rw [if_neg hfirst] at h
      obtain rfl := Option.some.inj h
      refine ⟨?_, fun _ => hmem⟩
      rw [if_neg hfirst, List.append_nil, List.map_map]
      refine List.map_congr_left fun e _ => ?_
      by_cases he : e.1 = r.label <;> simp [he]
  · rw [if_neg hmem] at h
    by_cases hfirst : r.first = true
    · rw [if_pos hfirst] at h
      obtain rfl := Option.some.inj h
      rw [if_pos hfirst, List.map_append, hfirst]
      exact ⟨rfl, nofun⟩
    · rw [if_neg hfirst] at h
      cases h

theorem followAll_append (entries : List (String × Bool)) (front back : List Recording) :
    followAll entries (front ++ back) =
      (followAll entries front).bind fun next => followAll next back := by
  induction front generalizing entries with
  | nil => rfl
  | cons r front ih =>
    rw [List.cons_append, followAll, followAll, Option.bind_assoc]
    exact congrArg _ (funext ih)

/-- The `+` lines of a log that is in order list the labels that it adds. -/
theorem labels_followAll (h : followAll entries rs = some next) :
    next.map Prod.fst = entries.map Prod.fst ++ firstLabels rs := by
  induction rs generalizing entries with
  | nil =>
    obtain rfl := Option.some.inj h
    exact (List.append_nil _).symm
  | cons r rs ih =>
    obtain ⟨mid, hmid, hrest⟩ := Option.bind_eq_some_iff.1 h
    rw [ih hrest, (labels_follow hmid).1, firstLabels_cons, List.append_assoc]

-- What a line refreshes was there at the start, or was added by a line before.
theorem mem_of_refreshed (h : followAll entries (front ++ r :: back) = some next)
    (hr : r.first = false) : r.label ∈ entries.map Prod.fst ++ firstLabels front := by
  rw [followAll_append] at h
  obtain ⟨mid, hfront, hback⟩ := Option.bind_eq_some_iff.1 h
  obtain ⟨_, hmid, -⟩ := Option.bind_eq_some_iff.1 hback
  rw [← labels_followAll hfront]
  exact (labels_follow hmid).2 hr

end

/-! ## What is recorded -/

theorem follow_record (v : Valuation) (label : String) (value : Bool) :
    follow v.entries ⟨label, value, !v.contains label⟩ = some (v.record label value).entries := by
  rw [follow, Valuation.record]
  by_cases hmem : label ∈ v.entries.map Prod.fst
  · have hcontains : v.contains label = true := List.contains_iff_mem.2 hmem
    rw [if_pos hmem, if_pos hcontains, hcontains]
    rfl
  · have hcontains : ¬ v.contains label = true := fun h => hmem (List.contains_iff_mem.1 h)
    rw [if_neg hmem, if_neg hcontains, Bool.eq_false_iff.2 hcontains]
    rfl

/-- What happened while pairs were recorded, followed line by line, leads to the same entries. -/
theorem followAll_recordAll (v : Valuation) (pairs : List (String × Bool)) :
    followAll v.entries (v.recordAll pairs).1 = some (v.recordAll pairs).2.entries := by
  induction pairs generalizing v with
  | nil => rfl
  | cons p pairs ih =>
    show (follow v.entries ⟨p.1, p.2, !v.contains p.1⟩).bind _ = _
    rw [follow_record]
    exact ih (v.record p.1 p.2)

-- Which records are the first of their labels has nothing to do with the values.
theorem shape_recordAll {v w : Valuation} {ps qs : List (String × Bool)} (hv : v.labels = w.labels)
    (h : ps.map Prod.fst = qs.map Prod.fst) :
    shape (v.recordAll ps).1 = shape (w.recordAll qs).1 := by
  induction ps generalizing v w qs with
  | nil =>
    obtain rfl : qs = [] := List.map_eq_nil_iff.1 h.symm
    rfl
  | cons p ps ih =>
    cases qs with
    | nil => cases h
    | cons q qs =>
      obtain ⟨hlabel, hrest⟩ := List.cons.inj h
      have hcontains : v.contains p.1 = w.contains q.1 := by
        rw [Valuation.contains, Valuation.contains, hv, hlabel]
      have hnext : (v.record p.1 p.2).labels = (w.record q.1 q.2).labels := by
        rw [Valuation.labels_record, Valuation.labels_record, hcontains, hv, hlabel]
      show (p.1, !v.contains p.1) :: shape _ = (q.1, !w.contains q.1) :: shape _
      rw [ih hnext hrest, hcontains, hlabel]

/-! ## The log of an evaluation -/

/-- The log tells how a formula with this text came to the evaluation. First it has a line for each
record; followed line by line, these build up the trace, so the `+` lines list the labels in order
and once each, and a `~` line stands behind the `+` line of its label. The last line tells the
result and counts the `+` lines. -/
structure IsEvaluationLog (log : List Entry) (text : String) (e : Evaluation) : Prop where
  lines : log = (recordingsOf log).map (fun r => ⟨.debug, recordingText r⟩) ++
    [⟨.debug, resultText text e.result ((recordingsOf log).countP Recording.first)⟩]
  replay : replay (recordingsOf log) = some e.trace
  labels : firstLabels (recordingsOf log) = e.labels
  nodup : e.labels.Nodup
  refreshed : ∀ front r back, recordingsOf log = front ++ r :: back → r.first = false →
    ∃ q ∈ front, q.first = true ∧ q.label = r.label

theorem entriesAt_append (threshold : Severity) (front back : List Event) :
    entriesAt threshold (front ++ back) = entriesAt threshold front ++ entriesAt threshold back := by
  rw [entriesAt, passing, List.filter_append, List.map_append]
  rfl

-- At the level of debugging output everything is written.
theorem entriesAt_debug (events : List Event) :
    entriesAt .debug events = events.map Event.entry := by
  have hall : passing .debug events = events := by
    refine List.filter_eq_self.2 fun e _ => ?_
    cases e <;> rfl
  rw [entriesAt, hall]

-- The lines of recordings are read back, and the line of a result is none of them.
theorem recordingsOf_lines (rs : List Recording) (text : String) (result : Bool) (n : Nat) :
    recordingsOf (rs.map (fun r => ⟨.debug, recordingText r⟩) ++
      [⟨.debug, resultText text result n⟩]) = rs := by
  induction rs with
  | nil =>
    rw [List.map_nil, List.nil_append, recordingsOf, List.filterMap_cons,
      readRecording?_resultText]
    rfl
  | cons r rs ih =>
    rw [List.map_cons, List.cons_append, recordingsOf, List.filterMap_cons,
      readRecording?_recordingText]
    exact congrArg (r :: ·) ih

/-- What happened while pairs were recorded, with the result behind it, is a log of that result and
of the valuation that came of the pairs. -/
theorem isEvaluationLog_recordAll (text : String) (result : Bool) (pairs : List (String × Bool)) :
    IsEvaluationLog
      ((Valuation.empty.recordAll pairs).1.map (fun r => ⟨.debug, recordingText r⟩) ++
        [⟨.debug, resultText text result (Valuation.ofList pairs).labels.length⟩])
      text ⟨result, (Valuation.ofList pairs).entries⟩ := by
  have hreplay : replay (Valuation.empty.recordAll pairs).1 =
      some (Valuation.ofList pairs).entries := by
    rw [Valuation.ofList, ← Valuation.recordAll_snd]
    exact followAll_recordAll Valuation.empty pairs
  have hlabels : firstLabels (Valuation.empty.recordAll pairs).1 =
      (Valuation.ofList pairs).labels := (labels_followAll hreplay).symm
  have hcount : (Valuation.empty.recordAll pairs).1.countP Recording.first =
      (Valuation.ofList pairs).labels.length := by
    rw [← hlabels, firstLabels, List.length_map, List.countP_eq_length_filter]
  constructor
  case lines => rw [recordingsOf_lines, hcount]
  case replay =>
    rw [recordingsOf_lines]
    exact hreplay
  case labels =>
    rw [recordingsOf_lines]
    exact hlabels
  case nodup => exact Valuation.nodup_labels_ofList pairs
  case refreshed =>
    intro front r back hsplit hr
    rw [recordingsOf_lines] at hsplit
    rw [replay, hsplit] at hreplay
    obtain ⟨q, hq, hlabel⟩ := List.mem_map.1 (mem_of_refreshed hreplay hr)
    exact ⟨q, (List.mem_filter.1 hq).1, (List.mem_filter.1 hq).2, hlabel⟩

theorem events_of_evaluate {s : Solver} {a : Assignment} {e : Evaluation}
    (h : (s.evaluate a).result.1 = .ok e) :
    (s.evaluate a).events =
      (PropTable.evaluate s.tokens a s.names s.maxDepth).recordings.map .subformulaRecorded ++
        [.evaluated s.text e.result e.labels.length] := by
  rw [s.result_evaluate] at h
  unfold Solver.evaluate
  simp only [Journal.events_bind, Journal.events_tellAll, h, Journal.events_tell,
    Journal.events_pure, List.append_nil]

/-- The log of an evaluation that succeeds, by the tree of the formula. -/
theorem log_of_tree {s : Solver} {a : Assignment} {t : Tree}
    (ht : Tree.ofTokens a.known s.maxDepth.toNat s.tokens = .ok t) :
    IsEvaluationLog (entriesAt .debug (s.evaluate a).events) s.text
        (t.evaluation a.truth s.names) ∧
      recordingsOf (entriesAt .debug (s.evaluate a).events) =
        (Valuation.empty.recordAll (t.recorded a.truth s.names)).1 := by
  have hresult : (s.evaluate a).result.1 = .ok (t.evaluation a.truth s.names) := by
    rw [s.result_evaluate]
    exact outcome_of_tree ht
  have hlines : Event.entry ∘ .subformulaRecorded = fun r => ⟨.debug, recordingText r⟩ :=
    funext entry_recorded
  rw [entriesAt_debug, events_of_evaluate hresult, recordings_of_tree ht, List.map_append,
    List.map_map, hlines, List.map_singleton, entry_evaluated]
  exact ⟨isEvaluationLog_recordAll s.text (t.value a.truth) _, recordingsOf_lines _ _ _ _⟩

/-! ## The log of a truth table -/

section

variable {t : Tree} {limit : Int} {ts : List String} {T : Table}

/-- The log of one row of a truth table. -/
def rowLog (ts : List String) (limit : Int) (a : List (String × Bool)) : List Entry :=
  entriesAt .debug (Solver.evaluate ⟨ts, limit, none⟩ (.ofValues a)).events

-- The rows are worked out in turn, and none of them is given up.
theorem events_rowsOf
    (ht : Tree.ofTokens (variablesOf t.tokens).contains limit.toNat t.tokens = .ok t)
    {labels? : Option (List String)} (hlabels : labels?.getD t.table.labels = t.table.labels)
    {as : List (List (String × Bool))}
    (has : ∀ a ∈ as, a ∈ assignmentsOf (variablesOf t.tokens)) :
    entriesAt .debug (Table.rowsOf ⟨t.tokens, limit, none⟩ labels? as).events =
      (as.map (rowLog t.tokens limit)).flatten := by
  induction as generalizing labels? with
  | nil => rfl
  | cons a as ih =>
    obtain ⟨e, he, hfirst, hrow⟩ := Table.row_of_tree ht (has a List.mem_cons_self)
    have hsettled : labels?.getD e.labels = t.table.labels := by rw [hfirst, hlabels]
    have hrest : entriesAt .debug (Table.rowsOf ⟨t.tokens, limit, none⟩ (some t.table.labels)
        as).events = (as.map (rowLog t.tokens limit)).flatten :=
      ih Option.getD_some fun b hb => has b (List.mem_cons_of_mem a hb)
    rw [Table.rowsOf]
    simp only [Journal.events_bind, he, hsettled, hrow, Journal.events_map]
    rw [entriesAt_append, hrest]
    rfl

-- The rows stand between a line for the solver and one for the table.
theorem events_of_build (h : (Table.build ts limit).result = .ok T) :
    (Table.build ts limit).events =
      .solverCreated (displayTokens ts " ") T.names ::
        ((Table.rowsOf ⟨ts, limit, none⟩ none (assignmentsOf T.names)).events ++
          [.tabulated T.names.length T.labels.length T.rows.length]) := by
  have hne : ts ≠ [] := by
    rintro rfl
    cases h
  have hempty : ts.isEmpty = false := List.isEmpty_eq_false_iff.2 hne
  rw [Table.result_build hne] at h
  cases hrows : (Table.rowsOf ⟨ts, limit, none⟩ none (assignmentsOf (variablesOf ts))).result with
  | error err =>
    rw [hrows] at h
    cases h
  | ok columns =>
    rw [hrows] at h
    obtain rfl := Except.ok.inj h
    unfold Table.build
    simp only [Solver.create, Solver.assignments, Solver.names, Journal.events_bind,
      Journal.events_tell, Journal.events_pure, Journal.result_bind, Journal.result_pure, hempty,
      Bool.false_eq_true, if_false, hrows, List.append_nil]
    rfl

-- The values of the names decide neither what is recorded nor which records are the first.
theorem shape_of_tree (t : Tree) (ρ ρ' : String → Bool) (ex : List String) :
    shape (Valuation.empty.recordAll (t.recorded ρ ex)).1 =
      shape (Valuation.empty.recordAll (t.recorded ρ' ex)).1 := by
  refine shape_recordAll rfl ?_
  simp only [Tree.recorded, List.filter_map, List.map_map]
  rfl

/-- The labels with their marks, as the log of every row has them. -/
def rowShape (t : Tree) : List (String × Bool) :=
  shape (Valuation.empty.recordAll (t.recorded (fun _ => false) (variablesOf t.tokens))).1

/-- The log of a row tells of the evaluation behind it, with marks that are those of every row. -/
theorem rowLog_of_tree
    (ht : Tree.ofTokens (variablesOf t.tokens).contains limit.toNat t.tokens = .ok t)
    {a : List (String × Bool)} (ha : a ∈ assignmentsOf (variablesOf t.tokens)) :
    ∃ e, (evaluate t.tokens (.ofValues a) (variablesOf t.tokens) limit).outcome = .ok e ∧
      e.result = (t.row a).result ∧ e.labels = t.table.labels ∧
      IsEvaluationLog (rowLog t.tokens limit a) (displayTokens t.tokens " ") e ∧
      shape (recordingsOf (rowLog t.tokens limit a)) = rowShape t := by
  rw [← known_of_mem_assignmentsOf ha] at ht
  obtain ⟨hlog, hrecordings⟩ := log_of_tree (s := ⟨t.tokens, limit, none⟩) ht
  refine ⟨_, outcome_of_tree ht, rfl, t.labels_table _, hlog, ?_⟩
  rw [rowLog, hrecordings]
  exact shape_of_tree t _ _ _

end

/-- At the level of debugging output, the log of an evaluation that succeeds replays its trace. The
log of a truth table has a line for the solver, the log of one evaluation for each row, and a line
that counts the variables, the labels and the rows. The labels and the marks are the same in all
rows. -/
theorem replay_log :
    (∀ (s : Solver) (a : Assignment) (e : Evaluation), (s.evaluate a).result.1 = .ok e →
      IsEvaluationLog (entriesAt .debug (s.evaluate a).events) s.text e) ∧
    ∀ (ts : List String) (limit : Int) (T : Table), (Table.build ts limit).result = .ok T →
      ∃ (groups : List (List Entry)) (marks : List (String × Bool)),
        entriesAt .debug (Table.build ts limit).events =
          ⟨.debug, solverText (displayTokens ts " ") T.names⟩ :: (groups.flatten ++
            [⟨.info, tableText T.names.length T.labels.length (2 ^ T.names.length)⟩]) ∧
        groups.length = 2 ^ T.names.length ∧
        List.Forall₂ (fun row group => ∃ e,
          (evaluate ts (.ofValues row.assignment) T.names limit).outcome = .ok e ∧
          e.result = row.result ∧ e.labels = T.labels ∧
          IsEvaluationLog group (displayTokens ts " ") e ∧
          shape (recordingsOf group) = marks) T.rows groups := by
  constructor
  · intro s a e h
    have houtcome := s.result_evaluate a
    rw [h] at houtcome
    obtain ⟨t, ht⟩ := ofTokens_of_evaluate houtcome.symm
    rw [outcome_of_tree ht] at houtcome
    obtain rfl := Except.ok.inj houtcome
    exact (log_of_tree ht).1
  · intro ts limit T h
    obtain ⟨t, hd, hn, he, rfl⟩ := Table.build_eq_ok_iff.1 h
    have ht := ofTokens_eq_ok_iff.2 ⟨hd, hn, (covered_variables_iff ts).2 he⟩
    have hrows := (Table.isTruthTable_of_build h).length_rows
    have hevents := events_of_build h
    obtain rfl := (derives_iff.1 hd).1
    have hgroups : entriesAt .debug (Table.rowsOf ⟨t.tokens, limit, none⟩ none
        (assignmentsOf t.table.names)).events =
        ((assignmentsOf t.table.names).map (rowLog t.tokens limit)).flatten :=
      events_rowsOf ht rfl fun a ha => ha
    refine ⟨(assignmentsOf t.table.names).map (rowLog t.tokens limit), rowShape t, ?_, ?_, ?_⟩
    · rw [entriesAt_debug] at hgroups ⊢
      rw [hevents, hrows, List.map_cons, List.map_append, List.map_singleton, hgroups,
        entry_created, entry_tabulated]
    · rw [List.length_map]
      exact length_assignmentsOf _
    · refine List.forall₂_map_left_iff.2 (List.forall₂_map_right_iff.2 ?_)
      exact List.forall₂_same.2 fun a ha => rowLog_of_tree ht ha

-- The conjunction on the right has the label of the one on the left, and refreshes it.
theorem replay_log_of_repeated_label :
    let s : Solver := ⟨["A", "&&", "A", "xor", "A", "&&", "A"], 1, none⟩
    let a : Assignment := [("A", .flag true)]
    (∃ e, (s.evaluate a).result.1 = .ok e ∧
      IsEvaluationLog (entriesAt .debug (s.evaluate a).events) s.text e ∧
      recordingsOf (entriesAt .debug (s.evaluate a).events) =
        [⟨"(A∧A)", true, true⟩, ⟨"(A∧A)", true, false⟩, ⟨"((A∧A)⊕(A∧A))", false, true⟩] ∧
      entriesAt .debug (s.evaluate a).events =
        [⟨.debug, "    + (A∧A) = T"⟩,
          ⟨.debug, "    ~ (A∧A) = T"⟩,
          ⟨.debug, "    + ((A∧A)⊕(A∧A)) = F"⟩,
          ⟨.debug, "Evaluated A ∧ A ⊕ A ∧ A → F (2 sub-expressions)"⟩]) ∧
    ∃ (T : Table) (groups : List (List Entry)), (Table.build s.tokens 1).result = .ok T ∧
      entriesAt .debug (Table.build s.tokens 1).events =
        ⟨.debug, "Solver created for A ∧ A ⊕ A ∧ A with variables ['A']"⟩ :: (groups.flatten ++
          [⟨.info, "Truth table: 1 variables, 2 sub-expressions, 2 rows"⟩]) ∧
      groups.length = 2 := by
  intro s a
  let t : Tree := .binary .xor (.binary .and (.name "A") (.name "A"))
    (.binary .and (.name "A") (.name "A"))
  have hnames : variablesOf s.tokens = ["A"] := variablesOf_eq (by decide) (by decide) (by decide)
  have hread : Tree.ofTokens a.known s.maxDepth.toNat s.tokens = .ok t :=
    ofTokens_tokens (t := t) (by decide) (by decide) (by decide)
  have hevaluate : (s.evaluate a).result.1 = .ok (t.evaluation a.truth s.names) := by
    rw [s.result_evaluate]
    exact outcome_of_tree hread
  have hbuild : (Table.build s.tokens 1).result = .ok t.table :=
    Table.build_eq_ok_iff.2 ⟨t, derives_iff.2 ⟨rfl, by decide⟩, by decide, by decide, rfl⟩
  have htable : t.table.names = ["A"] := hnames
  have hlabels : t.table.labels.length = 2 := by
    show (((t.nodes.map Tree.label).filter fun l => l ∉ variablesOf s.tokens).eraseDups).length = 2
    rw [hnames]
    decide
  have hlog := replay_log.1 s a _ hevaluate
  have hrecordings : recordingsOf (entriesAt .debug (s.evaluate a).events) =
      [⟨"(A∧A)", true, true⟩, ⟨"(A∧A)", true, false⟩, ⟨"((A∧A)⊕(A∧A))", false, true⟩] := by
    rw [(log_of_tree hread).2, Solver.names, hnames]
    decide
  refine ⟨⟨_, hevaluate, hlog, hrecordings, ?_⟩, ?_⟩
  · rw [hlog.lines, hrecordings]
    decide
  · obtain ⟨groups, -, hlines, hlength, -⟩ := replay_log.2 s.tokens 1 t.table hbuild
    have hfirst : solverText (displayTokens s.tokens " ") ["A"] =
        "Solver created for A ∧ A ⊕ A ∧ A with variables ['A']" := by decide
    have hlast : tableText ["A"].length 2 (2 ^ ["A"].length) =
        "Truth table: 1 variables, 2 sub-expressions, 2 rows" := by decide
    rw [htable, hlabels, hfirst, hlast] at hlines
    rw [htable] at hlength
    exact ⟨t.table, groups, hbuild, hlines, hlength⟩

end Log

end PropTable
