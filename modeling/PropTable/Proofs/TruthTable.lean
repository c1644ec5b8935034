import PropTable.Proofs.Assignments
import PropTable.Proofs.Nodes
import PropTable.Table.Build

/-!
# The truth table of a formula

`Table.build` evaluates a formula once for each assignment of its variables. Neither the tree nor the
labels depend on the values, so all evaluations succeed or all fail alike, and each has a value for
every label of the first. `Tree.table` is the table that comes out (`Table.build_eq_ok_iff`), and
`Table.build_correct` says what it holds.
-/

namespace PropTable

/-! ## The rows -/

/-- The row of a formula under an assignment. -/
def Tree.row (t : Tree) (a : List (String × Bool)) : Row :=
  let e := t.evaluation (Assignment.ofValues a).truth (variablesOf t.tokens)
  ⟨a, e.result, a.map Prod.snd ++ e.trace.map Prod.snd⟩

/-- The truth table of a formula. -/
def Tree.table (t : Tree) : Table :=
  let names := variablesOf t.tokens
  ⟨t.tokens, names, ((t.nodes.map Tree.label).filter fun l => l ∉ names).eraseDups,
    (assignmentsOf names).map t.row⟩

theorem Tree.labels_table (t : Tree) (ρ : String → Bool) :
    (t.evaluation ρ (variablesOf t.tokens)).labels = t.table.labels :=
  labels_evaluation

namespace Table

theorem labelValues_of_value? {e : Evaluation} {entries : List (String × Bool)}
    (h : ∀ p ∈ entries, e.value? p.1 = some p.2) :
    labelValues e (entries.map Prod.fst) = .ok (entries.map Prod.snd) := by
  induction entries with
  | nil => rfl
  | cons p entries ih =>
    have hp := h p List.mem_cons_self
    have hrest := ih fun q hq => h q (List.mem_cons_of_mem p hq)
    simp only [List.map_cons, labelValues, hp, hrest, Except.map]

section

variable {s : Solver} {labels? : Option (List String)} {a : List (String × Bool)}
  {rest : List (List (String × Bool))}

theorem rowsOf_cons {e : Evaluation} {labels : List String} {row : Row}
    (he : (s.evaluate (.ofValues a)).result.1 = .ok e) (hlabels : labels?.getD e.labels = labels)
    (hrow : rowOf labels a e = .ok row) :
    (rowsOf s labels? (a :: rest)).result =
      (rowsOf s (some labels) rest).result.map fun (labels, rows) => (labels, row :: rows) := by
  rw [rowsOf]
  simp only [Log.Journal.result_bind, he, hlabels, hrow, Log.Journal.result_map]

theorem rowsOf_cons_error {err : FormulaError}
    (he : (s.evaluate (.ofValues a)).result.1 = .error err) :
    (rowsOf s labels? (a :: rest)).result = .error (.formula err) := by
  rw [rowsOf]
  simp only [Log.Journal.result_bind, he, Log.Journal.result_pure]

end

-- A formula that has tokens is refused for its rows or not at all.
theorem result_build {ts : List String} (hne : ts ≠ []) (limit : Int) :
    (build ts limit).result =
      (rowsOf ⟨ts, limit, none⟩ none (assignmentsOf (variablesOf ts))).result.map
        fun (labels, rows) => ⟨ts, variablesOf ts, labels, rows⟩ := by
  have hempty : ts.isEmpty = false := List.isEmpty_eq_false_iff.2 hne
  unfold build
  simp only [Solver.create, Log.Journal.result_bind, Log.Journal.result_pure, Solver.assignments,
    Solver.names, hempty, Bool.false_eq_true, if_false]
  cases (rowsOf ⟨ts, limit, none⟩ none (assignmentsOf (variablesOf ts))).result <;> rfl

section

variable {t : Tree} {limit : Int}

theorem row_of_tree {a : List (String × Bool)}
    (ht : Tree.ofTokens (variablesOf t.tokens).contains limit.toNat t.tokens = .ok t)
    (ha : a ∈ assignmentsOf (variablesOf t.tokens)) :
    ∃ e, (Solver.evaluate ⟨t.tokens, limit, none⟩ (.ofValues a)).result.1 = .ok e ∧
      e.labels = t.table.labels ∧ rowOf t.table.labels a e = .ok (t.row a) := by
  rw [← known_of_mem_assignmentsOf ha] at ht
  have hlabels := t.labels_table (Assignment.ofValues a).truth
  refine ⟨t.evaluation (Assignment.ofValues a).truth (variablesOf t.tokens), ?_, hlabels, ?_⟩
  · rw [Solver.result_evaluate]
    exact outcome_of_tree ht
  · rw [← hlabels, rowOf, Evaluation.labels,
      labelValues_of_value? fun p hp => value?_of_mem_trace hp]
    rfl

-- Behind the first row the labels are settled, and each evaluation has them.
theorem rowsOf_of_tree
    (ht : Tree.ofTokens (variablesOf t.tokens).contains limit.toNat t.tokens = .ok t)
    {as : List (List (String × Bool))}
    (has : ∀ a ∈ as, a ∈ assignmentsOf (variablesOf t.tokens)) :
    (rowsOf ⟨t.tokens, limit, none⟩ (some t.table.labels) as).result =
      .ok (t.table.labels, as.map t.row) := by
  induction as with
  | nil => rfl
  | cons a as ih =>
    obtain ⟨e, he, hlabels, hrow⟩ := row_of_tree ht (has a List.mem_cons_self)
    have hrest := ih fun b hb => has b (List.mem_cons_of_mem a hb)
    rw [rowsOf_cons he Option.getD_some hrow, hrest]
    rfl

theorem build_of_tree
    (ht : Tree.ofTokens (variablesOf t.tokens).contains limit.toNat t.tokens = .ok t) :
    (build t.tokens limit).result = .ok t.table := by
  obtain ⟨rest, has⟩ := assignmentsOf_eq_cons (variablesOf t.tokens)
  have hall : ∀ a ∈ (variablesOf t.tokens).map (fun x => (x, false)) :: rest,
      a ∈ assignmentsOf (variablesOf t.tokens) := fun a ha => has ▸ ha
  obtain ⟨e, he, hlabels, hrow⟩ := row_of_tree ht (hall _ List.mem_cons_self)
  have hrest := rowsOf_of_tree ht fun a ha => hall a (List.mem_cons_of_mem _ ha)
  rw [result_build t.tokens_ne_nil, has, rowsOf_cons he (Option.getD_none.trans hlabels) hrow,
    hrest, Tree.table, has]
  rfl

/-- The rows are worked out in turn, so an error is that of the first. -/
theorem build_of_stop {ts : List String} {stop : Stop} (hne : ts ≠ [])
    (ht : Tree.ofTokens (variablesOf ts).contains limit.toNat ts = .error stop) :
    (build ts limit).result = .error (.formula (stop.error ts.length limit)) ∧
      (evaluate ts (.ofValues ((variablesOf ts).map fun x => (x, false))) (variablesOf ts)
        limit).outcome = .error (stop.error ts.length limit) := by
  obtain ⟨rest, has⟩ := assignmentsOf_eq_cons (variablesOf ts)
  have hfirst : (variablesOf ts).map (fun x => (x, false)) ∈ assignmentsOf (variablesOf ts) :=
    has ▸ List.mem_cons_self
  rw [← known_of_mem_assignmentsOf hfirst] at ht
  have he : (evaluate ts (.ofValues ((variablesOf ts).map fun x => (x, false))) (variablesOf ts)
      limit).outcome = .error (stop.error ts.length limit) := evaluate_of_stop ht
  have hs : (Solver.evaluate ⟨ts, limit, none⟩
      (.ofValues ((variablesOf ts).map fun x => (x, false)))).result.1 =
      .error (stop.error ts.length limit) := by
    rw [Solver.result_evaluate]
    exact he
  refine ⟨?_, he⟩
  rw [result_build hne, has, rowsOf_cons_error hs]
  rfl

end

/-- A formula has a truth table exactly when it is one, nests within bounds, and has no empty
token; then the table is that of its tree. -/
theorem build_eq_ok_iff {ts : List String} {limit : Int} {T : Table} :
    (build ts limit).result = .ok T ↔
      ∃ t, Derives .equivalence ts t ∧ t.nesting ≤ limit.toNat ∧ "" ∉ ts ∧ t.table = T := by
  constructor
  · intro h
    have hne : ts ≠ [] := by
      rintro rfl
      cases h
    cases ht : Tree.ofTokens (variablesOf ts).contains limit.toNat ts with
    | ok t =>
      obtain ⟨hd, hn, hc⟩ := ofTokens_eq_ok_iff.1 ht
      obtain rfl := (derives_iff.1 hd).1
      rw [build_of_tree ht] at h
      exact ⟨t, hd, hn, (covered_variables_iff _).1 hc, Except.ok.inj h⟩
    | error stop =>
      rw [(build_of_stop hne ht).1] at h
      cases h
  · rintro ⟨t, hd, hn, he, rfl⟩
    have ht := ofTokens_eq_ok_iff.2 ⟨hd, hn, (covered_variables_iff ts).2 he⟩
    obtain rfl := (derives_iff.1 hd).1
    exact build_of_tree ht

/-! ## What the table holds -/

/-- The table belongs to the tokens: its columns are their variables in the order of their code
points and then the labels, and its rows are all assignments, each with the value of the formula and
with the values of the columns. The labels are those that the evaluation of each row has. -/
structure IsTruthTable (T : Table) (ts : List String) (limit : Int) : Prop where
  tokens : T.tokens = ts
  sorted : T.names.Pairwise (· < ·)
  mem_names : ∀ x, x ∈ T.names ↔ x ∈ ts ∧ x ≠ "" ∧ x ∉ reserved
  length_rows : T.rows.length = 2 ^ T.names.length
  assignment : ∀ (i : Nat) (row : Row), T.rows[i]? = some row →
    row.assignment = T.names.zipIdx.map fun (x, j) => (x, i.testBit j)
  result : ∃ t, Derives .equivalence ts t ∧
    ∀ row ∈ T.rows, row.result = t.value (Assignment.ofValues row.assignment).truth
  values : ∀ row ∈ T.rows, ∃ e,
    (evaluate ts (.ofValues row.assignment) T.names limit).outcome = .ok e ∧
      e.labels = T.labels ∧
      row.values.map some = (row.assignment.map fun p => some p.2) ++ T.labels.map e.value?
  length_values : ∀ row ∈ T.rows, row.values.length = T.headers.length

-- The values behind those of the variables are the recorded ones, label by label.
theorem values_row (t : Tree) (a : List (String × Bool)) :
    (t.row a).values.map some = (a.map fun p => some p.2) ++ t.table.labels.map
      (t.evaluation (Assignment.ofValues a).truth (variablesOf t.tokens)).value? := by
  let e := t.evaluation (Assignment.ofValues a).truth (variablesOf t.tokens)
  have hvalues : e.trace.map (some ∘ Prod.snd) = e.trace.map (e.value? ∘ Prod.fst) :=
    List.map_congr_left fun p hp => (value?_of_mem_trace hp).symm
  have hlabels : t.table.labels = e.trace.map Prod.fst := (t.labels_table _).symm
  rw [hlabels, List.map_map, ← hvalues]
  change (a.map Prod.snd ++ e.trace.map Prod.snd).map some = _
  rw [List.map_append, List.map_map, List.map_map]
  rfl

theorem isTruthTable_table {t : Tree} {limit : Int} (hf : t.Fits Connective.loosest)
    (hn : t.nesting ≤ limit.toNat) (he : "" ∉ t.tokens) :
    t.table.IsTruthTable t.tokens limit := by
  have hd : Derives .equivalence t.tokens t := derives_iff.2 ⟨rfl, hf⟩
  have hrow : ∀ row ∈ t.table.rows, ∃ a ∈ assignmentsOf (variablesOf t.tokens), t.row a = row :=
    fun row hrow => List.mem_map.1 hrow
  constructor
  case tokens => rfl
  case sorted => exact pairwise_variablesOf t.tokens
  case mem_names => exact fun x => mem_variablesOf
  case length_rows =>
    rw [Tree.table, List.length_map]
    exact length_assignmentsOf _
  case assignment =>
    intro i row hi
    rw [Tree.table, List.getElem?_map, Option.map_eq_some_iff] at hi
    obtain ⟨a, ha, rfl⟩ := hi
    have hlt : i < 2 ^ (variablesOf t.tokens).length := by
      rw [← length_assignmentsOf]
      exact (List.getElem?_eq_some_iff.1 ha).1
    rw [getElem?_assignmentsOf hlt] at ha
    exact (Option.some.inj ha).symm
  case result =>
    refine ⟨t, hd, fun row hmem => ?_⟩
    obtain ⟨a, -, rfl⟩ := hrow row hmem
    rfl
  case values =>
    intro row hmem
    obtain ⟨a, ha, rfl⟩ := hrow row hmem
    have ht := ofTokens_eq_ok_iff.2 ⟨hd, hn, (covered_variables_iff t.tokens).2 he⟩
    rw [← known_of_mem_assignmentsOf ha] at ht
    exact ⟨_, outcome_of_tree ht, t.labels_table _, values_row t a⟩
  case length_values =>
    intro row hmem
    obtain ⟨a, ha, rfl⟩ := hrow row hmem
    have hvalues := congrArg List.length (values_row t a)
    have hnames := congrArg List.length (names_of_mem_assignmentsOf ha)
    rw [List.length_map, List.length_append, List.length_map, List.length_map] at hvalues
    rw [List.length_map] at hnames
    rw [hvalues, hnames]
    exact List.length_append.symm

theorem isTruthTable_of_build {ts : List String} {limit : Int} {T : Table}
    (h : (build ts limit).result = .ok T) : T.IsTruthTable ts limit := by
  obtain ⟨t, hd, hn, he, rfl⟩ := build_eq_ok_iff.1 h
  obtain ⟨rfl, hf⟩ := derives_iff.1 hd
  exact isTruthTable_table hf hn he

theorem isComplete_of_build {ts : List String} {limit : Int} {T : Table}
    (h : (build ts limit).result = .ok T) : T.isComplete = true := by
  rw [isComplete, List.all_eq_true]
  intro row hrow
  exact decide_eq_true (Nat.le_of_eq ((isTruthTable_of_build h).length_values row hrow).symm)

theorem exists_build_iff {ts : List String} {limit : Int} :
    (∃ T, (build ts limit).result = .ok T) ↔ Sentence limit ts ∧ "" ∉ ts := by
  rw [sentence_iff]
  constructor
  · rintro ⟨T, h⟩
    obtain ⟨t, hd, hn, he, -⟩ := build_eq_ok_iff.1 h
    exact ⟨⟨t, hd, hn⟩, he⟩
  · rintro ⟨⟨t, hd, hn⟩, he⟩
    exact ⟨t.table, build_eq_ok_iff.2 ⟨t, hd, hn, he, rfl⟩⟩

theorem cause_of_build {ts : List String} {limit : Int} {err : BuildError} (hne : ts ≠ [])
    (h : (build ts limit).result = .error err) :
    ∃ cause, err = .formula cause ∧
      (evaluate ts (.ofValues ((variablesOf ts).map fun x => (x, false))) (variablesOf ts)
        limit).outcome = .error cause := by
  cases ht : Tree.ofTokens (variablesOf ts).contains limit.toNat ts with
  | ok t =>
    obtain ⟨hd, hn, hc⟩ := ofTokens_eq_ok_iff.1 ht
    have hok := build_eq_ok_iff.2 ⟨t, hd, hn, (covered_variables_iff ts).1 hc, rfl⟩
    rw [hok] at h
    cases h
  | error stop =>
    obtain ⟨hbuild, hfirst⟩ := build_of_stop hne ht
    rw [hbuild] at h
    exact ⟨_, (Except.error.inj h).symm, hfirst⟩

end Table

end PropTable
