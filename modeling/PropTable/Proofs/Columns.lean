import PropTable.Proofs.LabelReading
import PropTable.Proofs.TruthTable

/-!
# The columns of a truth table

A row gives each head of a column one value (`Tree.values_eq_cells`), so a column is read off by its
head alone. The last column holds the values of the formula whatever the names are
(`Table.column_last`). Where the names hold no marks, the column under a label holds the values of
every negation or connective with this label (`Table.column_node`).
-/

namespace PropTable

/-! ## Cells -/

/-- The value under a head in the row of an assignment: that of a variable, or else a recorded
one. -/
def Tree.cell (t : Tree) (a : List (String × Bool)) (header : String) : Option Bool :=
  (a.lookup header).or
    ((t.evaluation (Assignment.ofValues a).truth (variablesOf t.tokens)).value? header)

theorem Tree.not_mem_names_of_mem_labels {t : Tree} {l : String} (hl : l ∈ t.table.labels) :
    l ∉ variablesOf t.tokens := by
  have hmem := List.mem_filter.1 (List.mem_eraseDups.1 hl)
  exact of_decide_eq_true hmem.2

theorem Tree.cell_of_not_mem {t : Tree} {a : List (String × Bool)} {header : String}
    (ha : a ∈ assignmentsOf (variablesOf t.tokens)) (h : header ∉ variablesOf t.tokens) :
    t.cell a header =
      (t.evaluation (Assignment.ofValues a).truth (variablesOf t.tokens)).value? header := by
  have hnone : a.lookup header = none := by
    rw [List.lookup_eq_none_iff]
    intro p hp
    rw [bne_iff_ne]
    rintro rfl
    rw [← names_of_mem_assignmentsOf ha] at h
    exact h (List.mem_map_of_mem hp)
  rw [Tree.cell, hnone, Option.none_or]

theorem Tree.cell_of_mem {t : Tree} {a : List (String × Bool)} {p : String × Bool}
    (ha : a ∈ assignmentsOf (variablesOf t.tokens)) (hp : p ∈ a) : t.cell a p.1 = some p.2 := by
  rw [Tree.cell, lookup_of_mem_assignmentsOf (nodup_variablesOf t.tokens) ha hp, Option.some_or]

/-- The values of a row are those under the heads of the columns, in their order. -/
theorem Tree.values_eq_cells {t : Tree} {a : List (String × Bool)}
    (ha : a ∈ assignmentsOf (variablesOf t.tokens)) :
    (t.row a).values.map some = t.table.headers.map (t.cell a) := by
  have hnames : (a.map fun p => some p.2) = (variablesOf t.tokens).map (t.cell a) := by
    conv_rhs => rw [← names_of_mem_assignmentsOf ha, List.map_map]
    exact List.map_congr_left fun p hp => (Tree.cell_of_mem ha hp).symm
  have hlabels : t.table.labels.map (t.evaluation (Assignment.ofValues a).truth
      (variablesOf t.tokens)).value? = t.table.labels.map (t.cell a) :=
    List.map_congr_left fun l hl =>
      (Tree.cell_of_not_mem ha (Tree.not_mem_names_of_mem_labels hl)).symm
  rw [Table.values_row, hnames, hlabels, ← List.map_append]
  rfl

/-! ## Columns -/

theorem mapM_eq_some_map {α β : Type} {f : α → Option β} {g : α → β} {xs : List α}
    (h : ∀ x ∈ xs, f x = some (g x)) : xs.mapM f = some (xs.map g) := by
  induction xs with
  | nil => rfl
  | cons x xs ih =>
    have hx := h x List.mem_cons_self
    have hxs := ih fun y hy => h y (List.mem_cons_of_mem x hy)
    rw [List.mapM_cons, hx, hxs]
    rfl

/-- A column holds the cells under its head. -/
theorem Tree.column_table {t : Tree} {header : String} (h : header ∈ t.table.headers)
    {g : Row → Bool}
    (hg : ∀ a ∈ assignmentsOf (variablesOf t.tokens), t.cell a header = some (g (t.row a))) :
    t.table.column header = .ok (t.table.rows.map g) := by
  obtain ⟨i, hi⟩ := Option.isSome_iff_exists.1 (List.isSome_idxOf?.2 h)
  obtain ⟨hlt, hhead, -⟩ := List.idxOf?_eq_some_iff.1 hi
  have hcell : ∀ row ∈ t.table.rows, row.values[i]? = some (g row) := by
    intro row hrow
    obtain ⟨a, ha, rfl⟩ := List.mem_map.1 hrow
    have hat := congrArg (·[i]?) (Tree.values_eq_cells ha)
    simp only [List.getElem?_map, List.getElem?_eq_getElem hlt, Option.map_some, hhead,
      hg a ha] at hat
    obtain ⟨value, hvalue, hsome⟩ := Option.map_eq_some_iff.1 hat
    rw [hvalue, hsome]
  unfold Table.column
  rw [hi]
  simp only [mapM_eq_some_map hcell]

-- The column of a variable holds its values.
theorem Tree.column_name {t : Tree} {x : String} (hx : x ∈ variablesOf t.tokens) :
    t.table.column x =
      .ok (t.table.rows.map fun row => (Assignment.ofValues row.assignment).truth x) := by
  refine Tree.column_table (List.mem_append_left _ hx) fun a ha => ?_
  rw [← names_of_mem_assignmentsOf ha] at hx
  obtain ⟨p, hp, rfl⟩ := List.mem_map.1 hx
  have htruth : (Assignment.ofValues a).truth p.1 = p.2 := by
    rw [Assignment.truth, Assignment.value?_ofValues,
      lookup_of_mem_assignmentsOf (nodup_variablesOf t.tokens) ha hp, Option.getD_some]
  rw [Tree.cell_of_mem ha hp]
  exact congrArg some htruth.symm

-- The column of a label holds what is recorded under it.
theorem Tree.column_label {t : Tree} {l : String} (hl : l ∈ t.table.labels) {g : Row → Bool}
    (hg : ∀ a ∈ assignmentsOf (variablesOf t.tokens),
      (t.evaluation (Assignment.ofValues a).truth (variablesOf t.tokens)).value? l =
        some (g (t.row a))) : t.table.column l = .ok (t.table.rows.map g) := by
  refine Tree.column_table (List.mem_append_right _ hl) fun a ha => ?_
  rw [Tree.cell_of_not_mem ha (Tree.not_mem_names_of_mem_labels hl)]
  exact hg a ha

/-! ## The columns of nodes -/

/-- Where the names hold no marks, each negation and connective of the formula has a column, and the
column holds its values. Every label is that of a negation or connective. -/
theorem Table.column_node {ts : List String} {limit : Int} {T : Table}
    (h : (Table.build ts limit).result = .ok T)
    (hts : ∀ x ∈ ts, x ∉ reserved → Label.Plain x) :
    ∃ t, Derives .equivalence ts t ∧ (∀ u, Derives .equivalence ts u → u = t) ∧
      (∀ u ∈ t.nodes, u.label ∈ T.headers ∧
        T.column u.label =
          .ok (T.rows.map fun row => u.value (Assignment.ofValues row.assignment).truth)) ∧
      ∀ l ∈ T.labels, ∃ u ∈ t.nodes, u.label = l := by
  obtain ⟨t, hd, -, hempty, rfl⟩ := Table.build_eq_ok_iff.1 h
  obtain rfl := (derives_iff.1 hd).1
  have hlegible : t.Legible :=
    Tree.legible_of_derives hd fun x hx hr => ⟨fun he => hempty (he ▸ hx), hts x hx hr⟩
  have hplain : ∀ x ∈ variablesOf t.tokens, Label.Plain x := Tree.plain_of_mem_variablesOf hts
  refine ⟨t, hd, fun u hu => hu.unique hd, fun u hu => ?_, fun l hl => ?_⟩
  · have hlabel : u.label ∈ t.table.labels := by
      have hname : u.label ∉ variablesOf t.tokens :=
        fun hx => Tree.not_plain_label hu (hplain _ hx)
      exact List.mem_eraseDups.2
        (List.mem_filter.2 ⟨List.mem_map_of_mem hu, decide_eq_true hname⟩)
    exact ⟨List.mem_append_right _ hlabel,
      Tree.column_label hlabel fun a _ => hlegible.value?_node hplain hu _⟩
  · exact List.mem_map.1 (List.mem_filter.1 (List.mem_eraseDups.1 hl)).1

-- The conjunction stands in the formula twice, once in brackets, and has one column.
theorem Table.column_node_of_repeated_label :
    ∃ T t, (Table.build ["(", "A", "&&", "B", ")", "->", "A", "&&", "B"] 1).result = .ok T ∧
      T.headers = ["A", "B", "(A∧B)", "((A∧B)→(A∧B))"] ∧
      T.column "(A∧B)" = .ok [false, false, false, true] ∧
      Derives .equivalence ["(", "A", "&&", "B", ")", "->", "A", "&&", "B"] t ∧
      (∀ u, Derives .equivalence ["(", "A", "&&", "B", ")", "->", "A", "&&", "B"] u → u = t) ∧
      (∀ u ∈ t.nodes, u.label ∈ T.headers ∧
        T.column u.label =
          .ok (T.rows.map fun row => u.value (Assignment.ofValues row.assignment).truth)) ∧
      ∀ l ∈ T.labels, ∃ u ∈ t.nodes, u.label = l := by
  let tree : Tree := .binary .implies (.group (.binary .and (.name "A") (.name "B")))
    (.binary .and (.name "A") (.name "B"))
  have hnames : variablesOf ["(", "A", "&&", "B", ")", "->", "A", "&&", "B"] = ["A", "B"] :=
    variablesOf_eq (by decide) (by decide) (by decide)
  have htable : tree.table = ⟨["(", "A", "&&", "B", ")", "->", "A", "&&", "B"], ["A", "B"],
      ["(A∧B)", "((A∧B)→(A∧B))"],
      [⟨[("A", false), ("B", false)], true, [false, false, false, true]⟩,
        ⟨[("A", true), ("B", false)], true, [true, false, false, true]⟩,
        ⟨[("A", false), ("B", true)], true, [false, true, false, true]⟩,
        ⟨[("A", true), ("B", true)], true, [true, true, true, true]⟩]⟩ := by
    unfold Tree.table Tree.row
    rw [show tree.tokens = ["(", "A", "&&", "B", ")", "->", "A", "&&", "B"] from rfl, hnames]
    decide +kernel
  have h : (Table.build ["(", "A", "&&", "B", ")", "->", "A", "&&", "B"] 1).result =
      .ok tree.table :=
    Table.build_eq_ok_iff.2
      ⟨tree, derives_iff.2 ⟨rfl, by decide⟩, by decide, by decide, rfl⟩
  obtain ⟨t, hd, hunique, hcolumns, hlabels⟩ := Table.column_node h (by decide)
  refine ⟨tree.table, t, h, ?_, ?_, hd, hunique, hcolumns, hlabels⟩
  · rw [htable]
    rfl
  · rw [htable]
    decide +kernel

/-! ## The last column -/

-- The root of a formula is recorded last, so its label heads the last column.
theorem Tree.column_root {t : Tree} (hn : t.core.IsNode) :
    t.table.labels.getLast? = some t.core.label ∧
      t.table.column t.core.label = .ok t.table.results := by
  have hnames : ∀ x ∈ variablesOf t.tokens, x ∈ t.names :=
    fun x hx => t.mem_names_of_mem_variablesOf hx
  have hlast : t.table.labels.getLast? = some t.core.label := by
    obtain ⟨before, htrace⟩ := trace_evaluation_concat hn hnames fun _ => false
    rw [← t.labels_table fun _ => false, Evaluation.labels, htrace, List.map_append,
      List.map_singleton, List.getLast?_concat]
  refine ⟨hlast, Tree.column_label (List.mem_of_getLast? hlast) fun a _ => ?_⟩
  obtain ⟨before, htrace⟩ :=
    trace_evaluation_concat hn hnames (Assignment.ofValues a).truth
  have hmem : (t.core.label, t.value (Assignment.ofValues a).truth) ∈
      (t.evaluation (Assignment.ofValues a).truth (variablesOf t.tokens)).trace := by
    rw [htrace]
    exact List.mem_append_right before List.mem_cons_self
  exact value?_of_mem_trace hmem

-- A formula without negations and connectives is a name in brackets.
theorem Tree.column_only {t : Tree} {x : String} (hd : Derives .equivalence t.tokens t)
    (hempty : "" ∉ t.tokens) (hcore : t.core = .name x) :
    t.table.labels = [] ∧ t.table.names = [x] ∧ t.table.column x = .ok t.table.results := by
  have hnodes : t.nodes = [] := by
    rw [← nodes_core, hcore, nodes]
  have hnames : t.names = [x] := by
    rw [← names_core, hcore, names]
  have hvariables : variablesOf t.tokens = [x] := by
    apply variablesOf_eq (List.pairwise_singleton _ x)
    · intro y hy
      rw [← hnames, hd.mem_names_iff] at hy
      exact ⟨hy.1, fun he => hempty (he ▸ hy.1), hy.2⟩
    · intro y hy _ hr
      rw [← hnames, hd.mem_names_iff]
      exact ⟨hy, hr⟩
  refine ⟨?_, hvariables, ?_⟩
  · rw [table, hnodes]
    rfl
  · have hvalue : ∀ row ∈ t.table.rows,
        (Assignment.ofValues row.assignment).truth x = row.result := by
      intro row hrow
      obtain ⟨a, -, rfl⟩ := List.mem_map.1 hrow
      change _ = t.value (Assignment.ofValues a).truth
      rw [← value_core, hcore]
      rfl
    rw [column_name (hvariables ▸ List.mem_singleton_self x), List.map_congr_left hvalue]
    rfl

/-- Whatever the names are, a formula with a negation or connective has its own values in its last
column. A formula with neither has one variable, and the values of this one. -/
theorem Table.column_last {ts : List String} {limit : Int} {T : Table}
    (h : (Table.build ts limit).result = .ok T) :
    ((∃ x ∈ ts, x ∈ operators) →
      ∃ l, T.labels.getLast? = some l ∧ T.column l = .ok T.results) ∧
    ((¬ ∃ x ∈ ts, x ∈ operators) →
      T.labels = [] ∧ ∃ x, T.names = [x] ∧ T.column x = .ok T.results) := by
  obtain ⟨t, hd, -, hempty, rfl⟩ := Table.build_eq_ok_iff.1 h
  obtain ⟨rfl, hfits⟩ := derives_iff.1 hd
  have hroot := hfits.isNode_core_iff
  constructor
  · intro hop
    exact ⟨_, Tree.column_root (hroot.2 hop)⟩
  · intro hop
    obtain ⟨x, hcore⟩ | hnode := t.core_cases
    · obtain ⟨hlabels, hnames, hcolumn⟩ := Tree.column_only hd hempty hcore
      exact ⟨hlabels, x, hnames, hcolumn⟩
    · exact absurd (hroot.1 hnode) hop

-- The label of the conjunction is the name of a variable, and so has no column of its own.
theorem Table.column_last_of_shadowed_label :
    ∃ T, (Table.build ["A", "&&", "A", "->", "(A∧A)"] 0).result = .ok T ∧
      T.headers = ["(A∧A)", "A", "((A∧A)→(A∧A))"] ∧ T.results = [true, true, false, true] ∧
      ∃ l, T.labels.getLast? = some l ∧ T.column l = .ok T.results := by
  let tree : Tree :=
    .binary .implies (.binary .and (.name "A") (.name "A")) (.name "(A∧A)")
  have hnames : variablesOf ["A", "&&", "A", "->", "(A∧A)"] = ["(A∧A)", "A"] :=
    variablesOf_eq (by decide +kernel) (by decide) (by decide)
  have htable : tree.table = ⟨["A", "&&", "A", "->", "(A∧A)"], ["(A∧A)", "A"],
      ["((A∧A)→(A∧A))"],
      [⟨[("(A∧A)", false), ("A", false)], true, [false, false, true]⟩,
        ⟨[("(A∧A)", true), ("A", false)], true, [true, false, true]⟩,
        ⟨[("(A∧A)", false), ("A", true)], false, [false, true, false]⟩,
        ⟨[("(A∧A)", true), ("A", true)], true, [true, true, true]⟩]⟩ := by
    unfold Tree.table Tree.row
    rw [show tree.tokens = ["A", "&&", "A", "->", "(A∧A)"] from rfl, hnames]
    decide +kernel
  have h : (Table.build ["A", "&&", "A", "->", "(A∧A)"] 0).result = .ok tree.table :=
    Table.build_eq_ok_iff.2
      ⟨tree, derives_iff.2 ⟨rfl, by decide⟩, by decide, by decide, rfl⟩
  obtain ⟨hlast, -⟩ := Table.column_last h
  refine ⟨tree.table, h, ?_, ?_, hlast ⟨"&&", by decide, by decide⟩⟩
  · rw [htable]
    rfl
  · rw [htable]
    rfl

end PropTable
