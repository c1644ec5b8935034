import PropTable.Proofs.Columns

/-!
# The heads of the columns

A column is looked up by the text of its head, and the first head with this text is taken. In the
table of a formula no two heads are equal, whatever its variables are named (`Tree.nodup_headers`).
So the head at a place always stands for the column at this place: the values of a variable, or
those that the evaluations record under a label (`Table.column_header`).
-/

namespace PropTable

/-- No variable and no label heads two columns, and none of the labels is a variable. -/
theorem Tree.nodup_headers (t : Tree) : t.table.headers.Nodup := by
  refine List.nodup_append.2 ⟨nodup_variablesOf t.tokens, nodup_eraseDups _, ?_⟩
  rintro x hx l hl rfl
  exact Tree.not_mem_names_of_mem_labels hl hx

namespace Table

/-! ## Columns by place -/

/-- The column under `header` has a value for each row, and `P` holds of the index of the row, the
row, and the value. -/
def HasColumn (T : Table) (header : String) (P : Nat → Row → Bool → Prop) : Prop :=
  ∃ values, T.column header = .ok values ∧ values.length = T.rows.length ∧
    ∀ i row, T.rows[i]? = some row → ∃ value, values[i]? = some value ∧ P i row value

section

variable {T : Table} {ts : List String} {limit : Int} {header : String}

theorem HasColumn.imp {P Q : Nat → Row → Bool → Prop} (h : T.HasColumn header P)
    (hPQ : ∀ i row value, T.rows[i]? = some row → P i row value → Q i row value) :
    T.HasColumn header Q := by
  obtain ⟨values, hcolumn, hlen, hvalues⟩ := h
  refine ⟨values, hcolumn, hlen, fun i row hrow => ?_⟩
  obtain ⟨value, hvalue, hP⟩ := hvalues i row hrow
  exact ⟨value, hvalue, hPQ i row value hrow hP⟩

theorem column_of_not_mem (h : header ∉ T.headers) :
    T.column header = .error (.unknownHeader header) := by
  rw [column, List.idxOf?_eq_none_iff.2 h]

/-- Where no two heads are equal and the rows are as long as there are heads, the head at a place
stands for the values at this place. -/
theorem hasColumn_of_nodup (hnodup : T.headers.Nodup)
    (hlen : ∀ row ∈ T.rows, row.values.length = T.headers.length) {k : Nat}
    (hk : T.headers[k]? = some header) :
    T.HasColumn header fun _ row value => row.values[k]? = some value := by
  obtain ⟨hlt, rfl⟩ := List.getElem?_eq_some_iff.1 hk
  have hfirst : T.headers.idxOf? T.headers[k] = some k := by
    refine List.idxOf?_eq_some_iff.2 ⟨hlt, rfl, fun j hj heq => ?_⟩
    exact Nat.ne_of_lt hj ((List.getElem_inj hnodup).1 heq)
  have hvalue : ∀ row ∈ T.rows, row.values[k]? = some (row.values[k]?.getD false) := by
    intro row hrow
    have hk' : k < row.values.length := (hlen row hrow).symm ▸ hlt
    rw [List.getElem?_eq_getElem hk', Option.getD_some]
  refine ⟨T.rows.map fun row => row.values[k]?.getD false, ?_, List.length_map _, ?_⟩
  · unfold column
    rw [hfirst]
    simp only [mapM_eq_some_map hvalue]
  · intro i row hrow
    refine ⟨row.values[k]?.getD false, ?_, hvalue row (List.mem_of_getElem? hrow)⟩
    rw [List.getElem?_map, hrow, Option.map_some]

/-! ## The values in a row -/

-- The value of a variable is a bit of the index of the row.
theorem IsTruthTable.value_name (h : T.IsTruthTable ts limit) {i j : Nat} {row : Row}
    (hrow : T.rows[i]? = some row) (hj : T.names[j]? = some header) :
    row.values[j]? = some (i.testBit j) := by
  obtain ⟨e, -, -, hvalues⟩ := h.values row (List.mem_of_getElem? hrow)
  have hlt : j < (row.assignment.map fun p => some p.2).length := by
    rw [h.assignment i row hrow, List.length_map, List.length_map, List.length_zipIdx]
    exact (List.getElem?_eq_some_iff.1 hj).1
  have hat := congrArg (·[j]?) hvalues
  simp only [List.getElem?_append_left hlt] at hat
  rw [h.assignment i row hrow, List.getElem?_map, List.getElem?_map, List.getElem?_map,
    List.getElem?_zipIdx, hj, Nat.zero_add] at hat
  obtain ⟨value, hvalue, hbit⟩ := Option.map_eq_some_iff.1 hat
  rw [hvalue, hbit]

-- The value of a label is the one that the evaluation of the row records.
theorem IsTruthTable.value_label (h : T.IsTruthTable ts limit) {i k : Nat} {row : Row}
    (hrow : T.rows[i]? = some row) (hk : T.labels[k]? = some header) :
    ∃ e, (evaluate ts (.ofValues row.assignment) T.names limit).outcome = .ok e ∧
      row.values[T.names.length + k]? = e.value? header := by
  obtain ⟨e, he, -, hvalues⟩ := h.values row (List.mem_of_getElem? hrow)
  refine ⟨e, he, ?_⟩
  have hlen : (row.assignment.map fun p => some p.2).length = T.names.length := by
    rw [h.assignment i row hrow, List.length_map, List.length_map, List.length_zipIdx]
  have hat := congrArg (·[T.names.length + k]?) hvalues
  rw [← hlen] at hat ⊢
  simp only [List.getElem?_append_right (Nat.le_add_right _ k), Nat.add_sub_cancel_left] at hat
  rw [List.getElem?_map, List.getElem?_map, hk] at hat
  obtain ⟨value, hvalue, hrecorded⟩ := Option.map_eq_some_iff.1 hat
  rw [hvalue, hrecorded]

/-! ## All columns -/

/-- No two heads of a table are equal: the variables stand in the order of their code points, the
labels are distinct, and none of them is a variable. So the heads and nothing else have a column,
and the head at a place stands for the values at this place. In the column of a variable, the values
are bits of the indices of the rows; in the column of a label, they are those recorded under it when
the formula is evaluated with the assignment of the row. -/
theorem column_header (h : (build ts limit).result = .ok T) :
    (T.headers.Nodup ∧ T.names.Pairwise (· < ·) ∧ T.labels.Nodup ∧ ∀ l ∈ T.labels, l ∉ T.names) ∧
    (∀ x, (∃ values, T.column x = .ok values) ↔ x ∈ T.headers) ∧
    (∀ x, x ∉ T.headers → T.column x = .error (.unknownHeader x)) ∧
    (∀ (k : Nat) x, T.headers[k]? = some x →
      T.HasColumn x fun _ row value => row.values[k]? = some value) ∧
    (∀ (j : Nat) x, T.names[j]? = some x → T.HasColumn x fun i _ value => value = i.testBit j) ∧
    ∀ l ∈ T.labels, T.HasColumn l fun _ row value => ∃ e,
      (evaluate ts (.ofValues row.assignment) T.names limit).outcome = .ok e ∧
        e.value? l = some value := by
  obtain ⟨t, hd, hn, hempty, rfl⟩ := build_eq_ok_iff.1 h
  obtain ⟨rfl, hfits⟩ := derives_iff.1 hd
  have htable := isTruthTable_table hfits hn hempty
  have hplace : ∀ (k : Nat) x, t.table.headers[k]? = some x →
      t.table.HasColumn x fun _ row value => row.values[k]? = some value :=
    fun k x hk => hasColumn_of_nodup t.nodup_headers htable.length_values hk
  obtain ⟨-, hlabels, -⟩ := List.nodup_append.1 t.nodup_headers
  refine ⟨⟨t.nodup_headers, htable.sorted, hlabels, fun l => Tree.not_mem_names_of_mem_labels⟩,
    fun x => ⟨?_, fun hx => ?_⟩, fun x => column_of_not_mem, hplace, fun j x hj => ?_,
    fun l hl => ?_⟩
  · rintro ⟨values, hcolumn⟩
    by_contra hx
    rw [column_of_not_mem hx] at hcolumn
    cases hcolumn
  · obtain ⟨k, hk⟩ := List.mem_iff_getElem?.1 hx
    obtain ⟨values, hcolumn, -⟩ := hplace k x hk
    exact ⟨values, hcolumn⟩
  · have hhead : t.table.headers[j]? = some x := by
      rw [headers, List.getElem?_append_left (List.getElem?_eq_some_iff.1 hj).1, hj]
    refine (hplace j x hhead).imp fun i row value hrow hvalue => ?_
    rw [htable.value_name hrow hj] at hvalue
    exact (Option.some.inj hvalue).symm
  · obtain ⟨k, hk⟩ := List.mem_iff_getElem?.1 hl
    have hhead : t.table.headers[t.table.names.length + k]? = some l := by
      rw [headers, List.getElem?_append_right (Nat.le_add_right _ k), Nat.add_sub_cancel_left, hk]
    refine (hplace _ l hhead).imp fun i row value hrow hvalue => ?_
    obtain ⟨e, he, hrecorded⟩ := htable.value_label hrow hk
    exact ⟨e, he, hrecorded.symm.trans hvalue⟩

end

-- The label of the negation is the name of a variable, and this text heads the column of the
-- variable alone.
theorem column_header_of_shadowed_label :
    ∃ T, (build ["!", "A", "xor", "¬A"] 1).result = .ok T ∧
      T.headers = ["A", "¬A", "(¬A⊕¬A)"] ∧ T.headers.Nodup ∧
      T.column "¬A" = .ok [false, false, true, true] ∧
      (T.HasColumn "¬A" fun i _ value => value = i.testBit 1) ∧
      T.column "" = .error (.unknownHeader "") := by
  let tree : Tree := .binary .xor (.negation (.name "A")) (.name "¬A")
  have hnames : variablesOf ["!", "A", "xor", "¬A"] = ["A", "¬A"] :=
    variablesOf_eq (by decide) (by decide) (by decide)
  have htable : tree.table = ⟨["!", "A", "xor", "¬A"], ["A", "¬A"], ["(¬A⊕¬A)"],
      [⟨[("A", false), ("¬A", false)], true, [false, false, true]⟩,
        ⟨[("A", true), ("¬A", false)], false, [true, false, false]⟩,
        ⟨[("A", false), ("¬A", true)], false, [false, true, false]⟩,
        ⟨[("A", true), ("¬A", true)], true, [true, true, true]⟩]⟩ := by
    unfold Tree.table Tree.row
    rw [show tree.tokens = ["!", "A", "xor", "¬A"] from rfl, hnames]
    decide +kernel
  have h : (build ["!", "A", "xor", "¬A"] 1).result = .ok tree.table :=
    build_eq_ok_iff.2 ⟨tree, derives_iff.2 ⟨rfl, by decide⟩, by decide, by decide, rfl⟩
  obtain ⟨⟨hnodup, -⟩, -, herror, -, hnamed, -⟩ := column_header h
  refine ⟨tree.table, h, ?_, hnodup, ?_, hnamed 1 "¬A" ?_, herror "" ?_⟩
  · rw [htable]
    rfl
  · rw [htable]
    decide +kernel
  · rw [htable]
    rfl
  · rw [htable]
    decide

end Table

end PropTable
