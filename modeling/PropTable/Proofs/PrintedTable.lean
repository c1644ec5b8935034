import Mathlib.Algebra.Ring.Nat
import Mathlib.Data.List.TakeWhile
import PropTable.Proofs.TruthTable
import PropTable.Table.Layout

/-!
# The printed table

Every column of a truth table is as wide as its head (`Table.columnWidths_of_heads`), and what is
cut from the end of a line is blank. So each value stands as a letter where its column begins, and
the table can be read back from the text whatever the names and the separator are
(`Table.format_printed`).
-/

namespace PropTable

/-! ## Lines, blanks and columns of a text -/

namespace Text

/-- What stands between the line feeds of a text. -/
def lines (text : String) : List String :=
  (text.toList.splitOn '\n').map String.ofList

theorem lines_intercalate {ls : List String} (hne : ls ≠ []) (h : ∀ l ∈ ls, '\n' ∉ l.toList) :
    lines ("\n".intercalate ls) = ls := by
  have hlines : ∀ cs ∈ ls.map String.toList, '\n' ∉ cs := by
    intro cs hcs
    obtain ⟨l, hl, rfl⟩ := List.mem_map.1 hcs
    exact h l hl
  have hsplit := List.splitOn_intercalate '\n' hlines fun hnil => hne (List.map_eq_nil_iff.1 hnil)
  rw [lines, String.toList_intercalate]
  change (List.splitOn '\n' (['\n'].intercalate (ls.map String.toList))).map String.ofList = ls
  rw [hsplit, List.map_map]
  simp only [Function.comp_def, String.ofList_toList, List.map_id']

-- What is cut from the end is blank.
theorem exists_blanks (text : String) :
    ∃ blanks, text.toList = (trimRight text).toList ++ blanks ∧ ∀ c ∈ blanks, isBlank c = true := by
  refine ⟨(text.toList.reverse.takeWhile isBlank).reverse, ?_, fun c hc => ?_⟩
  · rw [trimRight, String.toList_ofList, ← List.reverse_append, List.takeWhile_append_dropWhile,
      List.reverse_reverse]
  · exact List.mem_takeWhile_imp (List.mem_reverse.1 hc)

theorem length_trimRight_le (text : String) : (trimRight text).length ≤ text.length := by
  obtain ⟨blanks, htext, -⟩ := exists_blanks text
  have hlen := congrArg List.length htext
  rw [List.length_append, String.length_toList, String.length_toList] at hlen
  omega

theorem not_mem_trimRight {text : String} {c : Char} (h : c ∉ text.toList) :
    c ∉ (trimRight text).toList := by
  obtain ⟨blanks, htext, -⟩ := exists_blanks text
  rw [htext] at h
  exact fun hc => h (List.mem_append_left blanks hc)

theorem getElem?_trimRight {text : String} {k : Nat} {c : Char} (h : text.toList[k]? = some c)
    (hc : isBlank c = false) : (trimRight text).toList[k]? = some c := by
  obtain ⟨blanks, htext, hblanks⟩ := exists_blanks text
  rw [htext] at h
  by_cases hk : k < (trimRight text).toList.length
  · rw [← h, List.getElem?_append_left hk]
  · rw [List.getElem?_append_right (Nat.le_of_not_lt hk)] at h
    have hblank := hblanks c (List.mem_of_getElem? h)
    rw [hc] at hblank
    cases hblank

theorem toList_trimRight_of_blanks {text : String} {cs blanks : List Char} {c : Char}
    (htext : text.toList = cs ++ c :: blanks) (hc : isBlank c = false)
    (hblanks : ∀ b ∈ blanks, isBlank b = true) : (trimRight text).toList = cs ++ [c] := by
  have hreverse : text.toList.reverse = blanks.reverse ++ c :: cs.reverse := by
    simp only [htext, List.reverse_append, List.reverse_cons, List.append_assoc,
      List.singleton_append]
  have hc' : ¬ isBlank c = true := Bool.eq_false_iff.1 hc
  rw [trimRight, String.toList_ofList, hreverse,
    List.dropWhile_append_of_pos fun b hb => hblanks b (List.mem_reverse.1 hb),
    List.dropWhile_cons_of_neg hc', List.reverse_cons, List.reverse_reverse]

theorem length_padRight {width : Nat} {text : String} (h : text.length ≤ width) :
    (padRight width text).length = width := by
  rw [padRight, String.length_append, String.length_ofList, List.length_replicate]
  omega

theorem not_mem_padRight {width : Nat} {text : String} {c : Char} (hc : c ≠ ' ')
    (h : c ∉ text.toList) : c ∉ (padRight width text).toList := by
  rw [padRight, String.toList_append, String.toList_ofList, List.mem_append, List.mem_replicate]
  rintro (hmem | ⟨-, hspace⟩)
  · exact h hmem
  · exact hc hspace

/-- Where the text at position `i` begins when the texts are joined. -/
def startOf (separator : String) (texts : List String) (i : Nat) : Nat :=
  ((texts.take i).map fun t => t.length + separator.length).sum

theorem startOf_congr {separator : String} {ss ts : List String}
    (h : ss.map String.length = ts.map String.length) (i : Nat) :
    startOf separator ss i = startOf separator ts i := by
  have hsum : ∀ us : List String, startOf separator us i =
      (((us.map String.length).take i).map (· + separator.length)).sum := by
    intro us
    rw [startOf, ← List.map_take, List.map_map]
    rfl
  rw [hsum, hsum, h]

-- The texts before the one at a position, each with a separator behind it, lead up to its start.
theorem intercalate_split {separator t : String} {texts : List String} {i : Nat}
    (hi : texts[i]? = some t) :
    ∃ before after, (separator.intercalate texts).toList = before ++ (t.toList ++ after) ∧
      before.length = startOf separator texts i ∧
      (i + 1 = texts.length → after = []) := by
  induction texts generalizing i with
  | nil => cases hi
  | cons u texts ih =>
    cases i with
    | zero =>
      obtain rfl := Option.some.inj hi
      cases texts with
      | nil =>
        refine ⟨[], [], ?_, rfl, fun _ => rfl⟩
        rw [String.intercalate_singleton, List.nil_append, List.append_nil]
      | cons v texts =>
        refine ⟨[], separator.toList ++ (separator.intercalate (v :: texts)).toList, ?_, rfl, ?_⟩
        · rw [String.intercalate_cons_cons, String.toList_append, String.toList_append,
            List.nil_append, List.append_assoc]
        · intro h
          rw [List.length_cons, List.length_cons] at h
          omega
    | succ i =>
      rw [List.getElem?_cons_succ] at hi
      obtain ⟨before, after, htexts, hlen, hlast⟩ := ih hi
      have hne : texts ≠ [] := by
        rintro rfl
        cases hi
      refine ⟨u.toList ++ separator.toList ++ before, after, ?_, ?_, fun h => ?_⟩
      · rw [String.intercalate_cons_of_ne_nil hne, String.toList_append, String.toList_append,
          htexts]
        simp only [List.append_assoc]
      · rw [List.length_append, List.length_append, hlen, String.length_toList,
          String.length_toList]
        rfl
      · exact hlast (Nat.add_right_cancel h)

theorem not_mem_intercalate {separator : String} {texts : List String} {c : Char}
    (hseparator : c ∉ separator.toList) (h : ∀ t ∈ texts, c ∉ t.toList) :
    c ∉ (separator.intercalate texts).toList := by
  induction texts with
  | nil => exact List.not_mem_nil
  | cons t texts ih =>
    have ht := h t List.mem_cons_self
    have hrest := ih fun u hu => h u (List.mem_cons_of_mem t hu)
    cases texts with
    | nil =>
      rw [String.intercalate_singleton]
      exact ht
    | cons u texts =>
      rw [String.intercalate_cons_cons]
      simp only [String.toList_append, List.mem_append, not_or]
      exact ⟨⟨ht, hseparator⟩, hrest⟩

theorem length_intercalate_congr {separator : String} {ss ts : List String}
    (h : ss.map String.length = ts.map String.length) :
    (separator.intercalate ss).length = (separator.intercalate ts).length := by
  induction ss generalizing ts with
  | nil =>
    obtain rfl := List.map_eq_nil_iff.1 h.symm
    rfl
  | cons s ss ih =>
    cases ts with
    | nil => cases h
    | cons t ts =>
      obtain ⟨hst, hrest⟩ := List.cons.inj h
      cases ss with
      | nil =>
        obtain rfl := List.map_eq_nil_iff.1 hrest.symm
        rw [String.intercalate_singleton, String.intercalate_singleton, hst]
      | cons s' ss =>
        have hne : ts ≠ [] := by
          rintro rfl
          cases hrest
        rw [String.intercalate_cons_cons, String.intercalate_cons_of_ne_nil hne]
        simp only [String.length_append, ih hrest, hst]

end Text

/-! ## Widths -/

theorem length_truthLetter (value : Bool) : (Log.truthLetter value).length = 1 := by
  cases value <;> rfl

theorem foldl_max_eq_of_le {a : Nat} {xs : List Nat} (h : ∀ x ∈ xs, x ≤ a) :
    xs.foldl max a = a := by
  induction xs with
  | nil => rfl
  | cons x xs ih =>
    rw [List.foldl_cons, Nat.max_eq_left (h x List.mem_cons_self)]
    exact ih fun y hy => h y (List.mem_cons_of_mem x hy)

namespace Table

theorem columnWidth_cons {heads : List String} {grid : List (List String)} {i : Nat}
    (hi : i < heads.length)
    (hle : ∀ texts ∈ grid, ∀ t, texts[i]? = some t → t.length ≤ heads[i].length) :
    columnWidth (heads :: grid) i = heads[i].length := by
  have hrest : ∀ n ∈ grid.filterMap fun texts => texts[i]?.map String.length,
      n ≤ heads[i].length := by
    intro n hn
    obtain ⟨texts, htexts, hn⟩ := List.mem_filterMap.1 hn
    obtain ⟨t, ht, rfl⟩ := Option.map_eq_some_iff.1 hn
    exact hle texts htexts t ht
  rw [columnWidth]
  simp only [List.filterMap_cons, List.getElem?_eq_getElem hi, Option.map_some, List.foldl_cons,
    Nat.zero_max]
  exact foldl_max_eq_of_le hrest

/-- A head that is not empty is as wide as its column, since a value takes one letter. -/
theorem columnWidths_of_heads {T : Table} (h : ∀ x ∈ T.headers, x ≠ "") :
    T.columnWidths = T.headers.map String.length := by
  apply List.ext_getElem
  · rw [columnWidths, List.length_map, List.length_map, List.length_range]
  · intro i hi hi'
    rw [List.length_map] at hi'
    have hpos : 0 < T.headers[i].length := by
      rw [Nat.pos_iff_ne_zero, Ne, ← String.length_toList, List.length_eq_zero_iff,
        String.toList_eq_nil_iff]
      exact h _ (List.getElem_mem hi')
    simp only [columnWidths, List.getElem_map, List.getElem_range]
    refine columnWidth_cons hi' fun texts htexts t ht => ?_
    obtain ⟨row, -, rfl⟩ := List.mem_map.1 htexts
    obtain ⟨value, -, rfl⟩ := List.mem_map.1 (List.mem_of_getElem? ht)
    rw [length_truthLetter]
    exact hpos

end Table

theorem Tree.IsNode.label_ne_empty {t : Tree} (ht : t.IsNode) : t.label ≠ "" := by
  have hpos : 0 < t.label.length := by
    cases t with
    | name x => exact ht.elim
    | negation t =>
      have hlen := length_negation t
      omega
    | binary c l r =>
      have hlen := length_binary c l r
      omega
    | group t => exact ht.elim
  intro hempty
  rw [hempty] at hpos
  exact Nat.lt_irrefl 0 hpos

namespace Table

theorem headers_ne_empty_of_build {ts : List String} {limit : Int} {T : Table}
    (h : (build ts limit).result = .ok T) : ∀ x ∈ T.headers, x ≠ "" := by
  obtain ⟨t, -, -, -, rfl⟩ := build_eq_ok_iff.1 h
  intro x hx
  obtain hname | hlabel := List.mem_append.1 hx
  · exact (mem_variablesOf.1 hname).2.1
  · obtain ⟨u, hu, rfl⟩ := List.mem_map.1 (List.mem_filter.1 (List.mem_eraseDups.1 hlabel)).1
    exact (Tree.isNode_of_mem_nodes hu).label_ne_empty

/-! ## Lines -/

/-- The letter of a value. -/
def valueLetter (value : Bool) : Char :=
  if value then 'T' else 'F'

/-- The line of the heads, each in a column of its own length, before the blanks at its end are
cut. -/
def headLine (T : Table) (separator : String) : String :=
  separator.intercalate (T.headers.map fun x => Text.padRight x.length x)

/-- The texts of a line, padded to the lengths of the heads above them. -/
def padded (heads texts : List String) : List String :=
  (texts.zip (heads.map String.length)).map fun (text, width) => Text.padRight width text

section

variable {heads : List String} {separator : String}

theorem padded_heads : padded heads heads = heads.map fun x => Text.padRight x.length x := by
  rw [padded, List.zip_map_right, List.map_map, List.zip, List.zipWith_self, List.map_map]
  rfl

theorem map_length_padded {texts : List String} (hlen : texts.length = heads.length)
    (hle : ∀ p ∈ texts.zip (heads.map String.length), p.1.length ≤ p.2) :
    (padded heads texts).map String.length = heads.map String.length := by
  have hwidths : (padded heads texts).map String.length =
      (texts.zip (heads.map String.length)).map Prod.snd := by
    rw [padded, List.map_map]
    exact List.map_congr_left fun p hp => Text.length_padRight (hle p hp)
  rw [hwidths]
  apply List.map_snd_zip
  rw [List.length_map, hlen]

theorem not_mem_formatLine {texts : List String} {widths : List Nat} {c : Char} (hc : c ≠ ' ')
    (hseparator : c ∉ separator.toList) (htexts : ∀ t ∈ texts, c ∉ t.toList) :
    c ∉ (formatLine separator widths texts).toList := by
  apply Text.not_mem_trimRight
  apply Text.not_mem_intercalate hseparator
  intro t ht
  obtain ⟨⟨text, width⟩, hp, rfl⟩ := List.mem_map.1 ht
  exact Text.not_mem_padRight hc (htexts text (List.of_mem_zip hp).1)

/-! ## The lines of the rows -/

variable {values : List Bool}

/-- The texts of a row, padded to the lengths of the heads. -/
def paddedLetters (heads : List String) (values : List Bool) : List String :=
  padded heads (values.map Log.truthLetter)

theorem toList_padRight_truthLetter (width : Nat) (value : Bool) :
    (Text.padRight width (Log.truthLetter value)).toList =
      valueLetter value :: List.replicate (width - 1) ' ' := by
  rw [Text.padRight, String.toList_append, String.toList_ofList, length_truthLetter]
  cases value <;> rfl

theorem map_length_paddedLetters (hlen : values.length = heads.length)
    (hne : ∀ x ∈ heads, x ≠ "") :
    (paddedLetters heads values).map String.length = heads.map String.length := by
  apply map_length_padded
  · rw [List.length_map, hlen]
  · rintro ⟨text, width⟩ hp
    obtain ⟨htext, hwidth⟩ := List.of_mem_zip hp
    obtain ⟨value, -, rfl⟩ := List.mem_map.1 htext
    obtain ⟨x, hx, rfl⟩ := List.mem_map.1 hwidth
    rw [length_truthLetter, Nat.one_le_iff_ne_zero, Ne, ← String.length_toList,
      List.length_eq_zero_iff, String.toList_eq_nil_iff]
    exact hne x hx

-- The letter of a value stands where its column begins, and only blanks follow the last one.
theorem exists_line_split (hlen : values.length = heads.length) (hne : ∀ x ∈ heads, x ≠ "")
    {i : Nat} {value : Bool} (hi : values[i]? = some value) :
    ∃ before after, (separator.intercalate (paddedLetters heads values)).toList =
        before ++ valueLetter value :: after ∧
      before.length = Text.startOf separator heads i ∧
      (i + 1 = heads.length → ∀ c ∈ after, Text.isBlank c = true) := by
  have hlt : i < heads.length := hlen ▸ (List.getElem?_eq_some_iff.1 hi).1
  have hlengths := map_length_paddedLetters hlen hne
  have hcount : (paddedLetters heads values).length = heads.length := by
    rw [← List.length_map, hlengths, List.length_map]
  have hzip : ((values.map Log.truthLetter).zip (heads.map String.length))[i]? =
      some (Log.truthLetter value, heads[i].length) := by
    rw [List.getElem?_zip_eq_some, List.getElem?_map, List.getElem?_map, hi,
      List.getElem?_eq_getElem hlt]
    exact ⟨rfl, rfl⟩
  have hcell : (paddedLetters heads values)[i]? =
      some (Text.padRight heads[i].length (Log.truthLetter value)) := by
    rw [paddedLetters, padded, List.getElem?_map, hzip, Option.map_some]
  obtain ⟨before, after, htext, hbefore, hlast⟩ := Text.intercalate_split hcell
  rw [toList_padRight_truthLetter] at htext
  refine ⟨before, List.replicate (heads[i].length - 1) ' ' ++ after, htext, ?_, ?_⟩
  · rw [hbefore, Text.startOf_congr hlengths]
  · intro hend c hc
    rw [hlast (hend.trans hcount.symm), List.append_nil] at hc
    rw [List.eq_of_mem_replicate hc]
    rfl

/-- The line of a row under its heads. -/
def rowLine (heads : List String) (separator : String) (values : List Bool) : String :=
  formatLine separator (heads.map String.length) (values.map Log.truthLetter)

theorem isBlank_valueLetter (value : Bool) : Text.isBlank (valueLetter value) = false := by
  cases value <;> rfl

theorem getElem?_rowLine (hlen : values.length = heads.length) (hne : ∀ x ∈ heads, x ≠ "")
    {i : Nat} {value : Bool} (hi : values[i]? = some value) :
    (rowLine heads separator values).toList[Text.startOf separator heads i]? =
      some (valueLetter value) := by
  obtain ⟨before, after, htext, hbefore, -⟩ := exists_line_split hlen hne hi
  apply Text.getElem?_trimRight _ (isBlank_valueLetter value)
  change (separator.intercalate (paddedLetters heads values)).toList[_]? = _
  rw [htext, ← hbefore, List.getElem?_append_right (Nat.le_refl _), Nat.sub_self,
    List.getElem?_cons_zero]

theorem length_rowLine (hlen : values.length = heads.length) (hne : ∀ x ∈ heads, x ≠ "")
    {i : Nat} (hi : i + 1 = heads.length) :
    (rowLine heads separator values).length = Text.startOf separator heads i + 1 := by
  have hlt : i < values.length := by omega
  obtain ⟨before, after, htext, hbefore, hafter⟩ :=
    exists_line_split hlen hne (List.getElem?_eq_getElem hlt)
  have htrim := Text.toList_trimRight_of_blanks htext (isBlank_valueLetter values[i]) (hafter hi)
  rw [← String.length_toList, rowLine, formatLine]
  change (Text.trimRight (separator.intercalate (paddedLetters heads values))).toList.length = _
  rw [htrim, List.length_append, hbefore, List.length_singleton]

theorem length_rowLine_le (hlen : values.length = heads.length) (hne : ∀ x ∈ heads, x ≠ "") :
    (rowLine heads separator values).length ≤
      (separator.intercalate (heads.map fun x => Text.padRight x.length x)).length := by
  have hheads : (heads.map fun x => Text.padRight x.length x).map String.length =
      heads.map String.length := by
    rw [List.map_map]
    exact List.map_congr_left fun x _ => Text.length_padRight (Nat.le_refl _)
  rw [← Text.length_intercalate_congr ((map_length_paddedLetters hlen hne).trans hheads.symm)]
  exact Text.length_trimRight_le _

end

/-! ## The whole text -/

/-- The values of the rows, read back from the lines behind the first: the letter where a column
begins tells its value. Only the heads of the columns and the separator have to be known. -/
def readRows (heads : List String) (separator text : String) : List (List Bool) :=
  (Text.lines text).tail.map fun line => (List.range heads.length).map fun i =>
    line.toList[Text.startOf separator heads i]? == some 'T'

/-- The text shows the table: one line of heads, and one line for each row, in which the value of a
column stands as a letter where the column begins and nothing follows the letter of the last
column. -/
structure IsPrinted (T : Table) (separator text : String) : Prop where
  length_lines : (Text.lines text).length = 1 + 2 ^ T.names.length
  head : (Text.lines text)[0]? = some (Text.trimRight (T.headLine separator))
  row : ∀ (k : Nat) row, T.rows[k]? = some row →
    ∃ line, (Text.lines text)[k + 1]? = some line ∧
      (∀ i < T.headers.length, ∃ value, row.values[i]? = some value ∧
        line.toList[Text.startOf separator T.headers i]? = some (valueLetter value)) ∧
      ∀ i, i + 1 = T.headers.length → line.length = Text.startOf separator T.headers i + 1
  width : ∀ line ∈ Text.lines text, line.length ≤ (T.headLine separator).length
  readable : readRows T.headers separator text = T.rows.map Row.values

section

variable {T : Table} {separator : String}

theorem formatLines_eq (hne : ∀ x ∈ T.headers, x ≠ "") :
    T.formatLines separator = Text.trimRight (T.headLine separator) ::
      T.rows.map fun row => rowLine T.headers separator row.values := by
  have hhead : formatLine separator (T.headers.map String.length) T.headers =
      Text.trimRight (T.headLine separator) :=
    congrArg (fun texts => Text.trimRight (separator.intercalate texts)) padded_heads
  rw [formatLines, columnWidths_of_heads hne, cells, List.map_cons, hhead, List.map_map]
  rfl

theorem not_mem_line (hseparator : '\n' ∉ separator.toList)
    (hheads : ∀ x ∈ T.headers, '\n' ∉ x.toList) :
    ∀ l ∈ T.formatLines separator, '\n' ∉ l.toList := by
  intro l hl
  obtain ⟨texts, htexts, rfl⟩ := List.mem_map.1 hl
  apply not_mem_formatLine (by decide) hseparator
  obtain rfl | htexts := List.mem_cons.1 htexts
  · exact hheads
  · intro t ht
    obtain ⟨row, -, rfl⟩ := List.mem_map.1 htexts
    obtain ⟨value, -, rfl⟩ := List.mem_map.1 ht
    cases value <;> decide

theorem readRow_rowLine {values : List Bool} (hlen : values.length = T.headers.length)
    (hne : ∀ x ∈ T.headers, x ≠ "") :
    ((List.range T.headers.length).map fun i =>
      (rowLine T.headers separator values).toList[Text.startOf separator T.headers i]? ==
        some 'T') = values := by
  apply List.ext_getElem
  · rw [List.length_map, List.length_range, hlen]
  · intro i hi hi'
    rw [List.getElem_map, List.getElem_range,
      getElem?_rowLine hlen hne (List.getElem?_eq_getElem hi')]
    cases values[i] <;> rfl

theorem isPrinted_formatLines {ts : List String} {limit : Int} (htable : T.IsTruthTable ts limit)
    (hne : ∀ x ∈ T.headers, x ≠ "") (hseparator : '\n' ∉ separator.toList)
    (hheads : ∀ x ∈ T.headers, '\n' ∉ x.toList) :
    T.IsPrinted separator ("\n".intercalate (T.formatLines separator)) := by
  have hformat : T.formatLines separator = _ := formatLines_eq hne
  have hlines : Text.lines ("\n".intercalate (T.formatLines separator)) =
      Text.trimRight (T.headLine separator) ::
        T.rows.map fun row => rowLine T.headers separator row.values := by
    rw [← hformat]
    apply Text.lines_intercalate _ (not_mem_line hseparator hheads)
    rw [hformat]
    exact List.cons_ne_nil _ _
  constructor
  case length_lines =>
    rw [hlines, List.length_cons, List.length_map, htable.length_rows, Nat.add_comm]
  case head => rw [hlines, List.getElem?_cons_zero]
  case row =>
    intro k row hrow
    have hlen := htable.length_values row (List.mem_of_getElem? hrow)
    refine ⟨rowLine T.headers separator row.values, ?_, fun i hi => ?_, fun i hi => ?_⟩
    · rw [hlines, List.getElem?_cons_succ, List.getElem?_map, hrow, Option.map_some]
    · have hvalue : row.values[i]? = some row.values[i] := List.getElem?_eq_getElem (hlen ▸ hi)
      exact ⟨_, hvalue, getElem?_rowLine hlen hne hvalue⟩
    · exact length_rowLine hlen hne hi
  case width =>
    intro line hline
    rw [hlines] at hline
    obtain rfl | hline := List.mem_cons.1 hline
    · exact Text.length_trimRight_le _
    · obtain ⟨row, hrow, rfl⟩ := List.mem_map.1 hline
      exact length_rowLine_le (htable.length_values row hrow) hne
  case readable =>
    rw [readRows, hlines, List.tail_cons, List.map_map]
    exact List.map_congr_left fun row hrow =>
      readRow_rowLine (htable.length_values row hrow) hne

/-- The table of a formula is printed with nothing lost: where neither the separator nor a head has
a line feed, each value stands as a letter where its column begins, whatever else the separator and
the names are. -/
theorem format_printed {ts : List String} {limit : Int} (h : (build ts limit).result = .ok T)
    (hseparator : '\n' ∉ separator.toList) (hheads : ∀ x ∈ T.headers, '\n' ∉ x.toList) :
    ∃ text, T.format? separator = some text ∧ T.IsPrinted separator text := by
  refine ⟨"\n".intercalate (T.formatLines separator), ?_, ?_⟩
  · rw [format?, if_pos (isComplete_of_build h)]
  · exact isPrinted_formatLines (isTruthTable_of_build h) (headers_ne_empty_of_build h) hseparator
      hheads

end

-- One name is a blank, and the separator looks like a value. Only the blanks behind the letter of
-- the last column are cut.
theorem format_printed_of_letter_separator :
    ∃ T text, (build ["A", "&&", " "] 0).result = .ok T ∧ '\n' ∉ "T".toList ∧
      (∀ x ∈ T.headers, '\n' ∉ x.toList) ∧ T.format? "T" = some text ∧
      text = " TAT(A∧ )\nFTFTF\nTTFTF\nFTTTF\nTTTTT" ∧ T.IsPrinted "T" text := by
  let tree : Tree := .binary .and (.name "A") (.name " ")
  have hnames : variablesOf ["A", "&&", " "] = [" ", "A"] :=
    variablesOf_eq (by decide) (by decide) (by decide)
  have htable : tree.table = ⟨["A", "&&", " "], [" ", "A"], ["(A∧ )"],
      [⟨[(" ", false), ("A", false)], false, [false, false, false]⟩,
        ⟨[(" ", true), ("A", false)], false, [true, false, false]⟩,
        ⟨[(" ", false), ("A", true)], false, [false, true, false]⟩,
        ⟨[(" ", true), ("A", true)], true, [true, true, true]⟩]⟩ := by
    unfold Tree.table Tree.row
    rw [show tree.tokens = ["A", "&&", " "] from rfl, hnames]
    decide +kernel
  have h : (build ["A", "&&", " "] 0).result = .ok tree.table :=
    build_eq_ok_iff.2 ⟨tree, derives_iff.2 ⟨rfl, by decide⟩, by decide, by decide, rfl⟩
  have hheads : ∀ x ∈ tree.table.headers, '\n' ∉ x.toList := by
    rw [htable]
    decide
  obtain ⟨text, htext, hprinted⟩ :
      ∃ text, tree.table.format? "T" = some text ∧ tree.table.IsPrinted "T" text :=
    format_printed h (by decide) hheads
  refine ⟨tree.table, text, h, by decide, hheads, htext, ?_, hprinted⟩
  rw [htable] at htext
  have hshown : format? ⟨["A", "&&", " "], [" ", "A"], ["(A∧ )"],
      [⟨[(" ", false), ("A", false)], false, [false, false, false]⟩,
        ⟨[(" ", true), ("A", false)], false, [true, false, false]⟩,
        ⟨[(" ", false), ("A", true)], false, [false, true, false]⟩,
        ⟨[(" ", true), ("A", true)], true, [true, true, true]⟩]⟩ "T" =
      some " TAT(A∧ )\nFTFTF\nTTFTF\nFTTTF\nTTTTT" := by decide +kernel
  exact Option.some.inj (htext.symm.trans hshown)

end Table

end PropTable
