import Mathlib.Data.List.SplitBy
import PropTable.Proofs.Assignments
import PropTable.Proofs.Nodes

/-!
# Reading a label

The marks of a label are symbols, and the text between two marks is a name. `Label.tokens` takes a
label apart in this way. Where the names of a formula hold no mark, the tokens of its label are those
of the formula that the label shows (`Tree.shown`), and this one has the same value, label and
readings. So formulas with one label have one value (`Tree.value_eq_of_label_eq`).
-/

namespace PropTable

namespace Label

/-! ## The tokens of a label -/

/-- The token that a piece of a label stands for: that of the symbol for a mark, and the piece itself
for any other text. -/
def tokenOf (piece : List Char) : String :=
  match Symbol.all.find? fun s => s.glyph.toList == piece with
  | some s => s.spelling
  | none => String.ofList piece

/-- The tokens of a text: one for each mark, and one for each longest run of other characters. -/
def pieces (cs : List Char) : List String :=
  (cs.splitBy fun c d => decide (c ∉ marks ∧ d ∉ marks)).map tokenOf

/-- The tokens of a label. -/
def tokens (label : String) : List String := pieces label.toList

-- A mark parts what stands before it from what stands behind it.
theorem pieces_append_mark {c : Char} (hc : c ∈ marks) (cs ds : List Char) :
    pieces (cs ++ c :: ds) = pieces cs ++ tokenOf [c] :: pieces ds := by
  have hbefore : ∀ x ∈ cs.getLast?, decide (x ∉ marks ∧ c ∉ marks) = false :=
    fun x _ => decide_eq_false fun h => h.2 hc
  have hbehind : ∀ x ∈ [c].getLast?, ∀ y ∈ ds.head?, decide (x ∉ marks ∧ y ∉ marks) = false := by
    intro x hx y _
    rw [List.getLast?_singleton, Option.mem_some_iff] at hx
    exact decide_eq_false fun h => h.1 (hx ▸ hc)
  unfold pieces
  rw [List.splitBy_append_cons ds hbefore, ← List.singleton_append, List.splitBy_append hbehind,
    List.map_append, List.map_append]
  rfl

theorem tokenOf_glyph (s : Symbol) : tokenOf s.glyph.toList = s.spelling := by
  cases s with
  | connective c => cases c <;> decide
  | _ => decide

theorem glyph_mem_marks (s : Symbol) : ∃ c ∈ marks, s.glyph.toList = [c] := by
  cases s with
  | connective c => cases c <;> exact ⟨_, by decide, rfl⟩
  | _ => exact ⟨_, by decide, rfl⟩

theorem tokens_append_glyph (s : Symbol) (l r : String) :
    tokens (l ++ s.glyph ++ r) = tokens l ++ s.spelling :: tokens r := by
  obtain ⟨c, hc, hglyph⟩ := glyph_mem_marks s
  have htoken : tokenOf [c] = s.spelling := by rw [← hglyph, tokenOf_glyph]
  unfold tokens
  rw [String.toList_append, String.toList_append, hglyph, List.append_assoc,
    List.singleton_append, pieces_append_mark hc, htoken]

theorem tokens_negation (l : String) : tokens (negation l) = "!" :: tokens l := by
  have h := tokens_append_glyph .not "" l
  rwa [String.empty_append] at h

theorem tokens_bracketed (l : String) : tokens ("(" ++ l ++ ")") = "(" :: tokens l ++ [")"] := by
  have ho := tokens_append_glyph .leftParen "" l
  have hc := tokens_append_glyph .rightParen ("(" ++ l) ""
  rw [String.empty_append] at ho
  rw [String.append_empty] at hc
  exact hc.trans (congrArg (· ++ [")"]) ho)

theorem tokens_binary (c : Connective) (l r : String) :
    tokens (binary (.connective c) l r) = "(" :: (tokens l ++ c.token :: tokens r) ++ [")"] := by
  have hinner := tokens_append_glyph (.connective c) l r
  have h := tokens_bracketed (l ++ (Symbol.connective c).glyph ++ r)
  rw [hinner] at h
  unfold binary
  simp only [String.append_assoc] at h ⊢
  exact h

/-- The text is read as a name where it stands in a label. -/
def Legible (x : String) : Prop := x ∉ reserved ∧ x ≠ "" ∧ Plain x

instance (x : String) : Decidable (Legible x) :=
  inferInstanceAs (Decidable (x ∉ reserved ∧ x ≠ "" ∧ Plain x))

theorem tokens_name {x : String} (h : Legible x) : tokens x = [x] := by
  have hne : x.toList ≠ [] := fun hx => h.2.1 (String.toList_eq_nil_iff.1 hx)
  have hplain : ∀ c ∈ x.toList, c ∉ marks := h.2.2
  have hchain : x.toList.IsChain fun c d => decide (c ∉ marks ∧ d ∉ marks) = true :=
    (List.pairwise_of_forall_mem_list fun c hc d hd =>
      decide_eq_true ⟨hplain c hc, hplain d hd⟩).isChain
  have hglyph : Symbol.all.find? (fun s => s.glyph.toList == x.toList) = none := by
    rw [List.find?_eq_none]
    intro s _ hs
    obtain ⟨c, hc, hglyph⟩ := glyph_mem_marks s
    rw [beq_iff_eq, hglyph] at hs
    exact hplain c (hs ▸ List.mem_singleton_self c) hc
  unfold tokens pieces
  rw [List.splitBy_of_isChain hne hchain, List.map_singleton, tokenOf, hglyph]
  exact congrArg (fun y => [y]) (String.ofList_toList)

end Label

/-! ## The formula that a label shows -/

namespace Tree

/-- All names of the formula are legible. -/
def Legible (t : Tree) : Prop := ∀ x ∈ t.names, Label.Legible x

theorem legible_of_derives {ts : List String} {t : Tree} (hd : Derives .equivalence ts t)
    (hts : ∀ x ∈ ts, x ∉ reserved → x ≠ "" ∧ Label.Plain x) : t.Legible := by
  intro x hx
  obtain ⟨hmem, hr⟩ := hd.mem_names_iff.1 hx
  exact ⟨hr, hts x hmem hr⟩

theorem Legible.plain {t : Tree} (h : t.Legible) : t.Plain := fun x hx => (h x hx).2.2

theorem Legible.left {c : Connective} {l r : Tree} (h : (binary c l r).Legible) : l.Legible :=
  fun x hx => h x (List.mem_append_left r.names hx)

theorem Legible.right {c : Connective} {l r : Tree} (h : (binary c l r).Legible) : r.Legible :=
  fun x hx => h x (List.mem_append_right l.names hx)

/-- Whether the label of the formula has brackets around it. -/
def isBracketed : Tree → Bool
  | .name _ => false
  | .negation _ => false
  | .binary .. => true
  | .group _ => true

/-- The formula with brackets around each connective, and none around what has brackets. -/
def shown : Tree → Tree
  | .name x => .name x
  | .negation t => .negation t.shown
  | .binary c l r => .group (.binary c l.shown r.shown)
  | .group t => if t.isBracketed then t.shown else .group t.shown

theorem Bracketless.isEnclosed_label {t : Tree} (h : t.Bracketless) :
    Label.isEnclosed t.label = t.isBracketed := by
  cases t with
  | name x =>
    rw [isBracketed, Bool.eq_false_iff, Ne, Label.isEnclosed_iff]
    rintro ⟨m, hm, -⟩
    have ho : '(' ∈ x.toList := by
      rw [show x.toList = '(' :: m ++ [')'] from hm]
      exact List.mem_cons_self
    exact (h x (List.mem_singleton_self x)).1 ho
  | negation t =>
    rw [isBracketed, Bool.eq_false_iff, Ne, Label.isEnclosed_iff]
    rintro ⟨m, hm, -⟩
    rw [label, Label.negation, String.toList_append] at hm
    exact absurd (List.cons.inj hm).1 (by decide)
  | binary c l r =>
    exact Label.isEnclosed_binary c (balanced_label h.left) (balanced_label h.right)
  | group t => exact Label.isEnclosed_parenthesize (balanced_label (t := t) h)

theorem Bracketless.label_group {t : Tree} (h : t.Bracketless) :
    (group t).label = if t.isBracketed then t.label else "(" ++ t.label ++ ")" := by
  rw [label, Label.parenthesize, h.isEnclosed_label]

/-- The tokens of a label are those of the formula that it shows. -/
theorem Legible.tokens_label {t : Tree} (h : t.Legible) :
    Label.tokens t.label = t.shown.tokens := by
  induction t with
  | name x => exact Label.tokens_name (h x (List.mem_singleton_self x))
  | negation t ih =>
    rw [label, Label.tokens_negation, ih h]
    rfl
  | binary c l r ihl ihr =>
    rw [label, Label.tokens_binary, ihl h.left, ihr h.right]
    rfl
  | group t ih =>
    have ht : t.Legible := h
    rw [ht.plain.bracketless.label_group, shown]
    split
    · exact ih h
    · rw [Label.tokens_bracketed, ih h]
      rfl

theorem names_shown (t : Tree) : t.shown.names = t.names := by
  induction t with
  | name x => rfl
  | negation t ih => exact ih
  | binary c l r ihl ihr => exact congrArg₂ (· ++ ·) ihl ihr
  | group t ih =>
    rw [shown]
    split
    · exact ih
    · exact ih

theorem value_shown (t : Tree) (ρ : String → Bool) : t.shown.value ρ = t.value ρ := by
  induction t with
  | name x => rfl
  | negation t ih => exact congrArg (!·) ih
  | binary c l r ihl ihr => exact congrArg₂ c.apply ihl ihr
  | group t ih =>
    rw [shown]
    split
    · exact ih
    · exact ih

theorem Legible.label_shown {t : Tree} (h : t.Legible) : t.shown.label = t.label := by
  induction t with
  | name x => rfl
  | negation t ih => exact congrArg Label.negation (ih h)
  | binary c l r ihl ihr =>
    have hl := balanced_label h.left.plain.bracketless
    have hr := balanced_label h.right.plain.bracketless
    have henclosed := Label.isEnclosed_binary c hl hr
    have hroot : (binary c l.shown r.shown).label = (binary c l r).label := by
      rw [label, label, ihl h.left, ihr h.right]
    change Label.parenthesize (binary c l.shown r.shown).label = _
    rw [hroot]
    exact Label.parenthesize_of_isEnclosed henclosed
  | group t ih =>
    have ht : t.Legible := h
    rw [shown]
    split
    · rename_i hb
      rw [ih h, ht.plain.bracketless.label_group, if_pos hb]
    · exact congrArg Label.parenthesize (ih h)

-- The shown formula records what the formula records.
theorem Legible.readings_shown {t : Tree} (h : t.Legible) (ρ : String → Bool) :
    t.shown.nodes.map (reading ρ) = t.nodes.map (reading ρ) := by
  induction t with
  | name x => rfl
  | negation t ih =>
    have hroot := (show (negation t).Legible from h).label_shown
    have hvalue := (negation t).value_shown ρ
    rw [shown] at hroot hvalue
    rw [shown, nodes, nodes, List.map_append, List.map_append, ih h, List.map_singleton,
      List.map_singleton, reading, reading, hroot, hvalue]
  | binary c l r ihl ihr =>
    have hroot : (binary c l.shown r.shown).label = (binary c l r).label := by
      rw [label, label, h.left.label_shown, h.right.label_shown]
    have hvalue : (binary c l.shown r.shown).value ρ = (binary c l r).value ρ :=
      (binary c l r).value_shown ρ
    rw [shown, nodes, nodes, nodes, List.map_append, List.map_append, List.map_append,
      List.map_append, ihl h.left, ihr h.right, List.map_singleton, List.map_singleton, reading,
      reading, hroot, hvalue]
  | group t ih =>
    rw [shown]
    split
    · exact ih h
    · exact ih h

theorem Legible.fits_shown {t : Tree} (h : t.Legible) (k : Nat) : t.shown.Fits k := by
  induction t generalizing k with
  | name x => exact (h x (List.mem_singleton_self x)).1
  | negation t ih => exact ih h 0
  | binary c l r ihl ihr => exact ⟨c.rank_le_loosest, ihl h.left _, ihr h.right _⟩
  | group t ih =>
    rw [shown]
    split
    · exact ih h k
    · exact ih h Connective.loosest

/-- Formulas with one label show the same formula. -/
theorem shown_eq_of_label_eq {t u : Tree} (ht : t.Legible) (hu : u.Legible)
    (h : t.label = u.label) : t.shown = u.shown := by
  have htokens : t.shown.tokens = u.shown.tokens := by
    rw [← ht.tokens_label, ← hu.tokens_label, h]
  have htree := derives_iff.2 ⟨rfl, ht.fits_shown Connective.loosest⟩
  have hother := derives_iff.2 ⟨rfl, hu.fits_shown Connective.loosest⟩
  rw [htokens] at htree
  exact htree.unique hother

/-- Formulas with one label have one value. -/
theorem value_eq_of_label_eq {t u : Tree} (ht : t.Legible) (hu : u.Legible)
    (h : t.label = u.label) (ρ : String → Bool) : t.value ρ = u.value ρ := by
  rw [← value_shown t, shown_eq_of_label_eq ht hu h, value_shown]

/-! ## The readings of a legible formula -/

theorem Legible.of_mem_nodes {t u : Tree} (h : t.Legible) (hu : u ∈ t.nodes) : u.Legible :=
  fun x hx => h x (names_subset hu hx)

theorem plain_of_mem_variablesOf {ts : List String}
    (hts : ∀ x ∈ ts, x ∉ reserved → Label.Plain x) : ∀ x ∈ variablesOf ts, Label.Plain x := by
  intro x hx
  obtain ⟨hmem, -, hr⟩ := mem_variablesOf.1 hx
  exact hts x hmem hr

-- The label of a node has a mark, so it is recorded where only texts without marks are left out.
theorem recorded_of_plain {ex : List String} (hex : ∀ x ∈ ex, Label.Plain x) (t : Tree)
    (ρ : String → Bool) : t.recorded ρ ex = t.nodes.map (reading ρ) := by
  rw [recorded, List.filter_eq_self]
  intro r hr
  obtain ⟨u, hu, rfl⟩ := List.mem_map.1 hr
  rw [decide_eq_true_iff]
  exact fun hmem => not_plain_label hu (hex _ hmem)

/-- Each node of a legible formula has its value under its label. -/
theorem Legible.value?_node {t u : Tree} (h : t.Legible) {ex : List String}
    (hex : ∀ x ∈ ex, Label.Plain x) (hu : u ∈ t.nodes) (ρ : String → Bool) :
    (t.evaluation ρ ex).value? u.label = some (u.value ρ) := by
  refine Valuation.value?_ofList_of_mem ?_ ?_
  · rw [recorded_of_plain hex]
    exact List.mem_map_of_mem hu
  · intro value hvalue
    rw [recorded_of_plain hex] at hvalue
    obtain ⟨w, hw, hreading⟩ := List.mem_map.1 hvalue
    obtain ⟨hlabel, rfl⟩ := Prod.mk.inj hreading
    exact value_eq_of_label_eq (h.of_mem_nodes hw) (h.of_mem_nodes hu) hlabel ρ

theorem Legible.evaluation_shown {t : Tree} (h : t.Legible) (ρ : String → Bool)
    (ex : List String) : t.shown.evaluation ρ ex = t.evaluation ρ ex := by
  unfold evaluation recorded
  rw [value_shown, h.readings_shown]

end Tree

/-! ## The text of tokens -/

namespace Label

/-- The text of tokens in a row, each of them as it is shown. -/
def ofTokens (ts : List String) : String := String.join (ts.map displayToken)

theorem ofTokens_cons (x : String) (ts : List String) :
    ofTokens (x :: ts) = displayToken x ++ ofTokens ts := by
  simp only [ofTokens, List.map_cons, String.join_cons]

theorem ofTokens_append (ts us : List String) :
    ofTokens (ts ++ us) = ofTokens ts ++ ofTokens us := by
  simp only [ofTokens, List.map_append, String.join_append]

theorem ofTokens_singleton (x : String) : ofTokens [x] = displayToken x := by
  simp only [ofTokens, List.map_cons, List.map_nil, String.join_cons, String.join_nil,
    String.append_empty]

theorem displayToken_spelling (s : Symbol) : displayToken s.spelling = s.glyph := by
  simp only [displayToken, Symbol.ofToken?_spelling]

theorem ofTokens_bracketed (ts : List String) :
    ofTokens ("(" :: ts ++ [")"]) = "(" ++ ofTokens ts ++ ")" := by
  have ho : displayToken "(" = "(" := displayToken_spelling .leftParen
  have hc : displayToken ")" = ")" := displayToken_spelling .rightParen
  rw [ofTokens_append, ofTokens_cons, ofTokens_singleton, ho, hc]

theorem ofTokens_binary (c : Connective) (ts us : List String) :
    ofTokens ("(" :: (ts ++ c.token :: us) ++ [")"]) =
      binary (.connective c) (ofTokens ts) (ofTokens us) := by
  have hglyph : displayToken c.token = (Symbol.connective c).glyph := displayToken_spelling _
  rw [ofTokens_bracketed, ofTokens_append, ofTokens_cons, hglyph, binary]
  simp only [String.append_assoc]

end Label

/-- A label is the text of the tokens that are read from it. -/
theorem Tree.Legible.ofTokens_shown {t : Tree} (h : t.Legible) :
    Label.ofTokens t.shown.tokens = t.label := by
  induction t with
  | name x =>
    have hx := (ofToken?_eq_none_iff x).2 (h x (List.mem_singleton_self x)).1
    rw [shown, tokens, Label.ofTokens_singleton, displayToken, hx, label]
  | negation t ih =>
    have hnot : displayToken "!" = Symbol.not.glyph := Label.displayToken_spelling .not
    rw [shown, tokens, Label.ofTokens_cons, hnot, ih h, label, Label.negation]
  | binary c l r ihl ihr =>
    rw [shown, tokens, tokens, Label.ofTokens_binary, ihl h.left, ihr h.right, label]
  | group t ih =>
    have ht : t.Legible := h
    rw [ht.plain.bracketless.label_group, shown]
    split
    · exact ih h
    · rw [tokens, Label.ofTokens_bracketed, ih h]

/-! ## Reading a label back -/

namespace Tree.Legible

variable {t : Tree}

/-- The tokens of the label of a formula evaluate to what the formula itself evaluates to. -/
theorem evaluate_tokens_label (h : t.Legible) {a : Assignment} {limit : Int}
    (ha : ∀ x ∈ t.names, a.known x = true) (hn : t.shown.nesting ≤ limit) (ex : List String) :
    (evaluate (Label.tokens t.label) a ex limit).outcome = .ok (t.evaluation a.truth ex) := by
  have hcovered : Covered a.known t.shown.tokens := by
    intro x hx hr
    have hname := mem_names_of_mem_tokens hx hr
    rw [names_shown] at hname
    exact ha x hname
  have hread : ofTokens a.known limit.toNat t.shown.tokens = .ok t.shown :=
    ofTokens_tokens (h.fits_shown _) (by omega) hcovered
  rw [h.tokens_label, outcome_of_tree hread, h.evaluation_shown]

-- A label has no other variables than the formula.
theorem mem_names_of_mem_label (h : t.Legible) {x : String}
    (hx : x ∈ variablesOf (Label.tokens t.label)) : x ∈ t.names := by
  rw [h.tokens_label] at hx
  rw [← names_shown]
  exact t.shown.mem_names_of_mem_variablesOf hx

-- What a node records is recorded for the whole formula, with the same values.
theorem trace_node_subset (h : t.Legible) {u : Tree} (hu : u ∈ t.nodes) {ex : List String}
    (hex : ∀ x ∈ ex, Label.Plain x) (ρ : String → Bool) (ex' : List String) :
    (u.evaluation ρ ex').trace ⊆ (t.evaluation ρ ex).trace := by
  intro p hp
  have hrecorded : p ∈ u.recorded ρ ex' := Valuation.mem_of_mem_ofList hp
  have hreading : p ∈ u.nodes.map (reading ρ) := (List.mem_filter.1 hrecorded).1
  obtain ⟨w, hw, rfl⟩ := List.mem_map.1 hreading
  have hvalue := h.value?_node hex (nodes_subset hu hw) ρ
  exact Valuation.mem_of_value? (v := ⟨(t.evaluation ρ ex).trace⟩) hvalue

-- The label of a node is the last that its own tokens record.
theorem getLast?_labels_node (h : t.Legible) (ht : t.IsNode) (ρ : String → Bool) :
    (t.evaluation ρ (variablesOf (Label.tokens t.label))).labels.getLast? = some t.label := by
  have hcore : t.core = t := ht.core_eq
  have hnode : t.core.IsNode := by
    rw [hcore]
    exact ht
  obtain ⟨before, htrace⟩ :=
    trace_evaluation_concat hnode (fun _ hx => h.mem_names_of_mem_label hx) ρ
  rw [Evaluation.labels, htrace, List.map_append, List.map_singleton, List.getLast?_concat, hcore]

end Tree.Legible

/-- Where the names of a formula hold no marks, each of its labels can be evaluated again. Its tokens
have the value that stands under the label, their last label is the label itself, and whatever they
record stands in the record of the whole formula. -/
theorem evaluate_label {s : Solver} {a : Assignment} {e : Evaluation} {l : String}
    (h : (s.evaluate a).result.1 = .ok e)
    (hs : ∀ x ∈ s.tokens, x ∉ reserved → x ≠ "" ∧ Label.Plain x) (hl : l ∈ e.labels) :
    ∃ (depth : Nat) (again : Evaluation),
      (∀ s' : Solver, s'.tokens = Label.tokens l → (depth : Int) ≤ s'.maxDepth →
        (s'.evaluate a).result.1 = .ok again) ∧
      e.value? l = some again.result ∧ again.labels.getLast? = some l ∧
      again.trace ⊆ e.trace := by
  rw [s.result_evaluate] at h
  obtain ⟨t, ht⟩ := ofTokens_of_evaluate h
  obtain ⟨hd, -, hcovered⟩ := ofTokens_eq_ok_iff.1 ht
  rw [outcome_of_tree ht] at h
  obtain rfl := Except.ok.inj h
  have hlegible : t.Legible := Tree.legible_of_derives hd hs
  have hplain : ∀ x ∈ s.names, Label.Plain x :=
    Tree.plain_of_mem_variablesOf fun x hx hr => (hs x hx hr).2
  -- the label is that of a node, and its tokens show this node
  rw [labels_evaluation, List.mem_eraseDups, List.mem_filter] at hl
  obtain ⟨u, hu, rfl⟩ := List.mem_map.1 hl.1
  have hul := hlegible.of_mem_nodes hu
  have hknown : ∀ x ∈ u.names, a.known x = true := by
    intro x hx
    obtain ⟨hmem, hr⟩ := hd.mem_names_iff.1 (Tree.names_subset hu hx)
    exact hcovered x hmem hr
  refine ⟨u.shown.nesting, u.evaluation a.truth (variablesOf (Label.tokens u.label)), ?_, ?_, ?_,
    ?_⟩
  · intro s' htokens hdepth
    rw [s'.result_evaluate, Solver.names, htokens]
    exact hul.evaluate_tokens_label hknown hdepth _
  · exact hlegible.value?_node hplain hu a.truth
  · exact hul.getLast?_labels_node (Tree.isNode_of_mem_nodes hu) a.truth
  · exact hlegible.trace_node_subset hu hplain a.truth _

-- The pair of brackets that the label leaves out does not count.
theorem evaluate_label_of_double_brackets :
    ((Solver.mk ["!", "(", "(", "A", ")", ")", "xor", "B", "->", "!", "(", "A", ")"] 3
        none).evaluate [("A", .int 1), ("B", .flag true)]).result.1 =
      .ok ⟨false, [("¬(A)", false), ("(¬(A)⊕B)", true), ("((¬(A)⊕B)→¬(A))", false)]⟩ ∧
    ∃ (depth : Nat) (again : Evaluation),
      (∀ s' : Solver, s'.tokens = ["(", "!", "(", "A", ")", "xor", "B", ")"] →
        (depth : Int) ≤ s'.maxDepth →
        (s'.evaluate [("A", .int 1), ("B", .flag true)]).result.1 = .ok again) ∧
      again.result = true ∧ again.labels.getLast? = some "(¬(A)⊕B)" ∧
      again.trace ⊆ [("¬(A)", false), ("(¬(A)⊕B)", true), ("((¬(A)⊕B)→¬(A))", false)] := by
  have hread : Tree.ofTokens (Assignment.known [("A", .int 1), ("B", .flag true)]) 3
      ["!", "(", "(", "A", ")", ")", "xor", "B", "->", "!", "(", "A", ")"] = .ok _ :=
    ofTokens_tokens (t := .binary .implies
      (.binary .xor (.negation (.group (.group (.name "A")))) (.name "B"))
      (.negation (.group (.name "A")))) (by decide) (by decide) (by decide)
  have hnames : variablesOf ["!", "(", "(", "A", ")", ")", "xor", "B", "->", "!", "(", "A", ")"] =
      ["A", "B"] := variablesOf_eq (by decide) (by decide) (by decide)
  have h : ((Solver.mk ["!", "(", "(", "A", ")", ")", "xor", "B", "->", "!", "(", "A", ")"] 3
      none).evaluate [("A", .int 1), ("B", .flag true)]).result.1 =
      .ok ⟨false, [("¬(A)", false), ("(¬(A)⊕B)", true), ("((¬(A)⊕B)→¬(A))", false)]⟩ := by
    rw [Solver.result_evaluate, Solver.names, hnames]
    exact @outcome_of_tree _ ["A", "B"] _ _ 3 hread
  have htokens : Label.tokens "(¬(A)⊕B)" = ["(", "!", "(", "A", ")", "xor", "B", ")"] := by
    decide +kernel
  obtain ⟨depth, again, hagain, hvalue, hlast, htrace⟩ :=
    evaluate_label (l := "(¬(A)⊕B)") h (by decide) (by decide)
  rw [htokens] at hagain
  have hresult : some true = some again.result := hvalue
  exact ⟨h, depth, again, hagain, (Option.some.inj hresult).symm, hlast, htrace⟩

end PropTable
