import Mathlib.Data.List.Forall2
import PropTable.Proofs.Agreement
import PropTable.Proofs.FirstError
import PropTable.Proofs.LabelReading
import PropTable.Proofs.TruthTable

/-!
# Other spellings of the names

Giving the variables other names that sort in the same order leaves the rows of a truth table as they
are (`Table.build_respell`). The labels follow the names where neither the old names nor the new ones
hold a mark. With marks in them, labels of different sub-formulas may come to read alike, and then
these share a column (`Table.respell_loses_label`).
-/

namespace PropTable

/-! ## Spellings -/

/-- The name that `f` gives to a variable. Other tokens stay as they are. -/
def respell (f : String → String) (x : String) : String :=
  if isVariable x then f x else x

/-- `f` gives the variables among the tokens names that are admissible and that sort like the old
ones, and so keeps them apart. -/
structure Respelling (f : String → String) (ts : List String) : Prop where
  admissible : ∀ x ∈ variablesOf ts, f x ≠ "" ∧ f x ∉ reserved
  lt : ∀ x ∈ variablesOf ts, ∀ y ∈ variablesOf ts, x < y → f x < f y

theorem respell_of_reserved (f : String → String) {x : String} (hx : x ∈ reserved) :
    respell f x = x :=
  if_neg fun h => ((isVariable_iff x).1 h).2 hx

theorem respell_of_mem (f : String → String) {ts : List String} {x : String}
    (hx : x ∈ variablesOf ts) : respell f x = f x :=
  if_pos ((isVariable_iff x).2 (mem_variablesOf.1 hx).2)

-- A token is a variable with its new name, or stays as it is.
theorem respell_cases (f : String → String) {ts : List String} {x : String} (hx : x ∈ ts) :
    (x ∈ variablesOf ts ∧ respell f x = f x) ∨ (x ∉ variablesOf ts ∧ respell f x = x) := by
  by_cases hv : x ∈ variablesOf ts
  · exact .inl ⟨hv, respell_of_mem f hv⟩
  · refine .inr ⟨hv, if_neg fun h => hv ?_⟩
    exact mem_variablesOf.2 ⟨hx, (isVariable_iff x).1 h⟩

namespace Respelling

variable {f : String → String} {ts : List String}

theorem ofToken?_respell (h : Respelling f ts) {x : String} (hx : x ∈ ts) :
    Symbol.ofToken? (respell f x) = Symbol.ofToken? x := by
  obtain ⟨hv, hname⟩ | ⟨-, hsame⟩ := respell_cases f hx
  · have hold := (ofToken?_eq_none_iff x).2 (mem_variablesOf.1 hv).2.2
    rw [hname, hold, ofToken?_eq_none_iff]
    exact (h.admissible x hv).2
  · rw [hsame]

theorem inj (h : Respelling f ts) {x y : String} (hx : x ∈ variablesOf ts ∨ x ∈ reserved)
    (hy : y ∈ variablesOf ts ∨ y ∈ reserved) (heq : respell f x = respell f y) : x = y := by
  obtain hx | hx := hx
  · rw [respell_of_mem f hx] at heq
    obtain hy | hy := hy
    · rw [respell_of_mem f hy] at heq
      obtain hlt | rfl | hlt := lt_trichotomy x y
      · exact absurd heq (ne_of_lt (h.lt x hx y hy hlt))
      · rfl
      · exact absurd heq.symm (ne_of_lt (h.lt y hy x hx hlt))
    · rw [respell_of_reserved f hy] at heq
      exact absurd (heq ▸ hy) (h.admissible x hx).2
  · rw [respell_of_reserved f hx] at heq
    obtain hy | hy := hy
    · rw [respell_of_mem f hy] at heq
      exact absurd (heq ▸ hx) (h.admissible y hy).2
    · rwa [respell_of_reserved f hy] at heq

/-- The new names are the variables of the new tokens, in the order of the old ones. -/
theorem variablesOf_respell (h : Respelling f ts) :
    variablesOf (ts.map (respell f)) = (variablesOf ts).map f := by
  apply variablesOf_eq
  · rw [List.pairwise_map]
    exact (pairwise_variablesOf ts).imp_of_mem fun hx hy hlt => h.lt _ hx _ hy hlt
  · intro y hy
    obtain ⟨x, hx, rfl⟩ := List.mem_map.1 hy
    refine ⟨?_, h.admissible x hx⟩
    rw [← respell_of_mem f hx]
    exact List.mem_map_of_mem (mem_variablesOf.1 hx).1
  · intro y hy hne hr
    obtain ⟨x, hx, rfl⟩ := List.mem_map.1 hy
    obtain ⟨hv, hname⟩ | ⟨hv, hsame⟩ := respell_cases f hx
    · rw [hname]
      exact List.mem_map_of_mem hv
    · rw [hsame] at hne hr
      exact absurd (mem_variablesOf.2 ⟨hx, hne, hr⟩) hv

theorem empty_mem_iff (h : Respelling f ts) : "" ∈ ts.map (respell f) ↔ "" ∈ ts := by
  constructor
  · intro hmem
    obtain ⟨x, hx, heq⟩ := List.mem_map.1 hmem
    obtain ⟨hv, hname⟩ | ⟨-, hsame⟩ := respell_cases f hx
    · exact absurd (hname.symm.trans heq) (h.admissible x hv).1
    · rwa [← heq, hsame]
  · intro hmem
    exact List.mem_map.2 ⟨"", hmem, rfl⟩

end Respelling

/-! ## Sentences -/

theorem Stage.step_respell {g : String → String} {x : String}
    (h : Symbol.ofToken? (g x) = Symbol.ofToken? x) (bound : Nat) (s : Stage) :
    s.step (fun _ => true) bound (g x) = s.step (fun _ => true) bound x := by
  cases s with
  | due levels => simp only [step, h, if_true]
  | done levels => simp only [step, h]

-- A scan that does not ask for values sees nothing of a token but the symbol it spells.
theorem scan_respell {g : String → String} {ts : List String}
    (h : ∀ x ∈ ts, Symbol.ofToken? (g x) = Symbol.ofToken? x) (bound : Nat) (s s' : Stage) :
    scan (fun _ => true) bound s (ts.map g) = .ok s' ↔ scan (fun _ => true) bound s ts = .ok s' := by
  induction ts generalizing s with
  | nil => exact Iff.rfl
  | cons x ts ih =>
    have hx := Stage.step_respell (h x List.mem_cons_self) bound s
    rw [List.map_cons]
    cases hstep : s.step (fun _ => true) bound x with
    | error fault =>
      rw [scan_cons_error (hx.trans hstep), scan_cons_error hstep]
      constructor
      · intro h
        cases h
      · intro h
        cases h
    | ok next =>
      rw [scan_cons (hx.trans hstep), scan_cons hstep]
      exact ih (fun y hy => h y (List.mem_cons_of_mem x hy)) next

theorem Respelling.sentence_iff {f : String → String} {ts : List String} (h : Respelling f ts)
    (limit : Int) : Sentence limit (ts.map (respell f)) ↔ Sentence limit ts := by
  rw [sentence_iff_scan, sentence_iff_scan]
  apply exists_congr
  intro s
  rw [scan_respell fun x hx => h.ofToken?_respell hx]

/-! ## Formulas -/

namespace Tree

/-- The formula with the new names. -/
def respell (f : String → String) : Tree → Tree
  | .name x => .name (PropTable.respell f x)
  | .negation t => .negation (t.respell f)
  | .binary c l r => .binary c (l.respell f) (r.respell f)
  | .group t => .group (t.respell f)

theorem tokens_respell (f : String → String) (t : Tree) :
    (t.respell f).tokens = t.tokens.map (PropTable.respell f) := by
  induction t with
  | name x => rfl
  | negation t ih =>
    have hnot := respell_of_reserved f (x := "!") (by decide)
    simp only [respell, tokens, ih, List.map_cons, hnot]
  | binary c l r ihl ihr =>
    have hc := respell_of_reserved f (token_mem_reserved c)
    simp only [respell, tokens, ihl, ihr, List.map_append, List.map_cons, hc]
  | group t ih =>
    have ho := respell_of_reserved f (x := "(") (by decide)
    have hc := respell_of_reserved f (x := ")") (by decide)
    simp only [respell, tokens, ih, List.map_append, List.map_cons, List.map_nil, ho, hc]

theorem value_respell (f : String → String) (t : Tree) (ρ : String → Bool) :
    (t.respell f).value ρ = t.value fun x => ρ (PropTable.respell f x) := by
  induction t with
  | name x => rfl
  | negation t ih => simp only [respell, value, ih]
  | binary c l r ihl ihr => simp only [respell, value, ihl, ihr]
  | group t ih => exact ih

theorem nodes_respell (f : String → String) (t : Tree) :
    (t.respell f).nodes = t.nodes.map (respell f) := by
  induction t with
  | name x => rfl
  | negation t ih => simp only [respell, nodes, ih, List.map_append, List.map_cons, List.map_nil]
  | binary c l r ihl ihr =>
    simp only [respell, nodes, ihl, ihr, List.map_append, List.map_cons, List.map_nil]
  | group t ih => exact ih

theorem names_respell (f : String → String) (t : Tree) :
    (t.respell f).names = t.names.map (PropTable.respell f) := by
  induction t with
  | name x => rfl
  | negation t ih => exact ih
  | binary c l r ihl ihr => simp only [respell, names, ihl, ihr, List.map_append]
  | group t ih => exact ih

theorem Fits.respell {f : String → String} {k : Nat} {t : Tree} (h : t.Fits k)
    (hf : ∀ x ∈ t.names, PropTable.respell f x ∉ reserved) : (t.respell f).Fits k := by
  induction t generalizing k with
  | name x => exact hf x (List.mem_singleton_self x)
  | negation t ih => exact ih (k := 0) h hf
  | binary c l r ihl ihr =>
    have hl := ihl h.2.1 fun x hx => hf x (List.mem_append_left r.names hx)
    have hr := ihr h.2.2 fun x hx => hf x (List.mem_append_right l.names hx)
    exact ⟨h.1, hl, hr⟩
  | group t ih => exact ih (k := Connective.loosest) h hf

theorem shown_respell (f : String → String) (t : Tree) :
    (t.respell f).shown = t.shown.respell f := by
  induction t with
  | name x => rfl
  | negation t ih => simp only [respell, shown, ih]
  | binary c l r ihl ihr => simp only [respell, shown, ihl, ihr]
  | group t ih =>
    have hb : (t.respell f).isBracketed = t.isBracketed := by cases t <;> rfl
    simp only [respell, shown, hb]
    split
    · exact ih
    · rw [ih, respell]

end Tree

/-! ## Labels -/

namespace Label

/-- The label with the new names in it. -/
def respell (f : String → String) (label : String) : String :=
  ofTokens ((tokens label).map (PropTable.respell f))

end Label

theorem map_inj_of_mem {α β : Type} {g : α → β} {xs ys : List α}
    (hg : ∀ x ∈ xs, ∀ y ∈ ys, g x = g y → x = y) (h : xs.map g = ys.map g) : xs = ys := by
  induction xs generalizing ys with
  | nil => exact (List.map_eq_nil_iff.1 h.symm).symm
  | cons x xs ih =>
    cases ys with
    | nil => cases h
    | cons y ys =>
      obtain ⟨hfirst, hrest⟩ := List.cons.inj h
      have hx := hg x List.mem_cons_self y List.mem_cons_self hfirst
      have hxs := ih (fun v hv w hw =>
        hg v (List.mem_cons_of_mem x hv) w (List.mem_cons_of_mem y hw)) hrest
      rw [hx, hxs]

namespace Tree

theorem mem_reserved_or_names {t : Tree} {x : String} (hx : x ∈ t.tokens) :
    x ∈ t.names ∨ x ∈ reserved := by
  by_cases hr : x ∈ reserved
  · exact .inr hr
  · exact .inl (mem_names_of_mem_tokens hx hr)

theorem Legible.label_respell {f : String → String} {t : Tree} (h : t.Legible)
    (hf : (t.respell f).Legible) : (t.respell f).label = Label.respell f t.label := by
  rw [← hf.ofTokens_shown, shown_respell, tokens_respell, Label.respell, h.tokens_label]

-- Labels that read alike with the new names have read alike with the old ones.
theorem Legible.label_eq_of_respell {f : String → String} {ts : List String} {t u : Tree}
    (hts : Respelling f ts) (ht : t.Legible) (hu : u.Legible) (hft : (t.respell f).Legible)
    (hfu : (u.respell f).Legible) (htn : t.names ⊆ variablesOf ts) (hun : u.names ⊆ variablesOf ts)
    (h : (t.respell f).label = (u.respell f).label) : t.label = u.label := by
  have hmapped : t.shown.tokens.map (PropTable.respell f) =
      u.shown.tokens.map (PropTable.respell f) := by
    rw [← tokens_respell, ← tokens_respell, ← shown_respell, ← shown_respell, ← hft.tokens_label,
      ← hfu.tokens_label, h]
  have hkept : ∀ {w : Tree}, w.names ⊆ variablesOf ts → ∀ x ∈ w.shown.tokens,
      x ∈ variablesOf ts ∨ x ∈ reserved := by
    intro w hw x hx
    have hcases := mem_reserved_or_names hx
    rw [names_shown] at hcases
    exact hcases.imp_left fun hn => hw hn
  have htokens := map_inj_of_mem
    (fun x hx y hy => hts.inj (hkept htn x hx) (hkept hun y hy)) hmapped
  rw [← ht.ofTokens_shown, htokens, hu.ofTokens_shown]

end Tree

/-! ## Rows -/

theorem assignmentsOf_map (f : String → String) (names : List String) :
    assignmentsOf (names.map f) = (assignmentsOf names).map (List.map (Prod.map f id)) := by
  simp only [assignmentsOf, List.length_map, List.map_map, List.zipIdx_map]
  apply List.map_congr_left
  intro i _
  simp only [Function.comp_apply, List.map_map]
  rfl

/-- Two rows give the first `n` columns the same values, by assignments with the same values, and
have the same result. -/
structure Row.Agrees (n : Nat) (r s : Row) : Prop where
  bits : r.assignment.map Prod.snd = s.assignment.map Prod.snd
  result : r.result = s.result
  values : r.values.take n = s.values.take n

namespace Respelling

variable {f : String → String} {t : Tree} {a : List (String × Bool)}

-- The new names have the values of the old ones.
theorem truth_respell (h : Respelling f t.tokens) (ha : a ∈ assignmentsOf (variablesOf t.tokens))
    {x : String} (hx : x ∈ variablesOf t.tokens) :
    (Assignment.ofValues (a.map (Prod.map f id))).truth (respell f x) =
      (Assignment.ofValues a).truth x := by
  have hnew : a.map (Prod.map f id) ∈ assignmentsOf (variablesOf (t.tokens.map (respell f))) := by
    rw [h.variablesOf_respell, assignmentsOf_map]
    exact List.mem_map_of_mem ha
  rw [respell_of_mem f hx]
  rw [← names_of_mem_assignmentsOf ha] at hx
  obtain ⟨p, hp, rfl⟩ := List.mem_map.1 hx
  have hold := lookup_of_mem_assignmentsOf (nodup_variablesOf _) ha hp
  have hlook := lookup_of_mem_assignmentsOf (nodup_variablesOf _) hnew
    (List.mem_map_of_mem (f := Prod.map f id) hp)
  simp only [Assignment.truth, Assignment.value?_ofValues, hold]
  exact congrArg (Option.getD · false) hlook

theorem value_respell (h : Respelling f t.tokens)
    (ha : a ∈ assignmentsOf (variablesOf t.tokens)) {u : Tree}
    (hu : u.names ⊆ variablesOf t.tokens) :
    (u.respell f).value (Assignment.ofValues (a.map (Prod.map f id))).truth =
      u.value (Assignment.ofValues a).truth := by
  rw [Tree.value_respell]
  exact Tree.value_congr fun x hx => h.truth_respell ha (hu hx)

theorem row_agrees (h : Respelling f t.tokens) (ha : a ∈ assignmentsOf (variablesOf t.tokens))
    (ht : t.names ⊆ variablesOf t.tokens) :
    ((t.respell f).row (a.map (Prod.map f id))).Agrees (variablesOf t.tokens).length
      (t.row a) := by
  have hbits : (a.map (Prod.map f id)).map Prod.snd = a.map Prod.snd := by
    rw [List.map_map]
    rfl
  have hlength : (variablesOf t.tokens).length = (a.map Prod.snd).length := by
    rw [← names_of_mem_assignmentsOf ha, List.length_map, List.length_map]
  constructor
  case bits => exact hbits
  case result => exact h.value_respell ha ht
  case values =>
    simp only [Tree.row]
    rw [hbits, hlength, List.take_left, List.take_left]

end Respelling

/-! ## Rows under names without marks -/

section

variable {f : String → String} {t : Tree}

-- What is recorded under the new names is what is recorded under the old ones, with new labels.
theorem Respelling.trace_respell (h : Respelling f t.tokens) {a : List (String × Bool)}
    (ha : a ∈ assignmentsOf (variablesOf t.tokens)) (ht : t.names ⊆ variablesOf t.tokens)
    (hold : t.Legible) (hnew : (t.respell f).Legible) {ex ex' : List String}
    (hex : ∀ x ∈ ex, Label.Plain x) (hex' : ∀ x ∈ ex', Label.Plain x) :
    ((t.respell f).evaluation (Assignment.ofValues (a.map (Prod.map f id))).truth ex').trace =
      (t.evaluation (Assignment.ofValues a).truth ex).trace.map
        (Prod.map (Label.respell f) id) := by
  have hnodes : ∀ u ∈ t.nodes, u.names ⊆ variablesOf t.tokens ∧ u.Legible ∧
      (u.respell f).Legible := by
    intro u hu
    have hnode : u.respell f ∈ (t.respell f).nodes := by
      rw [Tree.nodes_respell]
      exact List.mem_map_of_mem hu
    exact ⟨fun x hx => ht (Tree.names_subset hu hx), hold.of_mem_nodes hu, hnew.of_mem_nodes hnode⟩
  have hreadings : (t.respell f).nodes.map
      (Tree.reading (Assignment.ofValues (a.map (Prod.map f id))).truth) =
      (t.nodes.map (Tree.reading (Assignment.ofValues a).truth)).map
        (Prod.map (Label.respell f) id) := by
    rw [Tree.nodes_respell, List.map_map, List.map_map]
    apply List.map_congr_left
    intro u hu
    obtain ⟨hnames, hlegible, hrespelled⟩ := hnodes u hu
    have hlabel := hlegible.label_respell hrespelled
    have hvalue := h.value_respell ha hnames
    simp only [Function.comp_apply, Tree.reading, hlabel, hvalue, Prod.map_apply, id_eq]
  simp only [Tree.evaluation, Tree.recorded_of_plain hex, Tree.recorded_of_plain hex', hreadings]
  apply Valuation.entries_ofList_map
  -- different labels stay different
  intro p hp q hq heq
  obtain ⟨u, hu, rfl⟩ := List.mem_map.1 hp
  obtain ⟨w, hw, rfl⟩ := List.mem_map.1 hq
  obtain ⟨hun, hul, hur⟩ := hnodes u hu
  obtain ⟨hwn, hwl, hwr⟩ := hnodes w hw
  apply hul.label_eq_of_respell h hwl hur hwr hun hwn
  rw [hul.label_respell hur, hwl.label_respell hwr]
  exact heq

theorem Respelling.rows_respell (h : Respelling f t.tokens) :
    (t.respell f).table.rows = (assignmentsOf (variablesOf t.tokens)).map
      fun a => (t.respell f).row (a.map (Prod.map f id)) := by
  simp only [Tree.table, Tree.tokens_respell, h.variablesOf_respell, assignmentsOf_map,
    List.map_map]
  rfl

theorem legible_of_plain (ht : t.names ⊆ variablesOf t.tokens)
    (hplain : ∀ x ∈ variablesOf t.tokens, Label.Plain x) : t.Legible := by
  intro x hx
  have hvariable := mem_variablesOf.1 (ht hx)
  exact ⟨hvariable.2.2, hvariable.2.1, hplain x (ht hx)⟩

theorem Respelling.legible_respell (h : Respelling f t.tokens)
    (ht : t.names ⊆ variablesOf t.tokens)
    (hplain : ∀ x ∈ variablesOf t.tokens, Label.Plain (f x)) : (t.respell f).Legible := by
  intro y hy
  rw [Tree.names_respell] at hy
  obtain ⟨x, hx, rfl⟩ := List.mem_map.1 hy
  rw [respell_of_mem f (ht hx)]
  have hadmissible := h.admissible x (ht hx)
  exact ⟨hadmissible.2, hadmissible.1, hplain x (ht hx)⟩

theorem Respelling.columns_respell (h : Respelling f t.tokens)
    (ht : t.names ⊆ variablesOf t.tokens)
    (hplain : ∀ x ∈ variablesOf t.tokens, Label.Plain x ∧ Label.Plain (f x)) :
    (t.respell f).table.labels = t.table.labels.map (Label.respell f) ∧
      (t.respell f).table.rows.map Row.values = t.table.rows.map Row.values := by
  have hold : t.Legible := legible_of_plain ht fun x hx => (hplain x hx).1
  have hnew : (t.respell f).Legible := h.legible_respell ht fun x hx => (hplain x hx).2
  have hex' : ∀ y ∈ variablesOf (t.respell f).tokens, Label.Plain y := by
    intro y hy
    rw [Tree.tokens_respell, h.variablesOf_respell] at hy
    obtain ⟨x, hx, rfl⟩ := List.mem_map.1 hy
    exact (hplain x hx).2
  have htrace : ∀ a ∈ assignmentsOf (variablesOf t.tokens), _ := fun a ha =>
    h.trace_respell ha ht hold hnew (fun x hx => (hplain x hx).1) hex'
  constructor
  · obtain ⟨rest, has⟩ := assignmentsOf_eq_cons (variablesOf t.tokens)
    have hfirst := htrace _ (has ▸ List.mem_cons_self)
    rw [← Tree.labels_table t, ← Tree.labels_table (t.respell f), Evaluation.labels, hfirst,
      Evaluation.labels, List.map_map, List.map_map]
    rfl
  · rw [h.rows_respell, Tree.table, List.map_map, List.map_map]
    apply List.map_congr_left
    intro a ha
    simp only [Function.comp_apply, Tree.row, htrace a ha, List.map_map]
    rfl

end

namespace Table

variable {f : String → String} {ts : List String} {limit : Int}

theorem exists_build_respell_iff (hf : Respelling f ts) :
    (∃ T', (build (ts.map (respell f)) limit).result = .ok T') ↔
      ∃ T, (build ts limit).result = .ok T := by
  rw [exists_build_iff, exists_build_iff, hf.sentence_iff, hf.empty_mem_iff]

-- The formula with the new names is the one that the new tokens spell.
theorem tree_of_build_respell (hf : Respelling f ts) {T T' : Table}
    (h : (build ts limit).result = .ok T)
    (h' : (build (ts.map (respell f)) limit).result = .ok T') :
    ∃ t : Tree, t.tokens = ts ∧ t.names ⊆ variablesOf ts ∧ t.table = T ∧
      (t.respell f).table = T' := by
  obtain ⟨t, hd, -, hempty, rfl⟩ := build_eq_ok_iff.1 h
  obtain ⟨t', hd', -, -, rfl⟩ := build_eq_ok_iff.1 h'
  obtain ⟨rfl, hfits⟩ := derives_iff.1 hd
  have hnames : t.names ⊆ variablesOf t.tokens := by
    intro x hx
    obtain ⟨hmem, hr⟩ := hd.mem_names_iff.1 hx
    exact mem_variablesOf.2 ⟨hmem, fun he => hempty (he ▸ hmem), hr⟩
  have hadmissible : ∀ x ∈ t.names, respell f x ∉ reserved := by
    intro x hx
    rw [respell_of_mem f (hnames hx)]
    exact (hf.admissible x (hnames hx)).2
  have hrespelled : Derives .equivalence (t.tokens.map (respell f)) (t.respell f) :=
    derives_iff.2 ⟨Tree.tokens_respell f t, hfits.respell hadmissible⟩
  rw [hd'.unique hrespelled]
  exact ⟨t, rfl, hnames, rfl, rfl⟩

/-- A formula whose variables get other names in the same order has a truth table exactly when it had
one. The variables stay where they are, and each row keeps its assignment, its result and the values
of the variables. Where neither the old nor the new names hold marks, the labels are the old ones with
the new names in them, and each row keeps all its values. -/
theorem build_respell (hf : Respelling f ts) (limit : Int) :
    ((∃ T', (build (ts.map (respell f)) limit).result = .ok T') ↔
      ∃ T, (build ts limit).result = .ok T) ∧
    ∀ T T', (build ts limit).result = .ok T →
      (build (ts.map (respell f)) limit).result = .ok T' →
      T'.names = T.names.map f ∧
      List.Forall₂ (Row.Agrees T.names.length) T'.rows T.rows ∧
      ((∀ x ∈ T.names, Label.Plain x ∧ Label.Plain (f x)) →
        T'.labels = T.labels.map (Label.respell f) ∧
        T'.rows.map Row.values = T.rows.map Row.values) := by
  refine ⟨exists_build_respell_iff hf, fun T T' h h' => ?_⟩
  obtain ⟨t, rfl, hnames, rfl, rfl⟩ := tree_of_build_respell hf h h'
  refine ⟨?_, ?_, hf.columns_respell hnames⟩
  · simp only [Tree.table, Tree.tokens_respell, hf.variablesOf_respell]
  · rw [hf.rows_respell, Tree.table, List.forall₂_map_left_iff, List.forall₂_map_right_iff,
      List.forall₂_same]
    exact fun a ha => hf.row_agrees ha hnames

-- Both names change, and their order stays.
theorem build_respell_of_plain_names :
    Respelling (fun x => if x = "A" then "no" else "yes")
      ["B", "->", "!", "(", "A", "xor", "B", ")"] ∧
    ∃ T T', (build ["B", "->", "!", "(", "A", "xor", "B", ")"] 2).result = .ok T ∧
      (build ["yes", "->", "!", "(", "no", "xor", "yes", ")"] 2).result = .ok T' ∧
      T'.names = ["no", "yes"] ∧
      T'.labels = ["(no⊕yes)", "¬(no⊕yes)", "(yes→¬(no⊕yes))"] ∧
      T'.rows.map Row.values = T.rows.map Row.values := by
  let tree : Tree := .binary .implies (.name "B")
    (.negation (.group (.binary .xor (.name "A") (.name "B"))))
  have hnames : variablesOf ["B", "->", "!", "(", "A", "xor", "B", ")"] = ["A", "B"] :=
    variablesOf_eq (by decide +kernel) (by decide) (by decide)
  have hf : Respelling (fun x => if x = "A" then "no" else "yes")
      ["B", "->", "!", "(", "A", "xor", "B", ")"] := by
    constructor
    case admissible =>
      rw [hnames]
      decide
    case lt =>
      rw [hnames]
      decide +kernel
  have h : (build ["B", "->", "!", "(", "A", "xor", "B", ")"] 2).result = .ok tree.table :=
    build_eq_ok_iff.2 ⟨tree, derives_iff.2 ⟨rfl, by decide⟩, by decide, by decide, rfl⟩
  have hlabels : tree.table.labels = ["(A⊕B)", "¬(A⊕B)", "(B→¬(A⊕B))"] := by
    unfold Tree.table
    rw [show tree.tokens = ["B", "->", "!", "(", "A", "xor", "B", ")"] from rfl, hnames]
    decide +kernel
  obtain ⟨hiff, hall⟩ := build_respell hf 2
  obtain ⟨T', h'⟩ := hiff.2 ⟨_, h⟩
  obtain ⟨hrenamed, -, hplain⟩ := hall _ T' h h'
  have htable : tree.table.names = ["A", "B"] := hnames
  rw [htable] at hrenamed hplain
  obtain ⟨hrespelled, hvalues⟩ := hplain (by decide)
  rw [hlabels] at hrespelled
  refine ⟨hf, tree.table, T', h, h', hrenamed, hrespelled.trans ?_, hvalues⟩
  decide +kernel

/-- With a bracketed name, the labels of different negations read alike, and a column is lost. -/
theorem respell_loses_label :
    Respelling (fun x => if x = "A" then "(A)" else "A") ["!", "(", "B", ")", "&&", "!", "A"] ∧
    (["!", "(", "B", ")", "&&", "!", "A"].map
      (respell fun x => if x = "A" then "(A)" else "A")) =
        ["!", "(", "A", ")", "&&", "!", "(A)"] ∧
    ∃ T T', (build ["!", "(", "B", ")", "&&", "!", "A"] 2).result = .ok T ∧
      (build ["!", "(", "A", ")", "&&", "!", "(A)"] 2).result = .ok T' ∧
      T.labels = ["¬(B)", "¬A", "(¬(B)∧¬A)"] ∧ T'.labels = ["¬(A)", "(¬(A)∧¬(A))"] := by
  let tree : Tree :=
    .binary .and (.negation (.group (.name "B"))) (.negation (.name "A"))
  let tree' : Tree :=
    .binary .and (.negation (.group (.name "A"))) (.negation (.name "(A)"))
  have hnames : variablesOf ["!", "(", "B", ")", "&&", "!", "A"] = ["A", "B"] :=
    variablesOf_eq (by decide +kernel) (by decide) (by decide)
  have hnames' : variablesOf ["!", "(", "A", ")", "&&", "!", "(A)"] = ["(A)", "A"] :=
    variablesOf_eq (by decide +kernel) (by decide) (by decide)
  have hf : Respelling (fun x => if x = "A" then "(A)" else "A")
      ["!", "(", "B", ")", "&&", "!", "A"] := by
    constructor
    case admissible =>
      rw [hnames]
      decide
    case lt =>
      rw [hnames]
      decide +kernel
  have h : (build ["!", "(", "B", ")", "&&", "!", "A"] 2).result = .ok tree.table :=
    build_eq_ok_iff.2 ⟨tree, derives_iff.2 ⟨rfl, by decide⟩, by decide, by decide, rfl⟩
  have h' : (build ["!", "(", "A", ")", "&&", "!", "(A)"] 2).result = .ok tree'.table :=
    build_eq_ok_iff.2 ⟨tree', derives_iff.2 ⟨rfl, by decide⟩, by decide, by decide, rfl⟩
  refine ⟨hf, by decide, tree.table, tree'.table, h, h', ?_, ?_⟩
  · unfold Tree.table
    rw [show tree.tokens = ["!", "(", "B", ")", "&&", "!", "A"] from rfl, hnames]
    decide +kernel
  · unfold Tree.table
    rw [show tree'.tokens = ["!", "(", "A", ")", "&&", "!", "(A)"] from rfl, hnames']
    decide +kernel

end Table

end PropTable
