import PropTable.Proofs.Labels
import PropTable.Proofs.Language

/-!
# The negations and connectives of a formula

The label of a negation or connective is longer than all names in it and all labels inside it
(`Tree.IsNode.length_name_lt`, `Tree.IsNode.length_lt`). So the outermost negation or connective,
which is recorded last, has a label that was not recorded before and that is no name
(`Tree.recorded_concat`).
-/

namespace PropTable

/-- The tokens of negations and connectives. -/
def operators : List String := ["!", "&&", "||", "xor", "->", "<->"]

theorem mem_reserved_of_mem_operators {x : String} (hx : x ∈ operators) : x ∈ reserved := by
  revert x
  decide

namespace Tree

/-- Whether the formula is a negation or a connective. -/
def IsNode : Tree → Prop
  | .name _ => False
  | .negation _ => True
  | .binary .. => True
  | .group _ => False

/-- The formula without the brackets around it. -/
def core : Tree → Tree
  | .name x => .name x
  | .negation t => .negation t
  | .binary c l r => .binary c l r
  | .group t => t.core

/-- The negations and connectives that stand inside another one. -/
def inner : Tree → List Tree
  | .name _ => []
  | .negation t => t.nodes
  | .binary _ l r => l.nodes ++ r.nodes
  | .group t => t.inner

theorem IsNode.nodes_eq {t : Tree} (h : t.IsNode) : t.nodes = t.inner ++ [t] := by
  cases t with
  | name x => exact h.elim
  | negation t => rfl
  | binary c l r => exact (List.append_assoc _ _ _).symm
  | group t => exact h.elim

theorem IsNode.core_eq {t : Tree} (h : t.IsNode) : t.core = t := by
  cases t with
  | name x => exact h.elim
  | negation t => rfl
  | binary c l r => rfl
  | group t => exact h.elim

theorem nodes_core (t : Tree) : t.core.nodes = t.nodes := by
  induction t with
  | group t ih => exact ih
  | _ => rfl

theorem names_core (t : Tree) : t.core.names = t.names := by
  induction t with
  | group t ih => exact ih
  | _ => rfl

theorem value_core (t : Tree) (ρ : String → Bool) : t.core.value ρ = t.value ρ := by
  induction t with
  | group t ih => exact ih
  | _ => rfl

-- Within its brackets a formula is a name, a negation or a connective.
theorem core_cases (t : Tree) : (∃ x, t.core = .name x) ∨ t.core.IsNode := by
  induction t with
  | name x => exact .inl ⟨x, rfl⟩
  | negation t _ => exact .inr trivial
  | binary c l r _ _ => exact .inr trivial
  | group t ih => exact ih

-- The tokens tell whether there is anything else in a formula than a name in brackets.
theorem Fits.isNode_core_iff {k : Nat} {t : Tree} (h : t.Fits k) :
    t.core.IsNode ↔ ∃ x ∈ t.tokens, x ∈ operators := by
  induction t generalizing k with
  | name y =>
    refine iff_of_false id fun hop => ?_
    obtain ⟨x, hx, hop⟩ := hop
    rw [List.mem_singleton.1 hx] at hop
    exact h (mem_reserved_of_mem_operators hop)
  | negation t _ => exact iff_of_true trivial ⟨"!", List.mem_cons_self, by decide⟩
  | binary c l r _ _ =>
    have hop : c.token ∈ operators := by cases c <;> decide
    exact iff_of_true trivial
      ⟨c.token, List.mem_append_right _ List.mem_cons_self, hop⟩
  | group t ih =>
    have hsides : ∀ x, x ∈ (group t).tokens ∧ x ∈ operators ↔ x ∈ t.tokens ∧ x ∈ operators := by
      intro x
      rw [tokens, List.mem_append, List.mem_cons, List.mem_singleton]
      refine and_congr_left fun hop => ?_
      have ho : x ≠ "(" := fun h => absurd (h ▸ hop) (by decide)
      have hc : x ≠ ")" := fun h => absurd (h ▸ hop) (by decide)
      simp only [ho, hc, false_or, or_false]
    exact (ih (k := Connective.loosest) h).trans (exists_congr fun x => (hsides x).symm)

/-! ## What holds of all nodes -/

/-- A property of formulas holds of the nodes below a formula when it passes on to the operands. -/
theorem of_mem_nodes {P : Tree → Prop} (negation : ∀ t, P (.negation t) → P t)
    (left : ∀ c l r, P (.binary c l r) → P l) (right : ∀ c l r, P (.binary c l r) → P r)
    (group : ∀ t, P (.group t) → P t) {t u : Tree} (ht : P t) (hu : u ∈ t.nodes) :
    P u ∧ u.IsNode := by
  induction t with
  | name x => cases hu
  | negation t ih =>
    obtain hu | hu := List.mem_append.1 hu
    · exact ih (negation t ht) hu
    · rw [List.mem_singleton.1 hu]
      exact ⟨ht, trivial⟩
  | binary c l r ihl ihr =>
    obtain hu | hu := List.mem_append.1 hu
    · exact ihl (left c l r ht) hu
    obtain hu | hu := List.mem_append.1 hu
    · exact ihr (right c l r ht) hu
    · rw [List.mem_singleton.1 hu]
      exact ⟨ht, trivial⟩
  | group t ih => exact ih (group t ht) hu

theorem isNode_of_mem_nodes {t u : Tree} (hu : u ∈ t.nodes) : u.IsNode :=
  (of_mem_nodes (P := fun _ => True) (fun _ _ => trivial) (fun _ _ _ _ => trivial)
    (fun _ _ _ _ => trivial) (fun _ _ => trivial) trivial hu).2

theorem nodes_subset {t u : Tree} (hu : u ∈ t.nodes) : u.nodes ⊆ t.nodes := by
  refine (of_mem_nodes (P := fun w => w.nodes ⊆ t.nodes) ?_ ?_ ?_ ?_ (fun _ h => h) hu).1
  · exact fun w h v hv => h (List.mem_append_left _ hv)
  · exact fun c l r h v hv => h (List.mem_append_left _ hv)
  · exact fun c l r h v hv => h (List.mem_append_right _ (List.mem_append_left _ hv))
  · exact fun w h => h

theorem names_subset {t u : Tree} (hu : u ∈ t.nodes) : u.names ⊆ t.names := by
  refine (of_mem_nodes (P := fun w => w.names ⊆ t.names) ?_ ?_ ?_ ?_ (fun _ h => h) hu).1
  · exact fun w h => h
  · exact fun c l r h v hv => h (List.mem_append_left _ hv)
  · exact fun c l r h v hv => h (List.mem_append_right _ hv)
  · exact fun w h => h

/-! ## The length of labels -/

theorem length_negation (t : Tree) : (negation t).label.length = t.label.length + 1 := by
  have hglyph : Symbol.not.glyph.length = 1 := by decide
  rw [label, Label.negation, String.length_append, hglyph, Nat.add_comm]

theorem length_binary (c : Connective) (l r : Tree) :
    (binary c l r).label.length = l.label.length + r.label.length + 3 := by
  have hglyph : (Symbol.connective c).glyph.length = 1 := by cases c <;> decide
  have ho : "(".length = 1 := by decide
  have hc : ")".length = 1 := by decide
  simp only [label, Label.binary, String.length_append, hglyph, ho, hc]
  omega

theorem length_le_group (t : Tree) : t.label.length ≤ (group t).label.length := by
  rw [label, Label.parenthesize]
  split
  · exact Nat.le_refl _
  · simp only [String.length_append]
    omega

theorem length_le_of_mem_nodes {t u : Tree} (hu : u ∈ t.nodes) :
    u.label.length ≤ t.label.length := by
  refine (of_mem_nodes (P := fun w => w.label.length ≤ t.label.length) ?_ ?_ ?_ ?_
    (Nat.le_refl _) hu).1
  · intro w h
    have hw := length_negation w
    omega
  · intro c l r h
    have hw := length_binary c l r
    omega
  · intro c l r h
    have hw := length_binary c l r
    omega
  · intro w h
    have hw := length_le_group w
    omega

theorem length_le_of_mem_names {t : Tree} {x : String} (hx : x ∈ t.names) :
    x.length ≤ t.label.length := by
  induction t with
  | name y =>
    rw [List.mem_singleton.1 hx]
    exact Nat.le_refl _
  | negation t ih =>
    have ht := ih hx
    have hlen := length_negation t
    omega
  | binary c l r ihl ihr =>
    have hlen := length_binary c l r
    obtain hx | hx := List.mem_append.1 hx
    · have hl := ihl hx
      omega
    · have hr := ihr hx
      omega
  | group t ih =>
    have ht := ih hx
    have hlen := length_le_group t
    omega

-- What stands inside a node has a shorter label than the node.
theorem IsNode.length_lt {t u : Tree} (ht : t.IsNode) (hu : u ∈ t.inner) :
    u.label.length < t.label.length := by
  cases t with
  | name x => exact ht.elim
  | negation t =>
    have hle := length_le_of_mem_nodes (t := t) hu
    have hlen := length_negation t
    omega
  | binary c l r =>
    have hlen := length_binary c l r
    obtain hu | hu := List.mem_append.1 hu
    · have hle := length_le_of_mem_nodes hu
      omega
    · have hle := length_le_of_mem_nodes hu
      omega
  | group t => exact ht.elim

theorem IsNode.length_name_lt {t : Tree} {x : String} (ht : t.IsNode) (hx : x ∈ t.names) :
    x.length < t.label.length := by
  cases t with
  | name y => exact ht.elim
  | negation t =>
    have hle := length_le_of_mem_names (t := t) hx
    have hlen := length_negation t
    omega
  | binary c l r =>
    have hlen := length_binary c l r
    obtain hx | hx := List.mem_append.1 hx
    · have hle := length_le_of_mem_names hx
      omega
    · have hle := length_le_of_mem_names hx
      omega
  | group t => exact ht.elim

/-! ## The last record -/

/-- The label of the outermost node is recorded last, and it is new then: it is longer than those
recorded before it, and than the names, which have no record of their own. -/
theorem recorded_concat {t : Tree} {ex : List String} (ht : t.core.IsNode)
    (hex : ∀ x ∈ ex, x ∈ t.names) (ρ : String → Bool) :
    ∃ before, t.recorded ρ ex = before ++ [(t.core.label, t.value ρ)] ∧
      t.core.label ∉ before.map Prod.fst := by
  have hname : t.core.label ∉ ex := by
    intro h
    have hx := hex _ h
    rw [← names_core] at hx
    exact Nat.lt_irrefl _ (ht.length_name_lt hx)
  refine ⟨(t.core.inner.map (reading ρ)).filter fun r => r.1 ∉ ex, ?_, ?_⟩
  · have hroot : [reading ρ t.core].filter (fun r => r.1 ∉ ex) = [(t.core.label, t.value ρ)] := by
      rw [reading, value_core]
      exact List.filter_cons_of_pos (decide_eq_true hname)
    rw [recorded, ← nodes_core, ht.nodes_eq, List.map_append, List.filter_append,
      List.map_singleton, hroot]
  · intro h
    obtain ⟨r, hr, hlabel⟩ := List.mem_map.1 h
    obtain ⟨u, hu, rfl⟩ := List.mem_map.1 (List.mem_filter.1 hr).1
    have hlt := ht.length_lt hu
    rw [show u.label = t.core.label from hlabel] at hlt
    exact Nat.lt_irrefl _ hlt

end Tree

/-! ## What a formula evaluates to -/

/-- The value of a formula together with its trace, where nothing is recorded under the labels
in `ex`. -/
def Tree.evaluation (ρ : String → Bool) (ex : List String) (t : Tree) : Evaluation :=
  ⟨t.value ρ, (Valuation.ofList (t.recorded ρ ex)).entries⟩

section

variable {t : Tree} {ex : List String} {ρ : String → Bool}

theorem outcome_of_tree {ts : List String} {a : Assignment} {limit : Int}
    (h : Tree.ofTokens a.known limit.toNat ts = .ok t) :
    (evaluate ts a ex limit).outcome = .ok (t.evaluation a.truth ex) :=
  evaluate_of_tree h

/-- The labels of a formula have nothing to do with the values of its names. -/
theorem labels_evaluation :
    (t.evaluation ρ ex).labels = ((t.nodes.map Tree.label).filter fun l => l ∉ ex).eraseDups := by
  refine (Valuation.labels_ofList _).trans ?_
  rw [Tree.recorded, List.filter_map, List.filter_map, List.map_map]
  rfl

theorem value?_of_mem_trace {p : String × Bool} (hp : p ∈ (t.evaluation ρ ex).trace) :
    (t.evaluation ρ ex).value? p.1 = some p.2 :=
  Valuation.value?_of_mem (Valuation.nodup_labels_ofList (t.recorded ρ ex)) hp

theorem trace_evaluation_concat (ht : t.core.IsNode) (hex : ∀ x ∈ ex, x ∈ t.names)
    (ρ : String → Bool) :
    ∃ before, (t.evaluation ρ ex).trace = before ++ [(t.core.label, t.value ρ)] := by
  obtain ⟨before, hr, hnew⟩ := Tree.recorded_concat ht hex ρ
  refine ⟨(Valuation.ofList before).entries, ?_⟩
  unfold Tree.evaluation
  rw [hr]
  exact Valuation.entries_ofList_concat hnew

end

end PropTable
