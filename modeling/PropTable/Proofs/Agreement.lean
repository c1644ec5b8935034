import PropTable.Proofs.Nodes

/-!
# What an evaluation takes from its assignment

Which variables have a value decides whether a formula is refused, and for what; the truth of the
values decides the values that are recorded, and never the labels (`evaluate_congr`). Variables that
are not among the tokens do not matter at all.
-/

namespace PropTable

/-! ## Formulas under values that agree on their names -/

namespace Tree

theorem value_congr {t : Tree} {ρ σ : String → Bool} (h : ∀ x ∈ t.names, ρ x = σ x) :
    t.value ρ = t.value σ := by
  induction t with
  | name x => exact h x (List.mem_singleton_self x)
  | negation t ih => simp only [value, ih h]
  | binary c l r ihl ihr =>
    have hl := ihl fun x hx => h x (List.mem_append_left r.names hx)
    have hr := ihr fun x hx => h x (List.mem_append_right l.names hx)
    simp only [value, hl, hr]
  | group t ih => exact ih h

theorem evaluation_congr {t : Tree} {ρ σ : String → Bool} (ex : List String)
    (h : ∀ x ∈ t.names, ρ x = σ x) : t.evaluation ρ ex = t.evaluation σ ex := by
  have hreadings : t.nodes.map (reading ρ) = t.nodes.map (reading σ) := by
    apply List.map_congr_left
    intro u hu
    have hvalue : u.value ρ = u.value σ := value_congr fun x hx => h x (names_subset hu hx)
    simp only [reading, hvalue]
  simp only [evaluation, recorded, value_congr h, hreadings]

end Tree

/-! ## Scans that know the same variables -/

theorem Stage.step_congr {known known' : String → Bool} {x : String}
    (h : x ∉ reserved → known x = known' x) (bound : Nat) (s : Stage) :
    s.step known bound x = s.step known' bound x := by
  cases s with
  | done levels => rfl
  | due levels =>
    cases hx : Symbol.ofToken? x with
    | none => simp only [step, hx, h ((ofToken?_eq_none_iff x).1 hx)]
    | some symbol => cases symbol <;> simp only [step, hx]

theorem scan_congr {known known' : String → Bool} {ts : List String}
    (h : ∀ x ∈ ts, x ∉ reserved → known x = known' x) (bound : Nat) (s : Stage) :
    scan known bound s ts = scan known' bound s ts := by
  induction ts generalizing s with
  | nil => rfl
  | cons x r ih =>
    have hstep := Stage.step_congr (h x List.mem_cons_self) bound s
    have hrest := ih fun y hy => h y (List.mem_cons_of_mem x hy)
    simp only [scan, hstep, hrest]

/-! ## Evaluations -/

/-- Both attempts fail with one error, or both succeed and record the same labels in the same
order. -/
inductive Alike : Except FormulaError Evaluation → Except FormulaError Evaluation → Prop where
  | refused (err : FormulaError) : Alike (.error err) (.error err)
  | evaluated {e f : Evaluation} : e.labels = f.labels → Alike (.ok e) (.ok f)

section

variable {ts : List String} {a b : Assignment}

-- Two evaluations come to the same tree or to the same error.
theorem outcome_cases (h : ∀ x ∈ ts, x ∉ reserved → a.known x = b.known x) (ex : List String)
    (limit : Int) :
    (∃ t, Derives .equivalence ts t ∧
      (evaluate ts a ex limit).outcome = .ok (t.evaluation a.truth ex) ∧
      (evaluate ts b ex limit).outcome = .ok (t.evaluation b.truth ex)) ∨
    ∃ err, (evaluate ts a ex limit).outcome = .error err ∧
      (evaluate ts b ex limit).outcome = .error err := by
  have hscan := scan_congr h limit.toNat (.due [])
  cases ht : Tree.ofTokens a.known limit.toNat ts with
  | ok t =>
    obtain ⟨hd, hn, hc⟩ := ofTokens_eq_ok_iff.1 ht
    have hb : Covered b.known ts := fun x hx hr => h x hx hr ▸ hc x hx hr
    have hu := ofTokens_eq_ok_iff.2 ⟨hd, hn, hb⟩
    exact .inl ⟨t, hd, outcome_of_tree ht, outcome_of_tree hu⟩
  | error stop =>
    have hv := verdict_scan a.known limit.toNat ts
    rw [ht] at hv
    have hw := hv
    rw [hscan] at hw
    exact .inr ⟨_, evaluate_of_verdict hv, evaluate_of_verdict hw⟩

/-- Assignments that know the same variables of a formula have it refused alike or record the same
labels. If they also agree on the truth of these variables, they come to the same outcome. -/
theorem evaluate_congr (ts : List String) (a b : Assignment) (ex : List String) (limit : Int) :
    ((∀ x ∈ ts, x ∉ reserved → (x ∈ a.names ↔ x ∈ b.names)) →
      Alike (evaluate ts a ex limit).outcome (evaluate ts b ex limit).outcome) ∧
    ((∀ x ∈ ts, x ∉ reserved → a.value? x = b.value? x) →
      (evaluate ts a ex limit).outcome = (evaluate ts b ex limit).outcome) := by
  constructor
  · intro h
    have hknown : ∀ x ∈ ts, x ∉ reserved → a.known x = b.known x := by
      intro x hx hr
      rw [Bool.eq_iff_iff, a.known_iff, b.known_iff]
      exact h x hx hr
    obtain ⟨t, -, ha, hb⟩ | ⟨err, ha, hb⟩ := outcome_cases hknown ex limit
    · rw [ha, hb]
      exact .evaluated (labels_evaluation.trans labels_evaluation.symm)
    · rw [ha, hb]
      exact .refused err
  · intro h
    have hknown : ∀ x ∈ ts, x ∉ reserved → a.known x = b.known x := by
      intro x hx hr
      simp only [Assignment.known, h x hx hr]
    obtain ⟨t, hd, ha, hb⟩ | ⟨err, ha, hb⟩ := outcome_cases hknown ex limit
    · have htruth : ∀ x ∈ t.names, a.truth x = b.truth x := by
        intro x hx
        obtain ⟨hmem, hr⟩ := hd.mem_names_iff.1 hx
        simp only [Assignment.truth, h x hmem hr]
      rw [ha, hb, Tree.evaluation_congr ex htruth]
    · rw [ha, hb]

end

-- The second assignment differs from the first in data but not in truth, and the third in truth.
theorem evaluate_congr_of_other_data :
    (evaluate ["A", "->", "!", "B", "&&", "A"] [("B", .text ""), ("C", .null), ("A", .int 2)]
        ["A", "B"] 1).outcome =
      .ok ⟨true, [("¬B", true), ("(¬B∧A)", true), ("(A→(¬B∧A))", true)]⟩ ∧
    Alike
      (evaluate ["A", "->", "!", "B", "&&", "A"] [("A", .flag true), ("B", .flag false)]
        ["A", "B"] 1).outcome
      (evaluate ["A", "->", "!", "B", "&&", "A"] [("A", .flag false), ("B", .flag false)]
        ["A", "B"] 1).outcome := by
  have hread : Tree.ofTokens (Assignment.known [("A", .flag true), ("B", .flag false)]) 1
      ["A", "->", "!", "B", "&&", "A"] = .ok _ :=
    ofTokens_tokens (t := .binary .implies (.name "A")
      (.binary .and (.negation (.name "B")) (.name "A"))) (by decide) (by decide) (by decide)
  have hfirst := @outcome_of_tree _ ["A", "B"] _ [("A", .flag true), ("B", .flag false)] 1 hread
  constructor
  · rw [← (evaluate_congr ["A", "->", "!", "B", "&&", "A"]
      [("A", .flag true), ("B", .flag false)] _ ["A", "B"] 1).2 (by decide)]
    exact hfirst
  · exact (evaluate_congr _ _ _ _ _).1 (by decide)

end PropTable
