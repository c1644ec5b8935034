import PropTable.Proofs.Implications

/-!
# The counter of open levels

The state of a pass counts the levels that are open. `Task.Runs` follows a rule step by step to its
end and tells which values the counter takes on the way. The steps of a pass leave only so much
freedom, whatever a rule is made of: when it returns, the counter is back where it stood and nothing
but records has been added (`Task.Runs.eq_recordAll`), and the counter never stands higher than the
limit unless an error is raised for it (`Task.Runs.allowed`).
-/

namespace PropTable

namespace Pass

/-- The state with one level closed. -/
def shallower (p : Pass) : Pass := { p with depth := p.depth - 1 }

/-- The state after the pairs are recorded. -/
def recordAll (pairs : List (String × Bool)) (p : Pass) : Pass :=
  ⟨p.depth, (p.valuation.recordAll pairs).2, p.recordings ++ (p.valuation.recordAll pairs).1⟩

theorem recordAll_nil (p : Pass) : p.recordAll [] = p := by
  simp only [recordAll, Valuation.recordAll, List.append_nil]

theorem recordAll_append (ps qs : List (String × Bool)) (p : Pass) :
    p.recordAll (ps ++ qs) = (p.recordAll ps).recordAll qs := by
  simp only [recordAll, Valuation.recordAll_append, List.append_assoc]

end Pass

namespace Task

/-- `Runs task m p counts` says that `m` comes to an end from the state `p`, and that the counter
takes the values `counts` on the way, one after the other. A rule is made of the steps of a pass, of
which only those that open a level move the counter. -/
inductive Runs (task : Task) : {α : Type} → Rule α → Pass → List Nat → Prop where
  | done {α : Type} (a : α) (p : Pass) : Runs task (pure a) p []
  | fail {α : Type} (fault : Fault) (rest : List String) (p : Pass) :
      Runs task (task.fail fault rest : Rule α) p []
  | record (x : Operand) (p : Pass) : Runs task (task.record x) p []
  /-- The level has no room. The counter has gone up when this is found. -/
  | refused {α : Type} {inner : Rule α} {p : Pass} (rest : List String) :
      task.limit < p.deeper.depth → Runs task (task.nested rest inner) p [p.deeper.depth]
  /-- The level is closed whether `inner` returns or not. -/
  | nested {α : Type} {inner : Rule α} {p : Pass} {counts : List Nat} (rest : List String) :
      ¬ task.limit < p.deeper.depth → Runs task inner p.deeper counts →
      Runs task (task.nested rest inner) p
        (p.deeper.depth :: counts ++ [(inner p.deeper).2.shallower.depth])
  | returned {α β : Type} {m : Rule α} {next : α → Rule β} {p q : Pass} {a : α}
      {counts later : List Nat} : Runs task m p counts → m p = (.ok a, q) →
      Runs task (next a) q later → Runs task (m >>= next) p (counts ++ later)
  | raised {α β : Type} {m : Rule α} {next : α → Rule β} {p q : Pass} {err : FormulaError}
      {counts : List Nat} : Runs task m p counts → m p = (.error err, q) →
      Runs task (m >>= next) p counts

variable {task : Task} {α β : Type} {m : Rule α} {p : Pass} {counts : List Nat}

/-! ## Steps of a pass -/

theorem nested_of_lt {rest : List String} (h : task.limit < p.deeper.depth) :
    task.nested rest m p = task.fail .noRoom rest p.deeper := if_pos h

theorem nested_of_not_lt {rest : List String} (h : ¬ task.limit < p.deeper.depth) :
    task.nested rest m p = ((m p.deeper).1, (m p.deeper).2.shallower) := if_neg h

theorem exists_record_eq (task : Task) (x : Operand) (p : Pass) :
    ∃ pairs, task.record x p = (.ok x, p.recordAll pairs) := by
  unfold Task.record
  split
  · exact ⟨[], by rw [Pass.recordAll_nil]⟩
  · exact ⟨[(x.label, x.value)], rfl⟩

/-! ## What every run keeps -/

/-- The last value is the one that the counter has at the end. -/
theorem Runs.getLastD_eq (h : Runs task m p counts) :
    counts.getLastD p.depth = (m p).2.depth := by
  induction h with
  | done a p => rfl
  | fail fault rest p => rfl
  | record x p =>
    obtain ⟨pairs, hx⟩ := exists_record_eq task x p
    rw [hx]
    rfl
  | refused rest hlt =>
    rw [nested_of_lt hlt]
    rfl
  | nested rest hlt _ _ => rw [nested_of_not_lt hlt, List.getLastD_concat]
  | @returned _ _ _ _ _ _ _ counts later _ hm _ ih ih' =>
    rw [hm] at ih
    rw [Rule.bind_apply hm, ← ih', ← ih]
    simp only [List.getLastD_eq_getLast?, List.getLast?_append]
    cases later.getLast? <;> rfl
  | raised _ hm ih => rw [Rule.bind_error hm, ih, hm]

/-- A rule that returns leaves the counter as it was, and has done no more to the trace than to
record in it. -/
theorem Runs.eq_recordAll (h : Runs task m p counts) :
    ∀ a q, m p = (.ok a, q) → ∃ pairs, q = p.recordAll pairs := by
  induction h with
  | done a p =>
    intro b q hq
    rw [← (Prod.mk.inj hq).2]
    exact ⟨[], p.recordAll_nil.symm⟩
  | fail fault rest p =>
    intro b q hq
    cases (Prod.mk.inj hq).1
  | record x p =>
    intro b q hq
    obtain ⟨pairs, hx⟩ := exists_record_eq task x p
    rw [hx] at hq
    exact ⟨pairs, (Prod.mk.inj hq).2.symm⟩
  | refused rest hlt =>
    intro b q hq
    rw [nested_of_lt hlt] at hq
    cases (Prod.mk.inj hq).1
  | nested rest hlt _ ih =>
    intro b q hq
    rw [nested_of_not_lt hlt] at hq
    obtain ⟨hok, rfl⟩ := Prod.mk.inj hq
    -- the level that was opened before the records is closed behind them
    obtain ⟨pairs, hpairs⟩ := ih b _ (Prod.ext hok rfl)
    exact ⟨pairs, congrArg Pass.shallower hpairs⟩
  | returned _ hm _ ih ih' =>
    intro b q hq
    rw [Rule.bind_apply hm] at hq
    obtain ⟨ps, rfl⟩ := ih _ _ hm
    obtain ⟨qs, rfl⟩ := ih' b q hq
    exact ⟨ps ++ qs, (Pass.recordAll_append ps qs _).symm⟩
  | raised _ hm _ =>
    intro b q hq
    rw [Rule.bind_error hm] at hq
    cases (Prod.mk.inj hq).1

/-! ## How high the counter goes -/

/-- The error that a level is too deep was raised. -/
def TooDeep (task : Task) (result : Except FormulaError α) : Prop :=
  ∃ found position, result = .error (.tooDeep task.limit found position)

/-- The height up to which levels are opened from the state `p`. -/
def ceiling (task : Task) (p : Pass) : Nat := max p.depth task.limit.toNat

/-- The counter may take the value `c` in a run with this result: it goes past the bound by one at
most, and only to raise the error that says so. -/
structure Allowed (task : Task) (bound : Nat) (result : Except FormulaError α) (c : Nat) :
    Prop where
  le : c ≤ bound + 1
  tooDeep : bound < c → task.TooDeep result

section

variable {bound c : Nat} {result : Except FormulaError α}

theorem allowed_of_le (h : c ≤ bound) : task.Allowed bound result c :=
  ⟨Nat.le_succ_of_le h, fun hlt => absurd h (Nat.not_le.2 hlt)⟩

theorem Allowed.le_of_ok {a : α} (h : task.Allowed bound (.ok a) c) : c ≤ bound := by
  apply Nat.le_of_not_lt
  intro hlt
  obtain ⟨_, _, herr⟩ := h.tooDeep hlt
  cases herr

theorem Allowed.of_error {err : FormulaError}
    (h : task.Allowed bound (.error err : Except FormulaError α) c) :
    task.Allowed bound (.error err : Except FormulaError β) c := by
  refine ⟨h.le, fun hlt => ?_⟩
  obtain ⟨found, position, herr⟩ := h.tooDeep hlt
  exact ⟨found, position, congrArg Except.error (Except.error.inj herr)⟩

end

-- A level that finds room does not raise the ceiling.
theorem ceiling_deeper (h : ¬ task.limit < p.deeper.depth) :
    task.ceiling p.deeper = task.ceiling p := by
  have hdepth : p.deeper.depth = p.depth + 1 := rfl
  unfold ceiling
  omega

/-- The counter takes no other values than are allowed. -/
theorem Runs.allowed (h : Runs task m p counts) :
    ∀ c ∈ counts, task.Allowed (task.ceiling p) (m p).1 c := by
  induction h with
  | done a p => exact fun c hc => nomatch hc
  | fail fault rest p => exact fun c hc => nomatch hc
  | record x p => exact fun c hc => nomatch hc
  | @refused _ _ p rest hlt =>
    intro c hc
    rw [List.mem_singleton.1 hc, nested_of_lt hlt]
    exact ⟨Nat.succ_le_succ (Nat.le_max_left p.depth _), fun _ => ⟨_, _, rfl⟩⟩
  | @nested _ inner p counts rest hlt hrun ih =>
    rw [ceiling_deeper hlt] at ih
    rw [nested_of_not_lt hlt]
    have hopened : p.deeper.depth ≤ task.ceiling p := by
      rw [← ceiling_deeper hlt]
      exact Nat.le_max_left _ _
    -- inside, the counter ends one too high at most, and then the level is closed
    have hlast : (inner p.deeper).2.depth ≤ task.ceiling p + 1 := by
      rw [← hrun.getLastD_eq]
      obtain h | h := List.mem_cons.1 List.getLastD_mem_cons
      · rw [h]
        exact Nat.le_succ_of_le hopened
      · exact (ih _ h).le
    intro c hc
    obtain hc | hc := List.mem_append.1 hc
    · obtain rfl | hc := List.mem_cons.1 hc
      · exact allowed_of_le hopened
      · exact ih c hc
    · rw [List.mem_singleton.1 hc]
      exact allowed_of_le (Nat.pred_le_iff.2 hlast)
  | returned hrun hm _ ih ih' =>
    obtain ⟨ps, rfl⟩ := hrun.eq_recordAll _ _ hm
    intro c hc
    rw [Rule.bind_apply hm]
    obtain hc | hc := List.mem_append.1 hc
    · have hallowed := ih c hc
      rw [hm] at hallowed
      exact allowed_of_le hallowed.le_of_ok
    · exact ih' c hc
  | raised _ hm ih =>
    intro c hc
    have hallowed := ih c hc
    rw [hm] at hallowed
    rw [Rule.bind_error hm]
    exact hallowed.of_error

end Task

end PropTable
