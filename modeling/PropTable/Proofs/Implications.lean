import PropTable.Proofs.Language
import PropTable.Proofs.SinglePass

/-!
# Chains of implications

A single pass does what reading and recording one after the other do (`evaluateInOnePass_eq`): at
each phrase it records the negations and connectives of the tree that is read there, and where
reading stops it has recorded those that were complete. This holds for both ways to read a chain of
implications, so the two ways agree (`loop_eq_recursion`).
-/

namespace PropTable

theorem Connective.groupsRight_eq_of_rank_eq {c d : Connective} (h : c.rank = d.rank) :
    c.groupsRight = d.groupsRight := by
  cases c <;> cases d <;> first | rfl | exact absurd h (by decide)

theorem Valuation.recordAll_append (v : Valuation) (ps qs : List (String × Bool)) :
    v.recordAll (ps ++ qs) =
      ((v.recordAll ps).1 ++ ((v.recordAll ps).2.recordAll qs).1,
        ((v.recordAll ps).2.recordAll qs).2) := by
  induction ps generalizing v with
  | nil => rfl
  | cons p ps ih => simp only [List.cons_append, recordAll, ih]

namespace Task

/-! ## What a pass keeps of a tree -/

/-- What a pass keeps of the phrase with the tree `t`. -/
def operandOf (task : Task) (t : Tree) : Operand :=
  ⟨t.value task.assignment.truth, t.label⟩

/-- The state after the negations and connectives `ts` are recorded. -/
def recordNodes (task : Task) (ts : List Tree) (p : Pass) : Pass :=
  let readings := withoutLabels task.excluded (ts.map (Tree.reading task.assignment.truth))
  ⟨p.depth, (p.valuation.recordAll readings).2,
    p.recordings ++ (p.valuation.recordAll readings).1⟩

variable {task : Task} {p : Pass} {m n : Nat}

theorem recordNodes_nil (p : Pass) : task.recordNodes [] p = p := by
  simp only [recordNodes, withoutLabels, List.map_nil, List.filter_nil, Valuation.recordAll,
    List.append_nil]

theorem recordNodes_append (ts us : List Tree) (p : Pass) :
    task.recordNodes (ts ++ us) p = task.recordNodes us (task.recordNodes ts p) := by
  simp only [recordNodes, withoutLabels, List.map_append, List.filter_append,
    Valuation.recordAll_append, List.append_assoc]

theorem record_node (t : Tree) (p : Pass) :
    task.record (task.operandOf t) p = (.ok (task.operandOf t), task.recordNodes [t] p) := by
  rw [record, operandOf, recordNodes, List.map_singleton, Tree.reading, withoutLabels]
  by_cases h : task.excluded.contains t.label = true
  · rw [if_pos h, List.filter_cons_of_neg (by rw [h]; decide)]
    simp only [List.filter_nil, Valuation.recordAll, List.append_nil]
  · rw [if_neg h, List.filter_cons_of_pos (by rw [Bool.not_eq_true] at h; rw [h]; decide)]
    rfl

/-! ## What a rule does and what a reader finds -/

/-- From the state `p` a rule comes to what a reader found: to the same phrase, or to an error at
the same place. It records what is complete of the phrase by then and not among `done` already. -/
def Matches (task : Task) (done : List Tree) (p : Pass)
    (result : Except FormulaError (Operand.Before n) × Pass) :
    Except Stop (Tree × List String) → Prop
  | .ok (t, rest) => ∃ new h, t.nodes = done ++ new ∧
      result = (.ok ⟨task.operandOf t, rest, h⟩, task.recordNodes new p)
  | .error stop => ∃ new q, stop.nodes = done ++ new ∧
      result = (.error (stop.error task.total task.limit), q) ∧
      q.recordings = (task.recordNodes new p).recordings

section

variable {done : List Tree} {t : Tree} {rest : List String} {stop : Stop}
  {found : Except Stop (Tree × List String)} {inner : Rule (Operand.Before m)}
  {next : Operand.Before m → Rule (Operand.Before n)}

theorem matches_return (t : Tree) (h : rest.length < n) (p : Pass) :
    Matches task t.nodes p ((pure ⟨task.operandOf t, rest, h⟩ : Rule _) p) (.ok (t, rest)) := by
  refine ⟨[], h, (List.append_nil _).symm, ?_⟩
  rw [recordNodes_nil]
  rfl

theorem matches_fail (stop : Stop) (p : Pass) (h : stop.nodes = done) :
    Matches (n := n) task done p (task.fail stop.fault stop.rest p) (.error stop) := by
  refine ⟨[], p, ?_, rfl, ?_⟩
  · rw [h, List.append_nil]
  · rw [recordNodes_nil]

-- Nodes that are recorded on the way count as done from there on.
theorem Matches.shift {new : List Tree} {result : Except FormulaError (Operand.Before n) × Pass}
    (h : Matches task (done ++ new) (task.recordNodes new p) result found) :
    Matches task done p result found := by
  cases found with
  | error stop =>
    obtain ⟨later, q, hnodes, hresult, hq⟩ := h
    refine ⟨new ++ later, q, ?_, hresult, ?_⟩
    · rw [hnodes, List.append_assoc]
    · rw [hq, recordNodes_append]
  | ok found =>
    obtain ⟨later, hshort, hnodes, hresult⟩ := h
    refine ⟨new ++ later, hshort, ?_, ?_⟩
    · rw [hnodes, List.append_assoc]
    · rw [hresult, recordNodes_append]

theorem Matches.after {result : Except FormulaError (Operand.Before n) × Pass}
    (h : Matches task [] p result (.error stop)) (left : Tree) :
    Matches task left.nodes p result (.error (stop.after left)) := by
  obtain ⟨new, q, hnodes, hresult, hq⟩ := h
  exact ⟨new, q, congrArg (left.nodes ++ ·) hnodes, hresult, hq⟩

theorem Matches.bind_error (h : Matches task done p (inner p) (.error stop)) :
    Matches task done p ((inner >>= next) p) (.error stop) := by
  obtain ⟨new, q, hnodes, hresult, hq⟩ := h
  exact ⟨new, q, hnodes, Rule.bind_error hresult, hq⟩

theorem Matches.bind_ok (h : Matches task [] p (inner p) (.ok (t, rest)))
    (hnext : ∀ hshort, Matches task (done ++ t.nodes) (task.recordNodes t.nodes p)
      (next ⟨task.operandOf t, rest, hshort⟩ (task.recordNodes t.nodes p)) found) :
    Matches task done p ((inner >>= next) p) found := by
  obtain ⟨new, hshort, hnodes, hresult⟩ := h
  rw [List.nil_append] at hnodes
  subst hnodes
  rw [Rule.bind_apply hresult]
  exact (hnext hshort).shift

theorem Matches.record {next : Operand → Rule (Operand.Before n)}
    (h : Matches task (done ++ [t]) (task.recordNodes [t] p)
      (next (task.operandOf t) (task.recordNodes [t] p)) found) :
    Matches task done p ((task.record (task.operandOf t) >>= next) p) found := by
  rw [Rule.bind_apply (record_node t p)]
  exact h.shift

theorem Matches.mono (h : Matches task done p (inner p) found) (hmn : m ≤ n) :
    Matches task done p ((inner >>= fun x => pure (x.mono hmn)) p) found := by
  cases found with
  | error stop => exact h.bind_error
  | ok found =>
    obtain ⟨new, hshort, hnodes, hresult⟩ := h
    exact ⟨new, Nat.lt_of_lt_of_le hshort hmn, hnodes, Rule.bind_apply hresult⟩

theorem Matches.nested (hd : p.depth < task.limit.toNat)
    (h : Matches task done p.deeper (inner p.deeper) found) :
    Matches task done p (task.nested rest inner p) found := by
  have hlt : ¬ task.limit < p.deeper.depth := by
    change ¬ task.limit < (p.depth + 1 : Nat)
    omega
  cases found with
  | error stop =>
    obtain ⟨new, q, hnodes, hresult, hq⟩ := h
    refine ⟨new, { q with depth := q.depth - 1 }, hnodes, ?_, hq⟩
    rw [Task.nested, if_neg hlt, hresult]
  | ok found =>
    obtain ⟨new, hshort, hnodes, hresult⟩ := h
    refine ⟨new, hshort, hnodes, ?_⟩
    rw [Task.nested, if_neg hlt, hresult]
    rfl

theorem matches_noRoom (hd : task.limit.toNat ≤ p.depth) (rest : List String)
    (inner : Rule (Operand.Before m)) :
    Matches task [] p (task.nested rest inner p) (.error ⟨.noRoom, rest, []⟩) := by
  have hlt : task.limit < p.deeper.depth := by
    change task.limit < (p.depth + 1 : Nat)
    omega
  refine ⟨[], p.deeper, rfl, ?_, ?_⟩
  · rw [Task.nested, if_pos hlt]
    rfl
  · rw [recordNodes_nil]
    rfl

end

/-! ## Operands -/

/-- The rule for phrases of rank `k` does what the reader with `room` levels left finds. -/
def PhraseMatched (task : Task) (room k : Nat) (ts : List String) : Prop :=
  ∀ p : Pass, room + p.depth = task.limit.toNat →
    Matches task [] p (task.phrase k ts p) (readPhrase task.assignment.known room k ts)

theorem PhraseMatched.nested {room k : Nat} {ts : List String} (h : PhraseMatched task room k ts)
    (hp : room + 1 + p.depth = task.limit.toNat) (rest : List String) :
    Matches task [] p (task.nested rest (task.phrase k ts) p)
      (readPhrase task.assignment.known room k ts) := by
  apply Matches.nested (by omega)
  apply h
  change room + (p.depth + 1) = task.limit.toNat
  omega

theorem phrase_zero (ts : List String) : task.phrase 0 ts = task.operand ts := by
  rw [phrase.eq_def]

theorem negation_matched {room : Nat} {r : List String} (hr : PhraseMatched task room 0 r)
    (hp : room + 1 + p.depth = task.limit.toNat) :
    Matches task [] p (task.operand ("!" :: r) p)
      (readOperand task.assignment.known (room + 1) ("!" :: r)) := by
  have hx : Symbol.ofToken? "!" = some .not := by decide
  have hin := hr.nested hp ("!" :: r)
  rw [readPhrase_zero, phrase_zero] at hin
  rw [readOperand_negation, operand.eq_def]
  simp only [hx]
  cases hu : readOperand task.assignment.known room r with
  | error stop =>
    rw [hu] at hin
    exact hin.bind_error
  | ok found =>
    obtain ⟨t, rest⟩ := found
    rw [hu] at hin
    refine hin.bind_ok fun hshort => ?_
    exact Matches.record (t := .negation t) (matches_return (.negation t) _ _)

theorem bracket_matched {room : Nat} {r : List String}
    (hr : PhraseMatched task room Connective.loosest r)
    (hp : room + 1 + p.depth = task.limit.toNat) :
    Matches task [] p (task.operand ("(" :: r) p)
      (readOperand task.assignment.known (room + 1) ("(" :: r)) := by
  have hx : Symbol.ofToken? "(" = some .leftParen := by decide
  have hin := hr.nested hp ("(" :: r)
  rw [readOperand_bracket, operand.eq_def]
  simp only [hx]
  cases hu : readPhrase task.assignment.known room Connective.loosest r with
  | error stop =>
    rw [hu] at hin
    exact hin.bind_error
  | ok found =>
    obtain ⟨t, rest⟩ := found
    rw [hu] at hin
    refine hin.bind_ok fun hshort => ?_
    cases rest with
    | nil => exact matches_fail ⟨.closingExpected, [], [t]⟩ _ (List.append_nil t.nodes)
    | cons u rest =>
      by_cases hclose : u = ")"
      · subst hclose
        exact matches_return (.group t) _ _
      · have hs : ¬ Symbol.ofToken? u = some .rightParen :=
          fun h => hclose (Symbol.spelling_of_ofToken? h).symm
        simp only [if_neg hclose, if_neg hs]
        exact matches_fail ⟨.closingExpected, u :: rest, [t]⟩ _ (List.append_nil t.nodes)

theorem operand_matched (room : Nat) (ts : List String)
    (ih : ∀ room k r, r.length < ts.length → PhraseMatched task room k r) :
    PhraseMatched task room 0 ts := by
  intro p hp
  rw [readPhrase_zero, phrase_zero]
  match ts, room with
  | [], _ =>
    rw [readOperand_nil, operand.eq_def]
    exact matches_fail ⟨.operandExpected, [], []⟩ p rfl
  | x :: r, room =>
    have ihr := fun room k => ih room k r (Nat.lt_succ_self _)
    rcases operand_cases x with hx | hx | hx
    · rw [readOperand_name _ room hx, operand.eq_def, Assignment.known]
      simp only [(ofToken?_eq_none_iff x).2 hx]
      cases hv : task.assignment.value? x with
      | none => exact matches_fail ⟨.unknownName x, x :: r, []⟩ p rfl
      | some value =>
        obtain rfl : value = task.assignment.truth x := by
          rw [Assignment.truth, hv, Option.getD_some]
        exact matches_return (.name x) (Nat.lt_succ_self r.length) p
    · match room with
      | 0 =>
        have hd : task.limit.toNat ≤ p.depth := by omega
        rw [readOperand_noRoom _ hx, operand.eq_def]
        rcases hx with rfl | rfl
        · simp only [show Symbol.ofToken? "!" = some .not by decide]
          exact (matches_noRoom hd _ _).bind_error
        · simp only [show Symbol.ofToken? "(" = some .leftParen by decide]
          exact (matches_noRoom hd _ _).bind_error
      | room + 1 =>
        rcases hx with rfl | rfl
        · exact negation_matched (ihr room 0) hp
        · exact bracket_matched (ihr room _) hp
    · rw [readOperand_other _ room hx, operand.eq_def]
      rcases hx with rfl | ⟨c, rfl⟩
      · simp only [show Symbol.ofToken? ")" = some .rightParen by decide]
        exact matches_fail ⟨.operandExpected, ")" :: r, []⟩ p rfl
      · simp only [Connective.token, Symbol.ofToken?_spelling]
        exact matches_fail ⟨.operandExpected, c.token :: r, []⟩ p rfl

/-! ## Chains -/

/-- The phrase that starts with the operand `l` and the connective `c`, where `found` stands behind
these. -/
def enclose (l : Tree) (c : Connective) :
    Except Stop (Tree × List String) → Except Stop (Tree × List String)
  | .ok (r, rest) => .ok (.binary c l r, rest)
  | .error stop => .error (stop.after l)

theorem readChain_enclose {known : String → Bool} {room k : Nat} {c : Connective}
    (hc : c.rank = k + 1) (hg : c.groupsRight = true) (left : Tree) (r : List String) :
    readChain known room k left (c.token :: r) =
      enclose left c (readPhrase known room (k + 1) r) := by
  rw [readChain_right known room k hc hg]
  cases readPhrase known room (k + 1) r <;> rfl

/-- The phrase that starts with the operands that wait, the latest of them first, each with the
connective behind it. -/
def encloseAll : List (Tree × Connective) → Except Stop (Tree × List String) →
    Except Stop (Tree × List String)
  | [], found => found
  | (l, c) :: waiting, found => encloseAll waiting (enclose l c found)

/-- The negations and connectives of the operands that wait, from left to right. -/
def waitingNodes : List (Tree × Connective) → List Tree
  | [] => []
  | (l, _) :: waiting => waitingNodes waiting ++ l.nodes

/-- What a pass keeps of the operands that wait. -/
def waitingOf (task : Task) (waiting : List (Tree × Connective)) : List (Operand × Connective) :=
  waiting.map fun w => (task.operandOf w.1, w.2)

/-- The rule for chains does what the chain reader finds. The operand in front of the chain is
complete already. -/
def ChainMatched (task : Task) (room k : Nat) (ts : List String) : Prop :=
  ∀ (p : Pass) (left : Tree), room + p.depth = task.limit.toNat →
    Matches task left.nodes p (task.chain k (task.operandOf left) ts p)
      (readChain task.assignment.known room k left ts)

/-- Where chains group from the right, the loop does what the chain reader finds behind the last
operand, and joins the operands that wait for it. -/
def LoopMatched (task : Task) (room k : Nat) (ts : List String) : Prop :=
  ∀ (p : Pass) (waiting : List (Tree × Connective)) (last : Tree),
    (∀ c : Connective, c.rank = k + 1 → c.groupsRight = true) →
    room + p.depth = task.limit.toNat →
    Matches task (waitingNodes waiting ++ last.nodes) p
      (task.collect k (task.waitingOf waiting) (task.operandOf last) ts p)
      (encloseAll waiting (readChain task.assignment.known room k last ts))

theorem finish_matched (ts : List String) (waiting : List (Tree × Connective)) (last : Tree)
    (p : Pass) :
    Matches task (waitingNodes waiting ++ last.nodes) p
      (task.finish ts (task.waitingOf waiting) (task.operandOf last) p)
      (encloseAll waiting (.ok (last, ts))) := by
  induction waiting generalizing last p with
  | nil => exact matches_return last (Nat.lt_succ_self ts.length) p
  | cons w waiting ih =>
    obtain ⟨l, c⟩ := w
    have hjoin := ih (.binary c l last) (task.recordNodes [.binary c l last] p)
    rw [Tree.nodes, ← List.append_assoc, ← List.append_assoc] at hjoin
    exact hjoin.record

-- Where reading stops, the operands that wait are complete.
theorem Matches.encloseAll {done : List Tree} {stop : Stop}
    {result : Except FormulaError (Operand.Before n) × Pass}
    (h : Matches task done p result (.error stop)) (waiting : List (Tree × Connective)) :
    Matches task (waitingNodes waiting ++ done) p result
      (Task.encloseAll waiting (.error stop)) := by
  induction waiting generalizing stop done with
  | nil => exact h
  | cons w waiting ih =>
    obtain ⟨l, c⟩ := w
    obtain ⟨new, q, hnodes, hresult, hq⟩ := h
    have hl : Matches task (l.nodes ++ done) p result (.error (stop.after l)) := by
      refine ⟨new, q, ?_, hresult, hq⟩
      rw [List.append_assoc, ← hnodes]
      rfl
    rw [waitingNodes, List.append_assoc]
    exact ih hl

theorem phrase_matched (room k : Nat) (ts : List String) (ih : PhraseMatched task room k ts)
    (ihc : ∀ r, r.length < ts.length → ChainMatched task room k r ∧ LoopMatched task room k r) :
    PhraseMatched task room (k + 1) ts := by
  intro p hp
  have hleft := ih p hp
  rw [readPhrase_succ, phrase.eq_def]
  cases hl : readPhrase task.assignment.known room k ts with
  | error stop =>
    rw [hl] at hleft
    exact hleft.bind_error
  | ok found =>
    obtain ⟨left, rest⟩ := found
    rw [hl] at hleft
    refine hleft.bind_ok fun hshort => ?_
    exact ((ihc rest hshort).1 (task.recordNodes left.nodes p) left hp).mono _

theorem collect_stop {k : Nat} {ts : List String}
    (h : ∀ c r, ts = Connective.token c :: r → c.rank ≠ k + 1)
    (waiting : List (Operand × Connective)) (last : Operand) :
    task.collect k waiting last ts = task.finish ts waiting last := by
  rw [collect.eq_def]
  cases ts with
  | nil => rfl
  | cons x r =>
    cases hx : connective? x with
    | none => simp only [hx]
    | some c =>
      have hc := h c r (by rw [token_of_connective? hx])
      simp only [hx, if_neg hc]

theorem loop_matched (room k : Nat) (ts : List String)
    (ih : ∀ j r, r.length < ts.length → PhraseMatched task room j r)
    (ihc : ∀ r, r.length < ts.length → ChainMatched task room k r ∧ LoopMatched task room k r) :
    LoopMatched task room k ts := by
  intro p waiting last hright hp
  by_cases hc : ∃ c r, ts = Connective.token c :: r ∧ c.rank = k + 1
  · obtain ⟨c, r, rfl, hc⟩ := hc
    have hnext := ih k r (Nat.lt_succ_self r.length) p hp
    rw [readChain_enclose hc (hright c hc), readPhrase_succ, collect.eq_def]
    simp only [connective?_token, if_pos hc]
    cases hr : readPhrase task.assignment.known room k r with
    | error stop =>
      rw [hr] at hnext
      exact ((hnext.bind_error).after last).encloseAll waiting
    | ok found =>
      obtain ⟨next, rest⟩ := found
      rw [hr] at hnext
      refine hnext.bind_ok fun hshort => ?_
      -- the operand that was the last one waits from here on
      have hrest := (ihc rest (Nat.lt_succ_of_lt hshort)).2 (task.recordNodes next.nodes p)
        ((last, c) :: waiting) next hright hp
      exact hrest.mono _
  · have hstop : ∀ c r, ts = Connective.token c :: r → c.rank ≠ k + 1 :=
      fun c r h₁ h₂ => hc ⟨c, r, h₁, h₂⟩
    rw [readChain_stop _ room k last hstop, collect_stop hstop]
    exact finish_matched ts waiting last p

theorem chain_stop {k : Nat} {ts : List String}
    (h : ∀ c r, ts = Connective.token c :: r → c.rank ≠ k + 1) (left : Operand) :
    task.chain k left ts = return ⟨left, ts, Nat.lt_succ_self ts.length⟩ := by
  rw [chain.eq_def]
  cases ts with
  | nil => rfl
  | cons x r =>
    cases hx : connective? x with
    | none => simp only [hx]
    | some c =>
      have hc := h c r (by rw [token_of_connective? hx])
      simp only [hx, if_neg hc]

theorem chain_matched (room k : Nat) (ts : List String)
    (ih : ∀ j r, r.length < ts.length → PhraseMatched task room j r)
    (ihc : ∀ r, r.length < ts.length → ChainMatched task room k r ∧ LoopMatched task room k r) :
    ChainMatched task room k ts := by
  intro p left hp
  by_cases hc : ∃ c r, ts = Connective.token c :: r ∧ c.rank = k + 1
  · obtain ⟨c, r, rfl, hc⟩ := hc
    have hlt := Nat.lt_succ_self r.length
    rw [chain.eq_def]
    simp only [connective?_token, if_pos hc]
    cases hg : c.groupsRight with
    | true =>
      have hright : ∀ d : Connective, d.rank = k + 1 → d.groupsRight = true := by
        intro d hd
        rw [Connective.groupsRight_eq_of_rank_eq (hd.trans hc.symm), hg]
      cases hw : task.chaining with
      | loop => exact loop_matched room k _ ih ihc p [] left hright hp
      | recursion =>
        have hnext := ih (k + 1) r hlt p hp
        rw [readChain_enclose hc hg]
        cases hr : readPhrase task.assignment.known room (k + 1) r with
        | error stop =>
          rw [hr] at hnext
          exact (hnext.bind_error).after left
        | ok found =>
          obtain ⟨right, rest⟩ := found
          rw [hr] at hnext
          refine hnext.bind_ok fun hshort => ?_
          apply Matches.record (t := .binary c left right)
          rw [List.append_assoc]
          exact matches_return (.binary c left right) _ _
    | false =>
      have hnext := ih k r hlt p hp
      rw [readChain_left _ room k hc hg]
      cases hr : readPhrase task.assignment.known room k r with
      | error stop =>
        rw [hr] at hnext
        exact (hnext.bind_error).after left
      | ok found =>
        obtain ⟨right, rest⟩ := found
        rw [hr] at hnext
        refine hnext.bind_ok fun hshort => ?_
        apply Matches.record (t := .binary c left right)
        rw [List.append_assoc]
        have hrest := (ihc rest (Nat.lt_succ_of_lt hshort)).1
          (task.recordNodes [.binary c left right] (task.recordNodes right.nodes p))
          (.binary c left right) hp
        exact hrest.mono _
  · have hstop : ∀ c r, ts = Connective.token c :: r → c.rank ≠ k + 1 :=
      fun c r h₁ h₂ => hc ⟨c, r, h₁, h₂⟩
    rw [readChain_stop _ room k left hstop, chain_stop hstop]
    exact matches_return left _ p

theorem readPhrase_matched (room k : Nat) (ts : List String) : PhraseMatched task room k ts :=
  (reading_induction operand_matched phrase_matched
    (fun room k ts ih ihc => ⟨chain_matched room k ts ih ihc, loop_matched room k ts ih ihc⟩)
    room k ts).1

end Task

/-! ## Whole token lists -/

/-- A single pass has the outcome of reading the formula first, and records the same on the way. -/
theorem evaluateInOnePass_eq (chaining : Chaining) (ts : List String) (a : Assignment)
    (ex : List String) (limit : Int) :
    evaluateInOnePass chaining ts a ex limit = evaluate ts a ex limit := by
  let task : Task := ⟨chaining, a, ex, limit, ts.length⟩
  have hpass : Task.Matches task [] .initial (task.phrase Connective.loosest ts .initial)
      (readPhrase a.known limit.toNat Connective.loosest ts) :=
    Task.readPhrase_matched limit.toNat Connective.loosest ts .initial (Nat.add_zero _)
  have hread := ofTokens_eq a.known limit.toNat ts
  have heta : evaluate ts a ex limit =
      ⟨(evaluate ts a ex limit).recordings, (evaluate ts a ex limit).outcome⟩ := rfl
  unfold evaluateInOnePass
  match hr : readPhrase a.known limit.toNat Connective.loosest ts with
  | .error stop =>
    rw [hr] at hpass hread
    obtain ⟨new, q, hnodes, hresult, hq⟩ := hpass
    rw [heta, recordings_of_stop hread, evaluate_of_stop hread, hnodes]
    simp only [task] at hresult hq
    simp only [hresult, hq]
    rfl
  | .ok (t, []) =>
    rw [hr] at hpass hread
    obtain ⟨new, hshort, hnodes, hresult⟩ := hpass
    rw [heta, recordings_of_tree hread, evaluate_of_tree hread, t.recorded_eq, hnodes,
      Valuation.ofList, ← Valuation.recordAll_snd]
    simp only [task] at hresult
    simp only [hresult]
    rfl
  | .ok (t, x :: rest) =>
    rw [hr] at hpass hread
    obtain ⟨new, hshort, hnodes, hresult⟩ := hpass
    have hstop : Stop.nodes ⟨.operatorExpected, x :: rest, [t]⟩ = new :=
      (List.append_nil t.nodes).trans hnodes
    rw [heta, recordings_of_stop hread, evaluate_of_stop hread, hstop]
    simp only [task] at hresult
    simp only [hresult]
    rfl

/-- Chains of implications may be read by recursion, as the grammar has it, or by a loop that joins
the operands at the end. The outcome is the same, and so is the sequence of records up to it, be it
a value or an error; and both are those of `evaluate`. -/
theorem loop_eq_recursion (ts : List String) (a : Assignment) (ex : List String) (limit : Int) :
    evaluateInOnePass .loop ts a ex limit = evaluateInOnePass .recursion ts a ex limit ∧
      evaluateInOnePass .loop ts a ex limit = evaluate ts a ex limit := by
  rw [evaluateInOnePass_eq, evaluateInOnePass_eq]
  exact ⟨rfl, rfl⟩

end PropTable
