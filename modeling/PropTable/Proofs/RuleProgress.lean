import PropTable.Proofs.Brackets
import PropTable.Proofs.LevelCounter

/-!
# How the rules of the grammar go forward

Each rule of the grammar comes to an end in front of every token list, be it a formula or not
(`Task.rule_settles`), since a token is taken before a rule is called that is no tighter. If it
returns, the tokens that it has taken hold both brackets of each pair. With what every run keeps,
this says how far a rule moves, and what it leaves behind (`Task.rule_progress`).
-/

namespace PropTable

-- Records move no label that is there.
theorem Valuation.labels_prefix_recordAll (v : Valuation) (pairs : List (String × Bool)) :
    v.labels <+: (v.recordAll pairs).2.labels := by
  induction pairs generalizing v with
  | nil => exact List.prefix_rfl
  | cons p pairs ih =>
    refine List.IsPrefix.trans ?_ (ih (v.record p.1 p.2))
    rw [labels_record]
    split
    · exact List.prefix_rfl
    · exact List.prefix_append _ _

namespace Task

variable {task : Task} {α β : Type} {p q : Pass}

/-! ## Rules that come to an end -/

/-- From each state `m` comes to an end, and what it returns satisfies `Q`. -/
structure Settles (task : Task) (m : Rule α) (Q : α → Prop) : Prop where
  runs : ∀ p, ∃ counts, Runs task m p counts
  returns : ∀ p q a, m p = (.ok a, q) → Q a

section

variable {m : Rule α} {Q : α → Prop} {R : β → Prop}

theorem settles_return {a : α} (h : Q a) : task.Settles (pure a) Q := by
  refine ⟨fun p => ⟨[], .done a p⟩, fun p q b hb => ?_⟩
  rw [← Except.ok.inj (Prod.mk.inj hb).1]
  exact h

theorem settles_fail (fault : Fault) (rest : List String) :
    task.Settles (task.fail fault rest) Q := by
  refine ⟨fun p => ⟨[], .fail fault rest p⟩, fun p q b hb => ?_⟩
  cases (Prod.mk.inj hb).1

theorem settles_record (x : Operand) : task.Settles (task.record x) fun _ => True :=
  ⟨fun p => ⟨[], .record x p⟩, fun _ _ _ _ => trivial⟩

theorem Settles.nested (h : task.Settles m Q) (rest : List String) :
    task.Settles (task.nested rest m) Q := by
  constructor
  · intro p
    by_cases hlt : task.limit < p.deeper.depth
    · exact ⟨_, .refused rest hlt⟩
    · obtain ⟨counts, hrun⟩ := h.runs p.deeper
      exact ⟨_, .nested rest hlt hrun⟩
  · intro p q a ha
    by_cases hlt : task.limit < p.deeper.depth
    · rw [nested_of_lt hlt] at ha
      cases (Prod.mk.inj ha).1
    · rw [nested_of_not_lt hlt] at ha
      exact h.returns p.deeper _ a (Prod.ext (Prod.mk.inj ha).1 rfl)

theorem Settles.bind {next : α → Rule β} (hm : task.Settles m Q)
    (hnext : ∀ a, Q a → task.Settles (next a) R) : task.Settles (m >>= next) R := by
  constructor
  · intro p
    obtain ⟨counts, hrun⟩ := hm.runs p
    match hp : m p with
    | (.error err, q) => exact ⟨counts, .raised hrun hp⟩
    | (.ok a, q) =>
      obtain ⟨later, hlater⟩ := (hnext a (hm.returns p q a hp)).runs q
      exact ⟨_, .returned hrun hp hlater⟩
  · intro p q b hb
    match hp : m p with
    | (.error err, r) =>
      rw [Rule.bind_error hp] at hb
      cases (Prod.mk.inj hb).1
    | (.ok a, r) =>
      rw [Rule.bind_apply hp] at hb
      exact (hnext a (hm.returns p r a hp)).returns r q b hb

end

/-! ## What a rule consumes -/

/-- What stands in front of `rest` in `ts` holds both brackets of each pair. -/
def Consumes (ts rest : List String) : Prop :=
  ∃ read, ts = read ++ rest ∧ Matched read

namespace Consumes

variable {ts us rest : List String}

theorem refl (ts : List String) : Consumes ts ts := ⟨[], rfl, by decide⟩

theorem trans (h : Consumes ts us) (h' : Consumes us rest) : Consumes ts rest := by
  obtain ⟨read, rfl, hm⟩ := h
  obtain ⟨later, rfl, hm'⟩ := h'
  exact ⟨read ++ later, (List.append_assoc read later rest).symm, hm.append hm'⟩

theorem cons {x : String} (ho : x ≠ "(") (hc : x ≠ ")") (h : Consumes ts rest) :
    Consumes (x :: ts) rest := by
  obtain ⟨read, rfl, hm⟩ := h
  exact ⟨x :: read, rfl, hm.cons ho hc⟩

theorem bracketed (h : Consumes ts (")" :: rest)) : Consumes ("(" :: ts) rest := by
  obtain ⟨read, rfl, hm⟩ := h
  refine ⟨PropTable.bracketed read, ?_, hm.bracketed⟩
  rw [PropTable.bracketed, List.append_assoc]
  rfl

end Consumes

/-- The rule for phrases of rank `k` comes to an end in front of `ts`. -/
def PhraseSettles (task : Task) (k : Nat) (ts : List String) : Prop :=
  task.Settles (task.phrase k ts) fun x => Consumes ts x.rest

/-- A chain comes to an end in front of `ts`, be its operands joined at once or at its end. -/
structure ChainSettles (task : Task) (k : Nat) (ts : List String) : Prop where
  chain : ∀ left, task.Settles (task.chain k left ts) fun x => Consumes ts x.rest
  collect : ∀ waiting last,
    task.Settles (task.collect k waiting last ts) fun x => Consumes ts x.rest

theorem PhraseSettles.operand (ts : List String)
    (ih : ∀ k r, r.length < ts.length → task.PhraseSettles k r) : task.PhraseSettles 0 ts := by
  unfold PhraseSettles
  rw [phrase_zero, operand.eq_def]
  match ts with
  | [] => exact settles_fail _ _
  | x :: r =>
    have ihr := fun k => ih k r (Nat.lt_succ_self _)
    rcases token_cases x with hx | rfl | rfl | rfl | ⟨c, rfl⟩
    · simp only [(ofToken?_eq_none_iff x).2 hx]
      cases task.assignment.value? x with
      | none => exact settles_fail _ _
      | some value =>
        have ho : x ≠ "(" := fun h => hx (h ▸ by decide)
        have hc : x ≠ ")" := fun h => hx (h ▸ by decide)
        exact settles_return (.cons ho hc (.refl r))
    · simp only [show Symbol.ofToken? "!" = some .not by decide]
      have hin := ihr 0
      rw [PhraseSettles, phrase_zero] at hin
      refine (hin.nested _).bind fun inner hread => ?_
      exact (settles_record _).bind fun _ _ =>
        settles_return (.cons (by decide) (by decide) hread)
    · simp only [show Symbol.ofToken? "(" = some .leftParen by decide]
      refine ((ihr _).nested _).bind ?_
      rintro ⟨inner, rest, h⟩ hread
      -- the bracket is part of what is taken only if its partner stands behind the phrase
      cases rest with
      | nil => exact settles_fail _ _
      | cons u rest =>
        by_cases hu : Symbol.ofToken? u = some .rightParen
        · obtain rfl : ")" = u := Symbol.spelling_of_ofToken? hu
          simp only [if_pos hu]
          exact settles_return hread.bracketed
        · simp only [if_neg hu]
          exact settles_fail _ _
    · simp only [show Symbol.ofToken? ")" = some .rightParen by decide]
      exact settles_fail _ _
    · simp only [Connective.token, Symbol.ofToken?_spelling]
      exact settles_fail _ _

theorem PhraseSettles.succ (k : Nat) (ts : List String) (ih : task.PhraseSettles k ts)
    (ihc : ∀ r, r.length < ts.length → task.ChainSettles k r) : task.PhraseSettles (k + 1) ts := by
  unfold PhraseSettles
  rw [phrase.eq_def]
  refine Settles.bind ih fun left hleft => ?_
  refine ((ihc left.rest left.shorter).chain _).bind fun x hx => ?_
  exact settles_return (hleft.trans hx)

theorem finish_settles (ts : List String) (waiting : List (Operand × Connective)) (last : Operand) :
    task.Settles (task.finish ts waiting last) fun x => Consumes ts x.rest := by
  induction waiting generalizing last with
  | nil => exact settles_return (.refl ts)
  | cons w waiting ih => exact (settles_record _).bind fun joined _ => ih joined

theorem collect_settles (k : Nat) (ts : List String)
    (ih : ∀ j r, r.length < ts.length → task.PhraseSettles j r)
    (ihc : ∀ r, r.length < ts.length → task.ChainSettles k r)
    (waiting : List (Operand × Connective)) (last : Operand) :
    task.Settles (task.collect k waiting last ts) fun x => Consumes ts x.rest := by
  by_cases hc : ∃ c r, ts = Connective.token c :: r ∧ c.rank = k + 1
  · obtain ⟨c, r, rfl, hc⟩ := hc
    rw [collect.eq_def]
    simp only [connective?_token, if_pos hc]
    -- the loop goes on behind an operand, so that it has fewer tokens in front of it each time
    refine Settles.bind (ih k r (Nat.lt_succ_self _)) fun next hnext => ?_
    refine ((ihc next.rest (Nat.lt_succ_of_lt next.shorter)).collect _ _).bind fun x hx => ?_
    exact settles_return (.cons c.token_ne_open c.token_ne_close (hnext.trans hx))
  · rw [collect_stop fun c r h₁ h₂ => hc ⟨c, r, h₁, h₂⟩]
    exact finish_settles ts waiting last

theorem chain_settles (k : Nat) (ts : List String)
    (ih : ∀ j r, r.length < ts.length → task.PhraseSettles j r)
    (ihc : ∀ r, r.length < ts.length → task.ChainSettles k r) (left : Operand) :
    task.Settles (task.chain k left ts) fun x => Consumes ts x.rest := by
  by_cases hc : ∃ c r, ts = Connective.token c :: r ∧ c.rank = k + 1
  · obtain ⟨c, r, rfl, hc⟩ := hc
    have hlt := Nat.lt_succ_self r.length
    rw [chain.eq_def]
    simp only [connective?_token, if_pos hc]
    cases c.groupsRight with
    | true =>
      cases task.chaining with
      | loop => exact collect_settles k _ ih ihc [] left
      | recursion =>
        refine Settles.bind (ih (k + 1) r hlt) fun right hright => ?_
        exact (settles_record _).bind fun _ _ =>
          settles_return (.cons c.token_ne_open c.token_ne_close hright)
    | false =>
      refine Settles.bind (ih k r hlt) fun right hright => ?_
      refine (settles_record _).bind fun x _ => ?_
      refine ((ihc right.rest (Nat.lt_succ_of_lt right.shorter)).chain x).bind fun y hy => ?_
      exact settles_return (.cons c.token_ne_open c.token_ne_close (hright.trans hy))
  · rw [chain_stop fun c r h₁ h₂ => hc ⟨c, r, h₁, h₂⟩]
    exact settles_return (.refl ts)

theorem phrase_settles (k : Nat) (ts : List String) : task.PhraseSettles k ts :=
  (reading_induction (P := fun _ => task.PhraseSettles) (Q := fun _ => task.ChainSettles)
    (fun room ts ih => PhraseSettles.operand ts (ih room)) (fun _ => PhraseSettles.succ)
    (fun _ k ts ih ihc => ⟨chain_settles k ts ih ihc, collect_settles k ts ih ihc⟩) 0 k ts).1

/-! ## The rules of the grammar -/

/-- Reads a bracketed formula or a name, as `operand` does where it finds no negation. -/
def primary (task : Task) (ts : List String) : Rule (Operand.Before ts.length) :=
  if ts.head? = some "!" then task.fail .operandExpected ts else task.operand ts

/-- The rule for each kind of phrase. -/
def rule (task : Task) (k : Category) (ts : List String) : Rule (Operand.Before ts.length) :=
  match k with
  | .equivalence => task.phrase Connective.loosest ts
  | .implication => task.phrase 3 ts
  | .orXor => task.phrase 2 ts
  | .and => task.phrase 1 ts
  | .not => task.operand ts
  | .primary => task.primary ts

theorem rule_settles (task : Task) (k : Category) (ts : List String) :
    task.Settles (task.rule k ts) fun x => Consumes ts x.rest := by
  have hoperand : task.Settles (task.operand ts) fun x => Consumes ts x.rest := by
    rw [← phrase_zero]
    exact phrase_settles 0 ts
  cases k with
  | not => exact hoperand
  | primary =>
    rw [rule, primary]
    split
    · exact settles_fail _ _
    · exact hoperand
  | _ => exact phrase_settles _ ts

/-- A rule that was called at the index `pos` of the tokens has returned at the index `next`. It has
taken at least one token, and with each bracket its partner; the counter is back where it stood; and
there may be more records, which move no label of the trace. -/
structure Advances (tokens : List String) (pos next : Nat) (p q : Pass) : Prop where
  lt : pos < next
  le : next ≤ tokens.length
  matched : Matched ((tokens.take next).drop pos)
  depth : q.depth = p.depth
  records : ∃ pairs, q = p.recordAll pairs
  labels : p.valuation.labels <+: q.valuation.labels

theorem Consumes.exists_next {tokens rest : List String} {pos : Nat}
    (h : Consumes (tokens.drop pos) rest) (hlt : rest.length < (tokens.drop pos).length) :
    ∃ next, rest = tokens.drop next ∧ pos < next ∧ next ≤ tokens.length ∧
      Matched ((tokens.take next).drop pos) := by
  obtain ⟨read, hread, hm⟩ := h
  have hlen := congrArg List.length hread
  rw [List.length_append] at hlen
  have hdrop : (tokens.drop pos).length = tokens.length - pos := List.length_drop
  refine ⟨pos + read.length, ?_, by omega, by omega, ?_⟩
  · rw [← List.drop_drop, hread, List.drop_left]
  · rw [List.drop_take, Nat.add_sub_cancel_left, hread, List.take_left]
    exact hm

theorem advances_of_rule {tokens : List String} {k : Category} {pos : Nat}
    {x : Operand.Before (tokens.drop pos).length}
    (h : task.rule k (tokens.drop pos) p = (.ok x, q)) :
    ∃ next, x.rest = tokens.drop next ∧ Advances tokens pos next p q := by
  have hsettles := rule_settles task k (tokens.drop pos)
  obtain ⟨next, hrest, hlt, hle, hm⟩ := (hsettles.returns p q x h).exists_next x.shorter
  obtain ⟨counts, hrun⟩ := hsettles.runs p
  obtain ⟨pairs, rfl⟩ := hrun.eq_recordAll x q h
  refine ⟨next, hrest, hlt, hle, hm, rfl, ⟨pairs, rfl⟩, ?_⟩
  exact p.valuation.labels_prefix_recordAll pairs

/-! ## Whole passes -/

/-- The task of a pass over the tokens. -/
def ofTokens (chaining : Chaining) (ts : List String) (a : Assignment) (ex : List String)
    (limit : Int) : Task :=
  ⟨chaining, a, ex, limit, ts.length⟩

section

variable {chaining : Chaining} {ts ex : List String} {a : Assignment} {limit : Int}

-- An error of the first rule is the outcome.
theorem outcome_of_rule {err : FormulaError}
    (h : ((ofTokens chaining ts a ex limit).rule .equivalence ts .initial).1 = .error err) :
    (evaluate ts a ex limit).outcome = .error err := by
  rw [rule, ofTokens] at h
  rw [← evaluateInOnePass_eq chaining]
  unfold evaluateInOnePass
  match hp : phrase ⟨chaining, a, ex, limit, ts.length⟩ Connective.loosest ts .initial with
  | (.error err', q) =>
    rw [hp] at h
    simp only [hp]
    exact congrArg Except.error (Except.error.inj h)
  | (.ok x, q) =>
    rw [hp] at h
    cases h

theorem ceiling_initial :
    ((ofTokens chaining ts a ex limit).ceiling .initial : Int) = max limit 0 := by
  change ((max 0 limit.toNat : Nat) : Int) = max limit 0
  omega

end

/-- A rule that returns has gone forward over tokens whose brackets pair up, and has changed the
state by records alone. Each rule comes to an end, from every state and in front of every list of
tokens. While a whole list is read, the counter exceeds the limit by one at most, and only if the
evaluation ends with the error that a level is too deep. -/
theorem rule_progress :
    (∀ (task : Task) (k : Category) (tokens : List String) (pos : Nat) (p q : Pass)
        (x : Operand.Before (tokens.drop pos).length),
      task.rule k (tokens.drop pos) p = (.ok x, q) →
        ∃ next, x.rest = tokens.drop next ∧ Advances tokens pos next p q) ∧
    (∀ (task : Task) (k : Category) (ts : List String) (p : Pass),
      ∃ counts, Runs task (task.rule k ts) p counts) ∧
    ∀ (chaining : Chaining) (ts : List String) (a : Assignment) (ex : List String) (limit : Int)
        (counts : List Nat),
      let task := ofTokens chaining ts a ex limit
      Runs task (task.rule .equivalence ts) .initial counts →
      ∀ c ∈ counts, (c : Int) ≤ max limit 0 + 1 ∧
        (max limit 0 < c → ∃ found position,
          (evaluate ts a ex limit).outcome = .error (.tooDeep limit found position)) := by
  refine ⟨?_, ?_, ?_⟩
  · intro task k tokens pos p q x h
    exact advances_of_rule h
  · intro task k ts
    exact (rule_settles task k ts).runs
  · intro chaining ts a ex limit counts task hrun c hc
    have hceiling : (task.ceiling .initial : Int) = max limit 0 := ceiling_initial
    have hallowed := hrun.allowed c hc
    have hle := hallowed.le
    refine ⟨by omega, fun hlt => ?_⟩
    obtain ⟨found, position, herr⟩ := hallowed.tooDeep (by omega)
    exact ⟨found, position, outcome_of_rule herr⟩

-- A tighter rule that raises an error ends the looser ones that called it.
theorem Runs.phrase {ts : List String} {counts : List Nat} {err : FormulaError}
    (h : Runs task (task.operand ts) p counts) (herr : task.operand ts p = (.error err, q))
    (k : Nat) :
    Runs task (task.phrase k ts) p counts ∧ task.phrase k ts p = (.error err, q) := by
  induction k with
  | zero =>
    rw [phrase_zero]
    exact ⟨h, herr⟩
  | succ k ih =>
    rw [phrase.eq_def]
    exact ⟨.raised ih.1 ih.2, Rule.bind_error ih.2⟩

-- One level is open when the rule is called, and it records a label that is there. Under a limit
-- below zero the first negation is too deep.
theorem rule_progress_of_refreshed_label :
    (∃ x q,
        rule (ofTokens .loop ["A", "->", "(", "!", "A", ")", "->", "A"] [("A", .flag true)] [] 3)
          .orXor (["A", "->", "(", "!", "A", ")", "->", "A"].drop 2)
          ⟨1, ⟨[("¬A", true), ("¬B", true)]⟩, []⟩ = (.ok x, q) ∧
        q.valuation.entries = [("¬A", false), ("¬B", true)] ∧
        ∃ next, x.rest = ["A", "->", "(", "!", "A", ")", "->", "A"].drop next ∧
          Advances ["A", "->", "(", "!", "A", ")", "->", "A"] 2 next
            ⟨1, ⟨[("¬A", true), ("¬B", true)]⟩, []⟩ q) ∧
    Runs (ofTokens .loop ["!", "A"] [] [] (-1))
        (rule (ofTokens .loop ["!", "A"] [] [] (-1)) .equivalence ["!", "A"]) .initial [1] ∧
      (max (-1) 0 : Int) < (1 : Nat) ∧ ∃ found position,
        (evaluate ["!", "A"] [] [] (-1)).outcome = .error (.tooDeep (-1) found position) := by
  constructor
  · let tokens := ["A", "->", "(", "!", "A", ")", "->", "A"]
    let task := ofTokens .loop tokens [("A", .flag true)] [] 3
    let t : Tree := .group (.negation (.name "A"))
    have hread : readPhrase task.assignment.known 2 2 (t.tokens ++ ["->", "A"]) = _ :=
      readPhrase_complete (by decide) (by decide) (by decide)
        (ends_token (c := .implies) (by decide) _)
    have hm := @readPhrase_matched task 2 2 (t.tokens ++ ["->", "A"])
      ⟨1, ⟨[("¬A", true), ("¬B", true)]⟩, []⟩ rfl
    rw [hread] at hm
    obtain ⟨new, hshort, rfl, hresult⟩ := hm
    exact ⟨_, _, hresult, by decide, rule_progress.1 task .orXor tokens 2 _ _ _ hresult⟩
  · let task := ofTokens .loop ["!", "A"] [] [] (-1)
    have hnot : Symbol.ofToken? "!" = some .not := by decide
    have hoperand : Runs task (task.operand ["!", "A"]) .initial [1] := by
      rw [operand.eq_def]
      simp only [hnot]
      exact .raised (.refused ["!", "A"] (by decide)) rfl
    have herr : task.operand ["!", "A"] .initial =
        (.error (.tooDeep (-1) "!" 0), Pass.initial.deeper) := by
      rw [operand.eq_def]
      simp only [hnot]
      exact Rule.bind_error rfl
    have hrun := (hoperand.phrase herr Connective.loosest).1
    have hlt : (max (-1) 0 : Int) < (1 : Nat) := by decide
    have hdeep := rule_progress.2.2 .loop ["!", "A"] [] [] (-1) [1] hrun 1 List.mem_cons_self
    exact ⟨hrun, hlt, hdeep.2 hlt⟩

end Task

end PropTable
