import PropTable.Proofs.Reading

/-!
# A formula from left to right

Whether a token may follow those before it depends on little: whether an operand is due, and which
negations and brackets are open. `Stage` holds just that, `Stage.step` moves over one token, and
`scan` goes on as long as the tokens allow. The readers stop where the scan stops and for the same
reason (`stop_of_ofTokens`), however deep their recursion is at that point.
-/

namespace PropTable

/-- What encloses the place where a scan stands. -/
inductive Level where
  | negation
  | bracket
deriving DecidableEq, Repr

/-- How far a scan has come, with the open levels from the inside to the outside. -/
inductive Stage where
  | due (levels : List Level)
  | done (levels : List Level)
deriving DecidableEq, Repr

namespace Stage

/-- The stage behind an operand. The negations that waited for the operand are complete with it. -/
def close (levels : List Level) : Stage :=
  .done (levels.dropWhile (· = .negation))

/-- What is missing behind an operand where no connective follows. -/
def missing : List Level → Fault
  | [] => .operatorExpected
  | _ :: _ => .closingExpected

/-- Moves over one token. At most `bound` levels may be open. -/
def step (known : String → Bool) (bound : Nat) : Stage → String → Except Fault Stage
  | .due levels, x =>
    match Symbol.ofToken? x with
    | none => if known x then .ok (close levels) else .error (.unknownName x)
    | some .not =>
      if levels.length < bound then .ok (.due (.negation :: levels)) else .error .noRoom
    | some .leftParen =>
      if levels.length < bound then .ok (.due (.bracket :: levels)) else .error .noRoom
    | some _ => .error .operandExpected
  | .done levels, x =>
    match Symbol.ofToken? x, levels with
    | some (.connective _), levels => .ok (.due levels)
    | some .rightParen, _ :: outer => .ok (close outer)
    | _, levels => .error (missing levels)

/-- What is missing where the tokens end. -/
def ending : Stage → Option Fault
  | .due _ => some .operandExpected
  | .done [] => none
  | .done (_ :: _) => some .closingExpected

section Steps

variable (known : String → Bool) (bound : Nat) (levels : List Level)

theorem step_due_name {x : String} (hx : x ∉ reserved) :
    step known bound (.due levels) x =
      if known x then .ok (close levels) else .error (.unknownName x) := by
  simp only [step, (ofToken?_eq_none_iff x).2 hx]

theorem step_due_negation :
    step known bound (.due levels) "!" =
      if levels.length < bound then .ok (.due (.negation :: levels)) else .error .noRoom := by
  simp only [step, show Symbol.ofToken? "!" = some .not by decide]

theorem step_due_bracket :
    step known bound (.due levels) "(" =
      if levels.length < bound then .ok (.due (.bracket :: levels)) else .error .noRoom := by
  simp only [step, show Symbol.ofToken? "(" = some .leftParen by decide]

theorem step_due_noRoom {x : String} (hx : x = "!" ∨ x = "(") (hb : bound ≤ levels.length) :
    step known bound (.due levels) x = .error .noRoom := by
  have hlt : ¬ levels.length < bound := Nat.not_lt.2 hb
  rcases hx with rfl | rfl
  · exact (step_due_negation known bound levels).trans (if_neg hlt)
  · exact (step_due_bracket known bound levels).trans (if_neg hlt)

theorem step_due_open {x : String} (hx : x = "!" ∨ x = "(") (hb : levels.length < bound) :
    ∃ l, step known bound (.due levels) x = .ok (.due (l :: levels)) := by
  rcases hx with rfl | rfl
  · exact ⟨_, (step_due_negation known bound levels).trans (if_pos hb)⟩
  · exact ⟨_, (step_due_bracket known bound levels).trans (if_pos hb)⟩

theorem step_due_other {x : String} (hx : x = ")" ∨ ∃ c : Connective, x = c.token) :
    step known bound (.due levels) x = .error .operandExpected := by
  obtain rfl | ⟨c, rfl⟩ := hx
  · simp only [step, show Symbol.ofToken? ")" = some .rightParen by decide]
  · simp only [step, Connective.token, Symbol.ofToken?_spelling]

theorem step_done_token (c : Connective) :
    step known bound (.done levels) c.token = .ok (.due levels) := by
  simp only [step, Connective.token, Symbol.ofToken?_spelling]

theorem step_done_closing (l : Level) :
    step known bound (.done (l :: levels)) ")" = .ok (close levels) := by
  simp only [step, show Symbol.ofToken? ")" = some .rightParen by decide]

theorem step_done_other {x : String} (hc : ∀ c : Connective, x ≠ c.token)
    (hx : x = ")" → levels = []) :
    step known bound (.done levels) x = .error (missing levels) := by
  simp only [step]
  split
  · rename_i c hs
    exact absurd (Symbol.spelling_of_ofToken? hs).symm (hc c)
  · rename_i hs
    exact absurd (hx (Symbol.spelling_of_ofToken? hs).symm) (List.cons_ne_nil _ _)
  · rfl

theorem step_done_name {x : String} (hx : x ∉ reserved) :
    step known bound (.done levels) x = .error (missing levels) := by
  refine step_done_other known bound levels ?_ ?_
  · rintro c rfl
    exact hx (token_mem_reserved c)
  · rintro rfl
    exact absurd hx (by decide)

/-- All causes for which a token cannot follow. -/
inductive Refused (known : String → Bool) (bound : Nat) : Stage → String → Fault → Prop where
  | unknown {levels x} : x ∉ reserved → known x = false →
      Refused known bound (.due levels) x (.unknownName x)
  | tooDeep {levels x} : x = "!" ∨ x = "(" → bound ≤ levels.length →
      Refused known bound (.due levels) x .noRoom
  | noOperand {levels x} : (x = ")" ∨ ∃ c : Connective, x = c.token) →
      Refused known bound (.due levels) x .operandExpected
  | noClosing {l outer x} : (∀ c : Connective, x ≠ c.token) → x ≠ ")" →
      Refused known bound (.done (l :: outer)) x .closingExpected
  | noOperator {x} : (∀ c : Connective, x ≠ c.token) →
      Refused known bound (.done []) x .operatorExpected

variable {known bound}

theorem refused_of_step {s : Stage} {x : String} {fault : Fault}
    (h : s.step known bound x = .error fault) : Refused known bound s x fault := by
  cases s with
  | due levels =>
    rcases operand_cases x with hx | hx | hx
    · rw [step_due_name known bound levels hx] at h
      split at h
      · cases h
      · rename_i hk
        cases h
        exact .unknown hx (Bool.eq_false_iff.2 hk)
    · by_cases hb : levels.length < bound
      · obtain ⟨l, hl⟩ := step_due_open known bound levels hx hb
        rw [hl] at h
        cases h
      · rw [step_due_noRoom known bound levels hx (Nat.le_of_not_lt hb)] at h
        cases h
        exact .tooDeep hx (Nat.le_of_not_lt hb)
    · rw [step_due_other known bound levels hx] at h
      cases h
      exact .noOperand hx
  | done levels =>
    have hc : ∀ c : Connective, x ≠ c.token := by
      rintro c rfl
      rw [step_done_token] at h
      cases h
    match levels with
    | [] =>
      rw [step_done_other known bound [] hc fun _ => rfl] at h
      cases h
      exact .noOperator hc
    | l :: outer =>
      have hx : x ≠ ")" := by
        rintro rfl
        rw [step_done_closing] at h
        cases h
      rw [step_done_other known bound (l :: outer) hc fun h => absurd h hx] at h
      cases h
      exact .noClosing hc hx

end Steps

end Stage

/-- Moves over the tokens up to the first that is at fault, and gives that token's fault with the
tokens from there on. -/
def scan (known : String → Bool) (bound : Nat) :
    Stage → List String → Except (Fault × List String) Stage
  | s, [] => .ok s
  | s, x :: r =>
    match s.step known bound x with
    | .error fault => .error (fault, x :: r)
    | .ok s => scan known bound s r

/-- The fault a scan of a whole token list comes to, with the tokens from there on. -/
def verdict : Except (Fault × List String) Stage → Option (Fault × List String)
  | .error e => some e
  | .ok s => s.ending.map fun fault => (fault, [])

section

variable {known : String → Bool} {bound : Nat}

theorem scan_cons {s s' : Stage} {x : String} (h : s.step known bound x = .ok s')
    (r : List String) : scan known bound s (x :: r) = scan known bound s' r := by
  rw [scan, h]

theorem scan_cons_error {s : Stage} {x : String} {fault : Fault}
    (h : s.step known bound x = .error fault) (r : List String) :
    scan known bound s (x :: r) = .error (fault, x :: r) := by
  rw [scan, h]

theorem scan_append {s s' : Stage} {ps : List String} (h : scan known bound s ps = .ok s')
    (r : List String) : scan known bound s (ps ++ r) = scan known bound s' r := by
  induction ps generalizing s with
  | nil =>
    rw [List.nil_append, Except.ok.inj h]
  | cons x ps ih =>
    cases hx : s.step known bound x with
    | error fault =>
      rw [scan_cons_error hx] at h
      cases h
    | ok s₁ =>
      rw [scan_cons hx] at h
      rw [List.cons_append, scan_cons hx, ih h]

-- A scan that fails has come to a token that cannot follow those before it.
theorem scan_error {s : Stage} {ts rest : List String} {fault : Fault}
    (h : scan known bound s ts = .error (fault, rest)) :
    ∃ ps x r s', ts = ps ++ x :: r ∧ rest = x :: r ∧ scan known bound s ps = .ok s' ∧
      s'.step known bound x = .error fault := by
  induction ts generalizing s with
  | nil => cases h
  | cons x r ih =>
    cases hx : s.step known bound x with
    | error fault' =>
      rw [scan_cons_error hx] at h
      cases h
      exact ⟨[], x, r, s, rfl, rfl, rfl, hx⟩
    | ok s₁ =>
      rw [scan_cons hx] at h
      obtain ⟨ps, y, r', s', rfl, rfl, hs, hy⟩ := ih h
      exact ⟨x :: ps, y, r', s', rfl, rfl, by rw [scan_cons hx, hs], hy⟩

theorem scan_prefix {s s' : Stage} {ps r : List String}
    (h : scan known bound s (ps ++ r) = .ok s') : ∃ s₁, scan known bound s ps = .ok s₁ := by
  cases hp : scan known bound s ps with
  | ok s₁ => exact ⟨s₁, rfl⟩
  | error e =>
    obtain ⟨qs, x, r', s₁, rfl, -, hs, hx⟩ := scan_error hp
    rw [List.append_assoc, scan_append hs, List.cons_append, scan_cons_error hx] at h
    cases h

theorem scan_concat_iff {s s₁ : Stage} {ps : List String} {x : String}
    (h : scan known bound s ps = .ok s₁) :
    (∃ s', scan known bound s (ps ++ [x]) = .ok s') ↔ ∃ s', s₁.step known bound x = .ok s' := by
  rw [scan_append h]
  constructor
  · rintro ⟨s', hs⟩
    cases hx : s₁.step known bound x with
    | ok s₂ => exact ⟨s₂, rfl⟩
    | error fault =>
      rw [scan_cons_error hx] at hs
      cases hs
  · rintro ⟨s', hx⟩
    exact ⟨s', scan_cons hx []⟩

end

/-! ## The readers follow the scan -/

/-- From `start` in front of `ts`, the scan comes to what a reader found: to the stage `next` in
front of the rest, or to the fault at which the reader stopped. -/
def Follows (known : String → Bool) (bound : Nat) (start : Stage) (ts : List String)
    (next : Stage) : Except Stop (Tree × List String) → Prop
  | .ok (_, rest) => scan known bound start ts = scan known bound next rest
  | .error stop => verdict (scan known bound start ts) = some (stop.fault, stop.rest)

/-- The scan follows the phrase reader with `room` levels left. Around a phrase that may hold
connectives no negation waits for its operand. -/
def PhraseFollowed (known : String → Bool) (room k : Nat) (ts : List String) : Prop :=
  ∀ levels, (0 < k → Stage.close levels = .done levels) →
    Follows known (room + levels.length) (.due levels) ts (.close levels)
      (readPhrase known room k ts)

/-- The scan follows the chain reader. -/
def ChainFollowed (known : String → Bool) (room k : Nat) (ts : List String) : Prop :=
  ∀ levels left, Stage.close levels = .done levels →
    Follows known (room + levels.length) (.done levels) ts (.done levels)
      (readChain known room k left ts)

variable {known : String → Bool}

theorem Follows.step {bound : Nat} {start next : Stage} {ts us : List String}
    {result : Except Stop (Tree × List String)} {s : Stage}
    (hs : scan known bound start ts = scan known bound s us)
    (h : Follows known bound s us next result) : Follows known bound start ts next result := by
  cases result with
  | error stop => exact (congrArg verdict hs).trans h
  | ok p => exact hs.trans h

theorem Follows.fault {bound : Nat} {s next : Stage} {x : String} {fault : Fault}
    (hs : s.step known bound x = .error fault) (r : List String) (trees : List Tree) :
    Follows known bound s (x :: r) next (.error ⟨fault, x :: r, trees⟩) :=
  congrArg verdict (scan_cons_error hs r)

theorem negation_followed {room : Nat} {r : List String} (hr : PhraseFollowed known room 0 r)
    (levels : List Level) :
    Follows known (room + 1 + levels.length) (.due levels) ("!" :: r) (.close levels)
      (readOperand known (room + 1) ("!" :: r)) := by
  have hs := (Stage.step_due_negation known (room + 1 + levels.length) levels).trans
    (if_pos (by omega))
  have hp := hr (.negation :: levels) fun h => absurd h (Nat.lt_irrefl 0)
  rw [readPhrase_zero, List.length_cons, Nat.add_comm levels.length, ← Nat.add_assoc] at hp
  rw [readOperand_negation]
  cases hu : readOperand known room r with
  | error stop =>
    rw [hu] at hp
    exact Follows.step (scan_cons hs r) hp
  | ok p =>
    rw [hu] at hp
    exact (scan_cons hs r).trans hp

theorem group_followed {room : Nat} {r : List String}
    (hr : PhraseFollowed known room Connective.loosest r) (levels : List Level) :
    Follows known (room + 1 + levels.length) (.due levels) ("(" :: r) (.close levels)
      (readOperand known (room + 1) ("(" :: r)) := by
  have hs := (Stage.step_due_bracket known (room + 1 + levels.length) levels).trans
    (if_pos (by omega))
  have hp := hr (.bracket :: levels) fun _ => rfl
  rw [List.length_cons, Nat.add_comm levels.length, ← Nat.add_assoc] at hp
  rw [readOperand_bracket]
  match hu : readPhrase known room Connective.loosest r with
  | .error stop =>
    rw [hu] at hp
    exact Follows.step (scan_cons hs r) hp
  | .ok (t, []) =>
    rw [hu] at hp
    exact congrArg verdict ((scan_cons hs r).trans hp)
  | .ok (t, u :: us) =>
    have he := (readPhrase_sound room _ r t (u :: us) hu).ends
    rw [hu] at hp
    have hs' := (scan_cons hs r).trans hp
    show Follows _ _ _ _ _ (if u = ")" then _ else _)
    split
    · rename_i hclose
      rw [hclose] at hs'
      exact hs'.trans (scan_cons (Stage.step_done_closing known _ levels .bracket) us)
    · rename_i hclose
      -- the phrase reader takes all connectives, so none stands behind the phrase
      have hc : ∀ c : Connective, u ≠ c.token := by
        rintro c rfl
        exact absurd (he c us rfl) (Nat.not_lt.2 c.rank_le_loosest)
      apply Follows.step hs'
      exact Follows.fault (Stage.step_done_other known _ (.bracket :: levels) hc
        fun h => absurd h hclose) us [t]

theorem operand_followed (room : Nat) (ts : List String)
    (ih : ∀ room k r, r.length < ts.length → PhraseFollowed known room k r) :
    PhraseFollowed known room 0 ts := by
  intro levels _
  rw [readPhrase_zero]
  match ts, room with
  | [], _ =>
    rw [readOperand_nil]
    rfl
  | x :: r, room =>
    have ihr := fun room k => ih room k r (Nat.lt_succ_self _)
    rcases operand_cases x with hx | hx | hx
    · have hs := Stage.step_due_name known (room + levels.length) levels hx
      rw [readOperand_name known room hx]
      cases hk : known x with
      | false =>
        rw [hk] at hs
        exact Follows.fault hs r []
      | true =>
        rw [hk] at hs
        exact scan_cons hs r
    · match room with
      | 0 =>
        rw [readOperand_noRoom known hx]
        exact Follows.fault (Stage.step_due_noRoom known _ levels hx (by omega)) r []
      | room + 1 =>
        rcases hx with rfl | rfl
        · exact negation_followed (ihr room 0) levels
        · exact group_followed (ihr room _) levels
    · have hs := Stage.step_due_other known (room + levels.length) levels hx
      rw [readOperand_other known room hx]
      exact Follows.fault hs r []

theorem phrase_followed (room k : Nat) (ts : List String) (ih : PhraseFollowed known room k ts)
    (ihc : ∀ r, r.length < ts.length → ChainFollowed known room k r) :
    PhraseFollowed known room (k + 1) ts := by
  intro levels hl
  have hd := hl (Nat.succ_pos k)
  have hp := ih levels fun _ => hd
  rw [readPhrase_succ]
  cases hr : readPhrase known room k ts with
  | error stop =>
    rw [hr] at hp
    exact hp
  | ok p =>
    have hlt := (readPhrase_sound room k ts p.1 p.2 hr).length_lt
    rw [hr, hd] at hp
    rw [hd]
    exact Follows.step hp (ihc p.2 hlt levels p.1 hd)

theorem chain_followed (room k : Nat) (ts : List String)
    (ih : ∀ j r, r.length < ts.length → PhraseFollowed known room j r)
    (ihc : ∀ r, r.length < ts.length → ChainFollowed known room k r) :
    ChainFollowed known room k ts := by
  intro levels left hd
  by_cases hc : ∃ c r, ts = Connective.token c :: r ∧ c.rank = k + 1
  · obtain ⟨c, r, rfl, hc⟩ := hc
    have hlt := Nat.lt_succ_self r.length
    have hs := scan_cons (Stage.step_done_token known (room + levels.length) levels c) r
    cases hg : c.groupsRight with
    | true =>
      have hp := ih (k + 1) r hlt levels fun _ => hd
      rw [hd] at hp
      rw [readChain_right known room k hc hg]
      cases hr : readPhrase known room (k + 1) r with
      | error stop =>
        rw [hr] at hp
        exact (congrArg verdict hs).trans hp
      | ok p =>
        rw [hr] at hp
        exact hs.trans hp
    | false =>
      have hp := ih k r hlt levels fun _ => hd
      rw [hd] at hp
      rw [readChain_left known room k hc hg]
      cases hr : readPhrase known room k r with
      | error stop =>
        rw [hr] at hp
        exact (congrArg verdict hs).trans hp
      | ok p =>
        have hlt' := (readPhrase_sound room k r p.1 p.2 hr).length_lt
        rw [hr] at hp
        exact Follows.step (hs.trans hp) (ihc p.2 (Nat.lt_trans hlt' hlt) levels _ hd)
  · rw [readChain_stop known room k left fun c r h₁ h₂ => hc ⟨c, r, h₁, h₂⟩]
    rfl

theorem readPhrase_followed (room k : Nat) (ts : List String) : PhraseFollowed known room k ts :=
  (reading_induction operand_followed phrase_followed chain_followed room k ts).1

/-- A scan from the start comes to the fault at which reading stops, if it stops. -/
theorem verdict_scan (known : String → Bool) (room : Nat) (ts : List String) :
    verdict (scan known room (.due []) ts) =
      match Tree.ofTokens known room ts with
      | .error stop => some (stop.fault, stop.rest)
      | .ok _ => none := by
  have hf : PhraseFollowed known room Connective.loosest ts := readPhrase_followed room _ ts
  have hp := hf [] fun _ => rfl
  rw [ofTokens_eq]
  match hr : readPhrase known room Connective.loosest ts with
  | .error stop =>
    rw [hr] at hp
    exact hp
  | .ok (t, []) =>
    rw [hr] at hp
    exact congrArg verdict hp
  | .ok (t, x :: rest) =>
    have he := (readPhrase_sound room _ ts t (x :: rest) hr).ends
    rw [hr] at hp
    -- a connective behind the whole phrase would have been read with it
    have hc : ∀ c : Connective, x ≠ c.token := by
      rintro c rfl
      exact absurd (he c rest rfl) (Nat.not_lt.2 c.rank_le_loosest)
    exact congrArg verdict
      (hp.trans (scan_cons_error (Stage.step_done_other known room [] hc fun _ => rfl) rest))

/-- Where and why reading stops: at the end of the tokens, or at a token that cannot follow. -/
theorem stop_of_ofTokens {room : Nat} {ts : List String} {stop : Stop}
    (h : Tree.ofTokens known room ts = .error stop) :
    ∃ ps s, scan known room (.due []) ps = .ok s ∧
      ((ts = ps ∧ stop.rest = [] ∧ s.ending = some stop.fault) ∨
        ∃ x r, ts = ps ++ x :: r ∧ stop.rest = x :: r ∧
          s.step known room x = .error stop.fault) := by
  have hv := verdict_scan known room ts
  rw [h] at hv
  cases hs : scan known room (.due []) ts with
  | ok s =>
    rw [hs] at hv
    obtain ⟨fault, hf, he⟩ := Option.map_eq_some_iff.1 hv
    obtain ⟨rfl, hr⟩ := Prod.mk.inj he
    exact ⟨ts, s, hs, .inl ⟨rfl, hr.symm, hf⟩⟩
  | error e =>
    rw [hs] at hv
    obtain ⟨ps, x, r, s, hts, hr, hps, hx⟩ := scan_error hs
    obtain ⟨hf, hr'⟩ := Prod.mk.inj (Option.some.inj hv)
    rw [hf] at hx
    exact ⟨ps, s, hps, .inr ⟨x, r, hts, hr'.symm.trans hr, hx⟩⟩

/-! ## What a scan needs -/

-- A step needs nothing of `known` but that it holds for the token, and nothing of the bound but
-- that it is large enough.
theorem step_mono {known' : String → Bool} {bound bound' : Nat} {s s' : Stage} {x : String}
    (h : s.step known bound x = .ok s') (hk : x ∉ reserved → known' x = true)
    (hb : bound ≤ bound') : s.step known' bound' x = .ok s' := by
  cases s with
  | done levels => exact h
  | due levels =>
    rcases token_cases x with hx | rfl | rfl | hx
    · rw [Stage.step_due_name known bound levels hx] at h
      rw [Stage.step_due_name known' bound' levels hx, if_pos (hk hx)]
      split at h
      · exact h
      · cases h
    · rw [Stage.step_due_negation] at h ⊢
      split at h
      · rw [if_pos (by omega)]
        exact h
      · cases h
    · rw [Stage.step_due_bracket] at h ⊢
      split at h
      · rw [if_pos (by omega)]
        exact h
      · cases h
    · rw [Stage.step_due_other known bound levels hx] at h
      cases h

theorem covered_of_step {bound : Nat} {s s' : Stage} {x : String}
    (h : s.step known bound x = .ok s') : Covered known [x] := by
  intro y hy hr
  rw [List.mem_singleton.1 hy] at hr ⊢
  cases s with
  | due levels =>
    rw [Stage.step_due_name known bound levels hr] at h
    split at h
    · assumption
    · cases h
  | done levels =>
    rw [Stage.step_done_name known bound levels hr] at h
    cases h

theorem scan_mono {known' : String → Bool} {bound bound' : Nat} {s s' : Stage} {ps : List String}
    (h : scan known bound s ps = .ok s') (hk : Covered known' ps) (hb : bound ≤ bound') :
    scan known' bound' s ps = .ok s' := by
  induction ps generalizing s with
  | nil => exact h
  | cons x ps ih =>
    cases hx : s.step known bound x with
    | error fault =>
      rw [scan_cons_error hx] at h
      cases h
    | ok s₁ =>
      rw [scan_cons hx] at h
      rw [scan_cons (step_mono hx (hk x List.mem_cons_self) hb)]
      exact ih h fun y hy => hk y (List.mem_cons_of_mem x hy)

theorem covered_of_scan {bound : Nat} {s s' : Stage} {ps : List String}
    (h : scan known bound s ps = .ok s') : Covered known ps := by
  induction ps generalizing s with
  | nil => exact covered_nil known
  | cons x ps ih =>
    cases hx : s.step known bound x with
    | error fault =>
      rw [scan_cons_error hx] at h
      cases h
    | ok s₁ =>
      rw [scan_cons hx] at h
      exact covered_append.2 ⟨covered_of_step hx, ih h⟩

-- Closing brackets complete a formula whose last operand is there.
theorem scan_complete_done (bound : Nat) (levels : List Level) :
    ∃ us s', scan (fun _ => true) bound (.done levels) us = .ok s' ∧ s'.ending = none := by
  match levels with
  | [] => exact ⟨[], .done [], rfl, rfl⟩
  | l :: outer =>
    have hlt : (outer.dropWhile (· = .negation)).length < (l :: outer).length :=
      Nat.lt_succ_of_le (List.dropWhile_sublist (· = Level.negation)).length_le
    obtain ⟨us, s', hs, he⟩ := scan_complete_done bound (outer.dropWhile (· = .negation))
    exact ⟨")" :: us, s', (scan_cons (Stage.step_done_closing _ _ outer l) us).trans hs, he⟩
termination_by levels.length
decreasing_by exact hlt

-- From each stage on, some tokens complete the formula.
theorem scan_complete (bound : Nat) (s : Stage) :
    ∃ us s', scan (fun _ => true) bound s us = .ok s' ∧ s'.ending = none := by
  cases s with
  | done levels => exact scan_complete_done bound levels
  | due levels =>
    -- any name will do as the operand that is due
    obtain ⟨us, s', hs, he⟩ := scan_complete_done bound (levels.dropWhile (· = .negation))
    have hx := Stage.step_due_name (fun _ => true) bound levels (x := "x") (by decide)
    exact ⟨"x" :: us, s', (scan_cons hx us).trans hs, he⟩

end PropTable
