import PropTable.Formula.Parser
import PropTable.Proofs.Grammar

/-!
# Reading against the grammar

`phrase` reads as far as the grammar allows. What it finds is a phrase of the grammar
(`readPhrase_sound`), and it finds each phrase that is not continued by what stands behind it
(`readPhrase_complete`). So a token list has at most one tree (`Derives.unique`).

`readOperand`, `readPhrase` and `readChain` are the three readers without the length of their list;
the equations below say once what each of them does at each kind of token.
-/

namespace PropTable

/-! ## Kinds of tokens -/

theorem token_mem_reserved (c : Connective) : c.token ∈ reserved := by cases c <;> decide

theorem connective?_token (c : Connective) : connective? c.token = some c := by
  unfold connective? Connective.token
  rw [Symbol.ofToken?_spelling]

theorem token_of_connective? {x : String} {c : Connective} (h : connective? x = some c) :
    x = c.token := by
  unfold connective? at h
  split at h
  · rename_i d hx
    rw [← Symbol.spelling_of_ofToken? hx, Option.some.inj h]
    rfl
  · cases h

theorem token_injective {c d : Connective} (h : c.token = d.token) : c = d := by
  have hd := connective?_token d
  rw [← h, connective?_token c] at hd
  exact Option.some.inj hd

-- Each token is a variable, a negation, a bracket or a connective.
theorem token_cases (x : String) :
    x ∉ reserved ∨ x = "!" ∨ x = "(" ∨ x = ")" ∨ ∃ c : Connective, x = c.token := by
  cases hx : Symbol.ofToken? x with
  | none => exact .inl ((ofToken?_eq_none_iff x).1 hx)
  | some s =>
    have hs := Symbol.spelling_of_ofToken? hx
    cases s with
    | not => exact .inr (.inl hs.symm)
    | leftParen => exact .inr (.inr (.inl hs.symm))
    | rightParen => exact .inr (.inr (.inr (.inl hs.symm)))
    | connective c => exact .inr (.inr (.inr (.inr ⟨c, hs.symm⟩)))

-- Where an operand is due, a token is a name, opens a level, or cannot stand.
theorem operand_cases (x : String) :
    x ∉ reserved ∨ (x = "!" ∨ x = "(") ∨ (x = ")" ∨ ∃ c : Connective, x = c.token) := by
  rcases token_cases x with hx | hx | hx | hx
  · exact .inl hx
  · exact .inr (.inl (.inl hx))
  · exact .inr (.inl (.inr hx))
  · exact .inr (.inr hx)

/-- Only variables for which `known` holds are among the tokens. -/
def Covered (known : String → Bool) (ts : List String) : Prop :=
  ∀ x ∈ ts, x ∉ reserved → known x

instance (known : String → Bool) (ts : List String) : Decidable (Covered known ts) :=
  inferInstanceAs (Decidable (∀ x ∈ ts, x ∉ reserved → known x))

theorem covered_nil (known : String → Bool) : Covered known [] := fun _ hx => nomatch hx

theorem covered_append {known : String → Bool} {ts us : List String} :
    Covered known (ts ++ us) ↔ Covered known ts ∧ Covered known us := by
  constructor
  · intro h
    exact ⟨fun x hx => h x (List.mem_append_left us hx),
      fun x hx => h x (List.mem_append_right ts hx)⟩
  · rintro ⟨ht, hu⟩ x hx
    obtain hx | hx := List.mem_append.1 hx
    · exact ht x hx
    · exact hu x hx

theorem covered_cons {known : String → Bool} {x : String} {ts : List String}
    (hx : x ∈ reserved) : Covered known (x :: ts) ↔ Covered known ts := by
  constructor
  · intro h y hy
    exact h y (List.mem_cons_of_mem x hy)
  · intro h y hy hr
    obtain rfl | hy := List.mem_cons.1 hy
    · exact absurd hx hr
    · exact h y hy hr

theorem covered_singleton {known : String → Bool} {x : String} (hx : x ∉ reserved) :
    Covered known [x] ↔ known x := by
  simp only [Covered, List.mem_singleton, forall_eq, hx, not_false_eq_true, true_imp_iff]

/-! ## The readers, step by step -/

/-- The tree that was read and the tokens behind it. -/
def Phrase.parts {n : Nat} (p : Phrase n) : Tree × List String := (p.tree, p.rest)

def readOperand (known : String → Bool) (room : Nat) (ts : List String) :
    Except Stop (Tree × List String) := (operand known room ts).map Phrase.parts

def readPhrase (known : String → Bool) (room k : Nat) (ts : List String) :
    Except Stop (Tree × List String) := (phrase known room k ts).map Phrase.parts

def readChain (known : String → Bool) (room k : Nat) (left : Tree) (ts : List String) :
    Except Stop (Tree × List String) := (chain known room k left ts).map Phrase.parts

section Equations

variable (known : String → Bool) (room k : Nat)

theorem readOperand_nil : readOperand known room [] = .error ⟨.operandExpected, [], []⟩ := by
  simp only [readOperand, operand.eq_def]
  rfl

theorem readOperand_name {x : String} (hx : x ∉ reserved) (r : List String) :
    readOperand known room (x :: r) =
      if known x then .ok (.name x, r) else .error ⟨.unknownName x, x :: r, []⟩ := by
  rw [← ofToken?_eq_none_iff] at hx
  simp only [readOperand, operand.eq_def, hx]
  split <;> rfl

theorem readOperand_noRoom {x : String} (hx : x = "!" ∨ x = "(") (r : List String) :
    readOperand known 0 (x :: r) = .error ⟨.noRoom, x :: r, []⟩ := by
  obtain rfl | rfl := hx
  · have hx : Symbol.ofToken? "!" = some .not := by decide
    simp only [readOperand, operand.eq_def, hx]
    rfl
  · have hx : Symbol.ofToken? "(" = some .leftParen := by decide
    simp only [readOperand, operand.eq_def, hx]
    rfl

theorem readOperand_negation (r : List String) :
    readOperand known (room + 1) ("!" :: r) =
      match readOperand known room r with
      | .error stop => .error stop
      | .ok (t, rest) => .ok (.negation t, rest) := by
  have hx : Symbol.ofToken? "!" = some .not := by decide
  simp only [readOperand, operand.eq_def known (room + 1), hx]
  cases operand known room r <;> rfl

theorem readOperand_bracket (r : List String) :
    readOperand known (room + 1) ("(" :: r) =
      match readPhrase known room Connective.loosest r with
      | .error stop => .error stop
      | .ok (t, []) => .error ⟨.closingExpected, [], [t]⟩
      | .ok (t, u :: rest) =>
        if u = ")" then .ok (.group t, rest) else .error ⟨.closingExpected, u :: rest, [t]⟩ := by
  have hx : Symbol.ofToken? "(" = some .leftParen := by decide
  simp only [readOperand, readPhrase, operand.eq_def known (room + 1), hx]
  rcases phrase known room Connective.loosest r with stop | ⟨t, _ | ⟨u, rest⟩, h⟩
  · rfl
  · rfl
  · by_cases hu : u = ")"
    · subst hu
      rfl
    · have hs : Symbol.ofToken? u ≠ some .rightParen :=
        fun h => hu (Symbol.spelling_of_ofToken? h).symm
      simp only [Except.map, Phrase.parts, if_neg hs, if_neg hu]

theorem readOperand_other {x : String} (hx : x = ")" ∨ ∃ c : Connective, x = c.token)
    (r : List String) :
    readOperand known room (x :: r) = .error ⟨.operandExpected, x :: r, []⟩ := by
  obtain rfl | ⟨c, rfl⟩ := hx
  · have hx : Symbol.ofToken? ")" = some .rightParen := by decide
    simp only [readOperand, operand.eq_def, hx]
    rfl
  · simp only [readOperand, operand.eq_def, Connective.token, Symbol.ofToken?_spelling]
    rfl

theorem readPhrase_zero (ts : List String) :
    readPhrase known room 0 ts = readOperand known room ts := by
  simp only [readPhrase, readOperand, phrase.eq_def known room 0]

theorem readPhrase_succ (ts : List String) :
    readPhrase known room (k + 1) ts =
      match readPhrase known room k ts with
      | .error stop => .error stop
      | .ok (left, rest) => readChain known room k left rest := by
  simp only [readPhrase, readChain, phrase.eq_def known room (k + 1)]
  cases phrase known room k ts with
  | error stop => rfl
  | ok p =>
    simp only [Except.map, Phrase.parts]
    cases chain known room k p.tree p.rest <;> rfl

theorem readChain_stop (left : Tree) {ts : List String}
    (h : ∀ c r, ts = Connective.token c :: r → c.rank ≠ k + 1) :
    readChain known room k left ts = .ok (left, ts) := by
  cases ts with
  | nil => simp only [readChain, chain.eq_def]; rfl
  | cons x r =>
    simp only [readChain, chain.eq_def known room k left (x :: r)]
    cases hx : connective? x with
    | none => rfl
    | some c =>
      have hc := h c r (by rw [token_of_connective? hx])
      simp only [if_neg hc]
      rfl

theorem readChain_left {c : Connective} (hc : c.rank = k + 1) (hg : c.groupsRight = false)
    (left : Tree) (r : List String) :
    readChain known room k left (c.token :: r) =
      match readPhrase known room k r with
      | .error stop => .error (stop.after left)
      | .ok (right, rest) => readChain known room k (.binary c left right) rest := by
  simp only [readChain, readPhrase, chain.eq_def known room k left (_ :: _), connective?_token]
  simp only [hc, hg]
  rcases phrase known room k r with stop | ⟨right, rest, h⟩
  · rfl
  · simp only [Except.map, Phrase.parts]
    cases chain known room k (.binary c left right) rest <;> rfl

theorem readChain_right {c : Connective} (hc : c.rank = k + 1) (hg : c.groupsRight = true)
    (left : Tree) (r : List String) :
    readChain known room k left (c.token :: r) =
      match readPhrase known room (k + 1) r with
      | .error stop => .error (stop.after left)
      | .ok (right, rest) => .ok (.binary c left right, rest) := by
  simp only [readChain, readPhrase, chain.eq_def known room k left (_ :: _), connective?_token]
  simp only [hc, hg]
  rcases phrase known room (k + 1) r with stop | ⟨right, rest, h⟩ <;> rfl

end Equations

/-- Induction along the readers. An operand starts with shorter phrases, a phrase of rank `k + 1`
with one of rank `k` that a chain goes on from, and a chain goes on with shorter phrases. -/
theorem reading_induction {P Q : Nat → Nat → List String → Prop}
    (operand : ∀ room ts, (∀ room k r, r.length < ts.length → P room k r) → P room 0 ts)
    (phrase : ∀ room k ts, P room k ts → (∀ r, r.length < ts.length → Q room k r) →
      P room (k + 1) ts)
    (chain : ∀ room k ts, (∀ j r, r.length < ts.length → P room j r) →
      (∀ r, r.length < ts.length → Q room k r) → Q room k ts) (room k : Nat) (ts : List String) :
    P room k ts ∧ Q room k ts := by
  induction hn : ts.length using Nat.strongRecOn generalizing room k ts with
  | ind n ih =>
    subst hn
    constructor
    -- where no token is taken the rank goes down
    · induction k with
      | zero => exact operand room ts fun room k r hr => (ih _ hr room k r rfl).1
      | succ k ihk => exact phrase room k ts ihk fun r hr => (ih _ hr room k r rfl).2
    · exact chain room k ts (fun j r hr => (ih _ hr room j r rfl).1)
        fun r hr => (ih _ hr room k r rfl).2

/-! ## Soundness -/

/-- `ts` does not go on with a connective that a phrase of rank `k` would take. -/
def Ends (k : Nat) (ts : List String) : Prop :=
  ∀ c r, ts = Connective.token c :: r → k < c.rank

theorem ends_zero (ts : List String) : Ends 0 ts := fun c _ _ => c.rank_pos

theorem ends_nil (k : Nat) : Ends k [] := fun _ _ h => nomatch h

theorem ends_token {k : Nat} {c : Connective} (hc : k < c.rank) (r : List String) :
    Ends k (c.token :: r) := by
  intro d s h
  rw [← token_injective (List.cons.inj h).1]
  exact hc

theorem ends_closing (k : Nat) (r : List String) : Ends k (")" :: r) := by
  intro c s h
  cases c <;> exact absurd (List.cons.inj h).1 (by decide)

/-- The tree `t` is a phrase of rank `k` at the front of `ts`, and `rest` is what stands behind
it. -/
structure Found (known : String → Bool) (room k : Nat) (ts : List String) (t : Tree)
    (rest : List String) : Prop where
  tokens : t.tokens ++ rest = ts
  fits : t.Fits k
  nesting : t.nesting ≤ room
  covered : Covered known t.tokens
  ends : Ends k rest

theorem Found.length_lt {known : String → Bool} {room k : Nat} {ts rest : List String} {t : Tree}
    (h : Found known room k ts t rest) : rest.length < ts.length := by
  have ht := List.length_pos_iff.2 t.tokens_ne_nil
  rw [← h.tokens, List.length_append]
  omega

/-- What a phrase reader finds is there. -/
def PhraseSound (known : String → Bool) (room k : Nat) (ts : List String) : Prop :=
  ∀ t rest, readPhrase known room k ts = .ok (t, rest) → Found known room k ts t rest

/-- What a chain reader finds is there, if the phrase in front of it may be the left operand of the
connectives of its rank. -/
def ChainSound (known : String → Bool) (room k : Nat) (ts : List String) : Prop :=
  ∀ left t rest, readChain known room k left ts = .ok (t, rest) → left.Fits (k + 1) →
    (∀ c : Connective, c.rank = k + 1 → left.Fits c.leftRank) → left.nesting ≤ room →
    Covered known left.tokens → Ends k ts → Found known room (k + 1) (left.tokens ++ ts) t rest

variable {known : String → Bool}

theorem negation_sound {room : Nat} {r : List String} (hr : PhraseSound known room 0 r)
    {t : Tree} {rest : List String} (h : readOperand known (room + 1) ("!" :: r) = .ok (t, rest)) :
    Found known (room + 1) 0 ("!" :: r) t rest := by
  rw [readOperand_negation] at h
  cases hu : readOperand known room r with
  | error stop =>
    rw [hu] at h
    cases h
  | ok p =>
    have hf := hr p.1 p.2 (by rw [readPhrase_zero, hu])
    rw [hu] at h
    obtain ⟨rfl, rfl⟩ := Prod.mk.inj (Except.ok.inj h)
    exact ⟨congrArg ("!" :: ·) hf.tokens, hf.fits, Nat.succ_le_succ hf.nesting,
      (covered_cons (by decide)).2 hf.covered, ends_zero _⟩

theorem group_sound {room : Nat} {r : List String}
    (hr : PhraseSound known room Connective.loosest r) {t : Tree} {rest : List String}
    (h : readOperand known (room + 1) ("(" :: r) = .ok (t, rest)) :
    Found known (room + 1) 0 ("(" :: r) t rest := by
  rw [readOperand_bracket] at h
  match hu : readPhrase known room Connective.loosest r with
  | .error stop =>
    rw [hu] at h
    cases h
  | .ok (u, []) =>
    rw [hu] at h
    cases h
  | .ok (u, y :: us) =>
    have hf := hr u (y :: us) hu
    simp only [hu] at h
    split at h
    · rename_i hy
      obtain ⟨rfl, rfl⟩ := Prod.mk.inj (Except.ok.inj h)
      have hc : Covered known (u.tokens ++ [")"]) :=
        covered_append.2 ⟨hf.covered, (covered_cons (by decide)).2 (covered_nil _)⟩
      refine ⟨?_, hf.fits, Nat.succ_le_succ hf.nesting, (covered_cons (by decide)).2 hc,
        ends_zero _⟩
      rw [← hf.tokens, hy, Tree.tokens, List.cons_append, List.cons_append, List.append_assoc]
      rfl
    · cases h

theorem operand_sound (room : Nat) (ts : List String)
    (ih : ∀ room k r, r.length < ts.length → PhraseSound known room k r) :
    PhraseSound known room 0 ts := by
  intro t rest h
  rw [readPhrase_zero] at h
  match ts, room with
  | [], _ =>
    rw [readOperand_nil] at h
    cases h
  | x :: r, room =>
    have ihr := fun room k => ih room k r (Nat.lt_succ_self _)
    obtain hx | hx | hx := operand_cases x
    · rw [readOperand_name known room hx] at h
      split at h
      · rename_i hk
        obtain ⟨rfl, rfl⟩ := Prod.mk.inj (Except.ok.inj h)
        exact ⟨rfl, hx, Nat.zero_le _, (covered_singleton hx).2 hk, ends_zero _⟩
      · cases h
    · match room with
      | 0 =>
        rw [readOperand_noRoom known hx] at h
        cases h
      | room + 1 =>
        obtain rfl | rfl := hx
        · exact negation_sound (ihr room 0) h
        · exact group_sound (ihr room _) h
    · rw [readOperand_other known room hx] at h
      cases h

theorem phrase_sound (room k : Nat) (ts : List String) (ih : PhraseSound known room k ts)
    (ihc : ∀ r, r.length < ts.length → ChainSound known room k r) :
    PhraseSound known room (k + 1) ts := by
  intro t rest h
  rw [readPhrase_succ] at h
  cases hl : readPhrase known room k ts with
  | error stop =>
    rw [hl] at h
    cases h
  | ok p =>
    obtain ⟨left, us⟩ := p
    have hf := ih left us hl
    rw [hl] at h
    have hleft : ∀ c : Connective, c.rank = k + 1 → left.Fits c.leftRank := by
      intro c hc
      have hk := c.rank_le_leftRank_succ
      exact hf.fits.mono (by omega)
    rw [← hf.tokens]
    exact ihc us hf.length_lt left t rest h (hf.fits.mono (Nat.le_succ k)) hleft hf.nesting
      hf.covered hf.ends

-- What stands on both sides of a connective makes one phrase.
theorem Found.binary {c : Connective} {room k : Nat} {left right : Tree} {r rest : List String}
    (h : Found known room k r right rest) (hc : c.rank ≤ k + 1) (hl : left.Fits c.leftRank)
    (hr : right.Fits c.rightRank) (hn : left.nesting ≤ room) (hcov : Covered known left.tokens) :
    (Tree.binary c left right).tokens ++ rest = left.tokens ++ c.token :: r ∧
      (Tree.binary c left right).Fits (k + 1) ∧ (Tree.binary c left right).nesting ≤ room ∧
      Covered known (Tree.binary c left right).tokens := by
  refine ⟨?_, ⟨hc, hl, hr⟩, Nat.max_le.2 ⟨hn, h.nesting⟩,
    covered_append.2 ⟨hcov, (covered_cons (token_mem_reserved c)).2 h.covered⟩⟩
  rw [← h.tokens, Tree.tokens, List.append_assoc]
  rfl

theorem chain_sound (room k : Nat) (ts : List String)
    (ih : ∀ j r, r.length < ts.length → PhraseSound known room j r)
    (ihc : ∀ r, r.length < ts.length → ChainSound known room k r) :
    ChainSound known room k ts := by
  intro left t rest h hfits hleft hnesting hcovered hends
  by_cases hc : ∃ c r, ts = Connective.token c :: r ∧ c.rank = k + 1
  · obtain ⟨c, r, rfl, hc⟩ := hc
    have hlt := Nat.lt_succ_self r.length
    cases hg : c.groupsRight with
    | true =>
      rw [readChain_right known room k hc hg] at h
      cases hr : readPhrase known room (k + 1) r with
      | error stop =>
        rw [hr] at h
        cases h
      | ok p =>
        have hf := ih (k + 1) r hlt p.1 p.2 hr
        rw [hr] at h
        obtain ⟨rfl, rfl⟩ := Prod.mk.inj (Except.ok.inj h)
        have hright : p.1.Fits c.rightRank := by
          rw [Connective.rightRank, hg, if_pos rfl, hc]
          exact hf.fits
        obtain ⟨htokens, hfit, hn, hcov⟩ :=
          hf.binary (by omega) (hleft c hc) hright hnesting hcovered
        exact ⟨htokens, ⟨Nat.le_of_eq hc, hfit.2⟩, hn, hcov, hf.ends⟩
    | false =>
      rw [readChain_left known room k hc hg] at h
      cases hr : readPhrase known room k r with
      | error stop =>
        rw [hr] at h
        cases h
      | ok p =>
        have hf := ih k r hlt p.1 p.2 hr
        rw [hr] at h
        have hright : p.1.Fits c.rightRank := by
          rw [Connective.rightRank, hg, if_neg Bool.false_ne_true, hc]
          exact hf.fits
        obtain ⟨htokens, hfit, hn, hcov⟩ :=
          hf.binary (Nat.le_of_eq hc) (hleft c hc) hright hnesting hcovered
        -- the binary formula is the next left operand of the connectives of this rank
        have hjoined : ∀ d : Connective, d.rank = k + 1 →
            (Tree.binary c left p.1).Fits d.leftRank := by
          intro d hd
          rw [Connective.leftRank_eq_of_rank_eq (hd.trans hc.symm), Connective.leftRank, hg, hc]
          exact hfit
        rw [← htokens]
        exact ihc p.2 (Nat.lt_trans hf.length_lt hlt) _ t rest h hfit hjoined hn hcov hf.ends
  · have hstop : ∀ c r, ts = Connective.token c :: r → c.rank ≠ k + 1 :=
      fun c r h₁ h₂ => hc ⟨c, r, h₁, h₂⟩
    rw [readChain_stop known room k left hstop] at h
    obtain ⟨rfl, rfl⟩ := Prod.mk.inj (Except.ok.inj h)
    refine ⟨rfl, hfits, hnesting, hcovered, fun c r hr => ?_⟩
    have hk := hends c r hr
    have hne := hstop c r hr
    omega

theorem readPhrase_sound (room k : Nat) (ts : List String) : PhraseSound known room k ts :=
  (reading_induction operand_sound phrase_sound chain_sound room k ts).1

/-! ## Completeness -/

theorem Ends.mono {j k : Nat} {ts : List String} (h : Ends k ts) (hjk : j ≤ k) : Ends j ts :=
  fun c r hr => Nat.lt_of_le_of_lt hjk (h c r hr)

theorem readChain_ends {room k : Nat} (left : Tree) {ts : List String} (h : Ends (k + 1) ts) :
    readChain known room k left ts = .ok (left, ts) :=
  readChain_stop known room k left fun c r hr => Nat.ne_of_gt (h c r hr)

/-- As a phrase of rank `k` the tree is found whatever stands behind it. -/
def PhraseComplete (known : String → Bool) (k : Nat) (t : Tree) : Prop :=
  ∀ room rest, t.nesting ≤ room → Covered known t.tokens → Ends k rest →
    readPhrase known room k (t.tokens ++ rest) = .ok (t, rest)

/-- Reading at rank `k + 1` comes to the chain behind the tree. -/
def ChainComplete (known : String → Bool) (k : Nat) (t : Tree) : Prop :=
  ∀ room rest, t.nesting ≤ room → Covered known t.tokens → Ends k rest →
    readPhrase known room (k + 1) (t.tokens ++ rest) = readChain known room k t rest

theorem PhraseComplete.chain {k : Nat} {t : Tree} (h : PhraseComplete known k t) :
    ChainComplete known k t := by
  intro room rest hn hc he
  rw [readPhrase_succ, h room rest hn hc he]

theorem PhraseComplete.mono {j k : Nat} {t : Tree} (h : PhraseComplete known j t) (hjk : j ≤ k) :
    PhraseComplete known k t := by
  induction hjk with
  | refl => exact h
  | @step m _ ih =>
    intro room rest hn hc he
    rw [ih.chain room rest hn hc (he.mono (Nat.le_succ m)), readChain_ends t he]

theorem name_complete {x : String} (hx : x ∉ reserved) : PhraseComplete known 0 (.name x) := by
  intro room rest _ hc _
  have hk := (covered_singleton hx).1 hc
  rw [readPhrase_zero]
  exact (readOperand_name known room hx rest).trans (if_pos hk)

theorem negation_complete {t : Tree} (h : PhraseComplete known 0 t) :
    PhraseComplete known 0 (.negation t) := by
  intro room rest hn hc _
  match room, hn with
  | room + 1, hn =>
    have ht := h room rest (Nat.le_of_succ_le_succ hn) ((covered_cons (by decide)).1 hc)
      (ends_zero rest)
    rw [readPhrase_zero] at ht
    rw [readPhrase_zero, Tree.tokens, List.cons_append, readOperand_negation, ht]

theorem group_complete {t : Tree} (h : PhraseComplete known Connective.loosest t) :
    PhraseComplete known 0 (.group t) := by
  intro room rest hn hc _
  match room, hn with
  | room + 1, hn =>
    have hc' := covered_append.1 ((covered_cons (by decide)).1 hc)
    -- the closing bracket ends the phrase inside, whatever follows it
    have ht := h room (")" :: rest) (Nat.le_of_succ_le_succ hn) hc'.1 (ends_closing _ rest)
    rw [readPhrase_zero, Tree.tokens, List.cons_append, List.cons_append, List.append_assoc,
      List.singleton_append, readOperand_bracket, ht]
    exact if_pos rfl

theorem binary_chain {c : Connective} {l r : Tree} {k : Nat} (hc : c.rank = k + 1)
    (hg : c.groupsRight = false) (hl : ChainComplete known k l) (hr : PhraseComplete known k r) :
    ChainComplete known k (.binary c l r) := by
  intro room rest hn hcov he
  obtain ⟨hcl, hcr⟩ := covered_append.1 hcov
  obtain ⟨hnl, hnr⟩ := Nat.max_le.1 hn
  rw [Tree.tokens, List.append_assoc, List.cons_append,
    hl room _ hnl hcl (ends_token (by omega) _), readChain_left known room k hc hg,
    hr room rest hnr ((covered_cons (token_mem_reserved c)).1 hcr) he]

theorem binary_phrase {c : Connective} {l r : Tree} {k : Nat} (hc : c.rank = k + 1)
    (hg : c.groupsRight = true) (hl : ChainComplete known k l)
    (hr : PhraseComplete known (k + 1) r) : PhraseComplete known (k + 1) (.binary c l r) := by
  intro room rest hn hcov he
  obtain ⟨hcl, hcr⟩ := covered_append.1 hcov
  obtain ⟨hnl, hnr⟩ := Nat.max_le.1 hn
  rw [Tree.tokens, List.append_assoc, List.cons_append,
    hl room _ hnl hcl (ends_token (by omega) _), readChain_right known room k hc hg,
    hr room rest hnr ((covered_cons (token_mem_reserved c)).1 hcr) he]

theorem ChainComplete.phrase {k : Nat} {t : Tree} (h : ChainComplete known k t) :
    PhraseComplete known (k + 1) t := by
  intro room rest hn hc he
  rw [h room rest hn hc (he.mono (Nat.le_succ k)), readChain_ends t he]

-- A tree that fits is read back from its tokens. As the left operand of a connective `c` it is
-- what the chain of that connective starts from.
theorem complete (t : Tree) :
    (∀ k, t.Fits k → PhraseComplete known k t) ∧
      ∀ c : Connective, t.Fits c.leftRank → ChainComplete known (c.rank - 1) t := by
  induction t with
  | name x =>
    have h : ∀ k, x ∉ reserved → PhraseComplete known k (.name x) :=
      fun k hx => (name_complete hx).mono (Nat.zero_le k)
    exact ⟨h, fun c hx => (h _ hx).chain⟩
  | negation t ih =>
    have h : ∀ k, t.Fits 0 → PhraseComplete known k (.negation t) :=
      fun k ht => (negation_complete (ih.1 0 ht)).mono (Nat.zero_le k)
    exact ⟨h, fun c ht => (h _ ht).chain⟩
  | group t ih =>
    have h : ∀ k, t.Fits Connective.loosest → PhraseComplete known k (.group t) :=
      fun k ht => (group_complete (ih.1 _ ht)).mono (Nat.zero_le k)
    exact ⟨h, fun c ht => (h _ ht).chain⟩
  | binary c l r ihl ihr =>
    have hc : c.rank = c.rank - 1 + 1 := (Nat.succ_pred_eq_of_pos c.rank_pos).symm
    have hchain : c.groupsRight = false → l.Fits c.leftRank → r.Fits c.rightRank →
        ChainComplete known (c.rank - 1) (.binary c l r) := by
      intro hg hl hr
      rw [Connective.rightRank, hg, if_neg Bool.false_ne_true] at hr
      exact binary_chain hc hg (ihl.2 c hl) (ihr.1 _ hr)
    have hphrase : ∀ k, (Tree.binary c l r).Fits k → PhraseComplete known k (.binary c l r) := by
      rintro k ⟨hk, hl, hr⟩
      refine PhraseComplete.mono ?_ hk
      rw [hc]
      cases hg : c.groupsRight with
      | false => exact (hchain hg hl hr).phrase
      | true =>
        rw [Connective.rightRank, hg, if_pos rfl, hc] at hr
        exact binary_phrase hc hg (ihl.2 c hl) (ihr.1 _ hr)
    refine ⟨hphrase, ?_⟩
    rintro d ⟨hd, hl, hr⟩
    by_cases hlt : c.rank ≤ d.rank - 1
    · exact (hphrase _ ⟨hlt, hl, hr⟩).chain
    · -- both connectives have one rank, and its chains group from the left
      have hle := d.leftRank_le
      have heq : c.rank = d.rank := by omega
      rw [← heq]
      refine hchain ?_ hl hr
      rw [← Connective.leftRank_eq_of_rank_eq heq] at hd
      cases c <;> first | rfl | exact absurd hd (by decide)

theorem readPhrase_complete {room k : Nat} {t : Tree} {rest : List String} (hf : t.Fits k)
    (hn : t.nesting ≤ room) (hc : Covered known t.tokens) (he : Ends k rest) :
    readPhrase known room k (t.tokens ++ rest) = .ok (t, rest) :=
  (complete t).1 k hf room rest hn hc he

/-! ## Whole token lists -/

theorem ofTokens_eq (known : String → Bool) (room : Nat) (ts : List String) :
    Tree.ofTokens known room ts =
      match readPhrase known room Connective.loosest ts with
      | .error stop => .error stop
      | .ok (t, []) => .ok t
      | .ok (t, x :: rest) => .error ⟨.operatorExpected, x :: rest, [t]⟩ := by
  unfold Tree.ofTokens readPhrase
  rcases phrase known room Connective.loosest ts with stop | ⟨t, _ | ⟨x, rest⟩, h⟩ <;> rfl

/-- A token list is read as a formula exactly when it is one, nests within bounds, and has only
variables with a value. -/
theorem ofTokens_eq_ok_iff {known : String → Bool} {room : Nat} {ts : List String} {t : Tree} :
    Tree.ofTokens known room ts = .ok t ↔
      Derives .equivalence ts t ∧ t.nesting ≤ room ∧ Covered known ts := by
  rw [ofTokens_eq, derives_iff]
  constructor
  · intro h
    match hr : readPhrase known room Connective.loosest ts with
    | .error stop =>
      rw [hr] at h
      cases h
    | .ok (u, x :: rest) =>
      rw [hr] at h
      cases h
    | .ok (u, []) =>
      rw [hr] at h
      cases h
      -- nothing is left behind the phrase, so its tokens are all there are
      have hf := readPhrase_sound room _ ts t [] hr
      have hts : t.tokens = ts := by rw [← hf.tokens, List.append_nil]
      exact ⟨⟨hts, hf.fits⟩, hf.nesting, hts ▸ hf.covered⟩
  · rintro ⟨⟨rfl, hf⟩, hn, hc⟩
    have h := readPhrase_complete hf hn hc (ends_nil _)
    rw [List.append_nil] at h
    rw [h]

-- A tree that fits is read back from its own tokens.
theorem ofTokens_tokens {known : String → Bool} {room : Nat} {t : Tree}
    (hf : t.Fits Connective.loosest) (hn : t.nesting ≤ room) (hc : Covered known t.tokens) :
    Tree.ofTokens known room t.tokens = .ok t :=
  ofTokens_eq_ok_iff.2 ⟨derives_iff.2 ⟨rfl, hf⟩, hn, hc⟩

/-- A token list has at most one tree. -/
theorem Derives.unique {ts : List String} {t u : Tree} (ht : Derives .equivalence ts t)
    (hu : Derives .equivalence ts u) : t = u := by
  -- both trees are what the reader finds when it has room for both
  have hc : Covered (fun _ => true) ts := fun _ _ _ => rfl
  have h₁ := ofTokens_eq_ok_iff.2 ⟨ht, Nat.le_max_left t.nesting u.nesting, hc⟩
  have h₂ := ofTokens_eq_ok_iff.2 ⟨hu, Nat.le_max_right t.nesting u.nesting, hc⟩
  exact Except.ok.inj (h₁.symm.trans h₂)

end PropTable
