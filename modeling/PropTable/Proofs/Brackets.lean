import Mathlib.Data.List.Infix
import PropTable.Proofs.Composition
import PropTable.Proofs.Labels

/-!
# Redundant brackets

Brackets around a whole formula change nothing but its nesting. Where no name holds a bracket, the
same goes for a second pair of brackets next to one that is there, anywhere in the formula
(`evaluate_brackets`). Two brackets are a pair when those between them pair up (`Matched`). Then
what they enclose is a formula of its own (`Tree.exists_doubled`), and its label is enclosed already
when the second pair is read.
-/

namespace PropTable

/-! ## Pairs of brackets among tokens -/

/-- Each bracket among the tokens has its partner among them. -/
structure Matched (ts : List String) : Prop where
  closed_le : ∀ ps, ps <+: ts → ps.count ")" ≤ ps.count "("
  closed_eq : ts.count ")" = ts.count "("

instance (ts : List String) : Decidable (Matched ts) :=
  decidable_of_iff ((∀ ps ∈ ts.inits, ps.count ")" ≤ ps.count "(") ∧ ts.count ")" = ts.count "(")
    ⟨fun h => ⟨fun ps hps => h.1 ps ((List.mem_inits ps ts).2 hps), h.2⟩,
      fun h => ⟨fun ps hps => h.closed_le ps ((List.mem_inits ps ts).1 hps), h.closed_eq⟩⟩

namespace Matched

variable {ts us : List String}

theorem singleton {x : String} (ho : x ≠ "(") (hc : x ≠ ")") : Matched [x] := by
  have hclose : [x].count ")" = 0 := List.count_eq_zero.2 fun h => hc (List.mem_singleton.1 h).symm
  have hopen : [x].count "(" = 0 := List.count_eq_zero.2 fun h => ho (List.mem_singleton.1 h).symm
  constructor
  · intro ps hps
    have hle := hps.sublist.count_le ")"
    omega
  · rw [hclose, hopen]

theorem append (ht : Matched ts) (hu : Matched us) : Matched (ts ++ us) := by
  constructor
  · intro ps hps
    obtain h | ⟨qs, rfl⟩ := List.prefix_or_prefix_of_prefix hps (List.prefix_append ts us)
    · exact ht.closed_le ps h
    · have hle := hu.closed_le qs ((List.prefix_append_right_inj ts).1 hps)
      have heq := ht.closed_eq
      rw [List.count_append, List.count_append]
      omega
  · rw [List.count_append, List.count_append, ht.closed_eq, hu.closed_eq]

theorem cons {x : String} (ho : x ≠ "(") (hc : x ≠ ")") (h : Matched ts) : Matched (x :: ts) :=
  (singleton ho hc).append h

theorem bracketed (h : Matched ts) : Matched (bracketed ts) := by
  have heq := h.closed_eq
  constructor
  · intro ps hps
    obtain rfl | ⟨qs, rfl, hqs⟩ := List.prefix_cons_iff.1 hps
    · exact Nat.le_refl _
    rw [List.count_cons_self, List.count_cons_of_ne (by decide)]
    obtain h' | ⟨rs, rfl⟩ := List.prefix_or_prefix_of_prefix hqs (List.prefix_append ts [")"])
    · exact Nat.le_succ_of_le (h.closed_le qs h')
    · have hle := ((List.prefix_append_right_inj ts).1 hqs).sublist.count_le ")"
      rw [List.count_singleton_self] at hle
      rw [List.count_append, List.count_append]
      omega
  · rw [PropTable.bracketed, List.count_append, List.count_append, List.count_singleton_self,
      List.count_cons_self, List.count_cons_of_ne (by decide), heq]
    rfl

-- Behind a bracket that is opened in matched tokens, its partner comes before the end.
theorem not_prefix {ps es gs : List String} (h : Matched (ps ++ "(" :: es)) (hg : Matched gs) :
    ¬ es <+: gs := by
  intro hes
  have hle := hg.closed_le es hes
  have hle' := h.closed_le ps (List.prefix_append ps _)
  have heq := h.closed_eq
  rw [List.count_append, List.count_append, List.count_cons_self,
    List.count_cons_of_ne (by decide)] at heq
  omega

/-- A bracket that is opened in matched tokens is closed in them. -/
theorem partner {ps es ds gs post : List String} (h : Matched (ps ++ "(" :: es)) (hg : Matched gs)
    (heq : gs ++ ")" :: post = es ++ ds) :
    ∃ fs, es = gs ++ ")" :: fs ∧ post = fs ++ ds := by
  obtain ⟨rs, rfl, hrs⟩ | ⟨rs, rfl, -⟩ := List.append_eq_append_iff.1 heq
  · obtain ⟨rfl, -⟩ | ⟨fs, rfl, hpost⟩ := List.cons_eq_append_iff.1 hrs
    · rw [List.append_nil] at h
      exact absurd List.prefix_rfl (h.not_prefix hg)
    · exact ⟨fs, rfl, hpost⟩
  · exact absurd (List.prefix_append es rs) (h.not_prefix hg)

end Matched

theorem Connective.token_ne_open (c : Connective) : c.token ≠ "(" := by cases c <;> decide

theorem Connective.token_ne_close (c : Connective) : c.token ≠ ")" := by cases c <;> decide

theorem Tree.Fits.matched {k : Nat} {t : Tree} (h : t.Fits k) : Matched t.tokens := by
  induction t generalizing k with
  | name x =>
    refine .singleton ?_ ?_
    · rintro rfl
      exact h (by decide)
    · rintro rfl
      exact h (by decide)
  | negation t ih => exact .cons (by decide) (by decide) (ih (k := 0) h)
  | binary c l r ihl ihr =>
    exact (ihl h.2.1).append (.cons c.token_ne_open c.token_ne_close (ihr h.2.2))
  | group t ih => exact (ih (k := Connective.loosest) h).bracketed

-- Of two places with different tokens, one comes first.
theorem append_cons_eq_append_cons {x y : String} {as bs cs ds : List String} (hxy : x ≠ y)
    (h : as ++ x :: bs = cs ++ y :: ds) :
    (∃ es, cs = as ++ x :: es ∧ bs = es ++ y :: ds) ∨
      ∃ es, as = cs ++ y :: es ∧ ds = es ++ x :: bs := by
  obtain ⟨rs, rfl, hrs⟩ | ⟨rs, rfl, hrs⟩ := List.append_eq_append_iff.1 h
  · obtain ⟨rfl, he⟩ | ⟨es, rfl, he⟩ := List.cons_eq_append_iff.1 hrs
    · exact absurd (List.cons.inj he).1.symm hxy
    · exact .inl ⟨es, rfl, he⟩
  · obtain ⟨rfl, he⟩ | ⟨es, rfl, he⟩ := List.cons_eq_append_iff.1 hrs
    · exact absurd (List.cons.inj he).1 hxy
    · exact .inr ⟨es, rfl, he⟩

/-! ## A second pair of brackets -/

/-- The second formula is the first with one pair of brackets doubled. -/
inductive Doubled : Tree → Tree → Prop where
  | here (t : Tree) : Doubled (.group t) (.group (.group t))
  | negation {t t' : Tree} : Doubled t t' → Doubled (.negation t) (.negation t')
  | left {l l' : Tree} (c : Connective) (r : Tree) :
      Doubled l l' → Doubled (.binary c l r) (.binary c l' r)
  | right {r r' : Tree} (c : Connective) (l : Tree) :
      Doubled r r' → Doubled (.binary c l r) (.binary c l r')
  | group {t t' : Tree} : Doubled t t' → Doubled (.group t) (.group t')

namespace Doubled

variable {t t' : Tree}

theorem fits (h : Doubled t t') {k : Nat} (ht : t.Fits k) : t'.Fits k := by
  induction h generalizing k with
  | here t => exact ht
  | negation _ ih => exact ih (k := 0) ht
  | left c r _ ih => exact ⟨ht.1, ih ht.2.1, ht.2.2⟩
  | right c l _ ih => exact ⟨ht.1, ht.2.1, ih ht.2.2⟩
  | group _ ih => exact ih (k := Connective.loosest) ht

theorem nesting_le (h : Doubled t t') : 0 < t.nesting ∧ t'.nesting ≤ t.nesting + 1 := by
  induction h with
  | here t => exact ⟨Nat.succ_pos _, Nat.le_refl _⟩
  | negation _ ih => exact ⟨Nat.succ_pos _, Nat.succ_le_succ ih.2⟩
  | left c r _ ih =>
    simp only [Tree.nesting]
    omega
  | right c l _ ih =>
    simp only [Tree.nesting]
    omega
  | group _ ih => exact ⟨Nat.succ_pos _, Nat.succ_le_succ ih.2⟩

-- The rest of the formula sees nothing of an operand but its survey.
theorem survey_eq (h : Doubled t t') (ht : t.Bracketless) (ρ : String → Bool) :
    t'.survey ρ = t.survey ρ := by
  induction h with
  | here t =>
    have henclosed := Label.isEnclosed_parenthesize (Tree.balanced_label (t := t) ht)
    rw [Tree.survey, Tree.survey, Tree.survey_eq, Label.parenthesize_of_isEnclosed henclosed]
  | negation _ ih => rw [Tree.survey, ih ht, Tree.survey]
  | left c r _ ih => rw [Tree.survey, ih ht.left, Tree.survey]
  | right c l _ ih => rw [Tree.survey, ih ht.right, Tree.survey]
  | group _ ih => rw [Tree.survey, ih ht, Tree.survey]

theorem evaluation_eq (h : Doubled t t') (ht : t.Bracketless) (ρ : String → Bool)
    (ex : List String) : t'.evaluation ρ ex = t.evaluation ρ ex := by
  have hsurvey := h.survey_eq ht ρ
  rw [Tree.survey_eq, Tree.survey_eq] at hsurvey
  obtain ⟨hvalue, -, hreadings⟩ := Tree.Survey.mk.inj hsurvey
  rw [Tree.evaluation, Tree.evaluation, Tree.recorded, Tree.recorded, hvalue, hreadings]

-- A name that closes and opens brackets hides the pair around it from the second one.
example : (Tree.group (.name ")(")).label = "()()" ∧
    (Tree.group (.group (.name ")("))).label = "(()())" := by decide

end Doubled

/-- A pair of brackets among the tokens of a formula encloses a formula. So the tokens with this
pair doubled are those of a formula as well. -/
theorem Tree.exists_doubled {k : Nat} {t : Tree} {pre g post : List String} (h : t.Fits k)
    (hg : Matched g) (heq : t.tokens = pre ++ "(" :: (g ++ ")" :: post)) :
    ∃ t', Doubled t t' ∧ t'.tokens = pre ++ (bracketed (bracketed g) ++ post) := by
  induction t generalizing k pre post with
  | name x =>
    have hlen := congrArg List.length heq
    simp only [tokens, List.length_append, List.length_cons, List.length_nil] at hlen
    omega
  | negation t ih =>
    obtain ⟨-, he⟩ | ⟨pre', rfl, ht⟩ := List.cons_eq_append_iff.1 heq
    · exact absurd (List.cons.inj he).1 (by decide)
    · obtain ⟨t', hd, ht'⟩ := ih (k := 0) h ht
      exact ⟨.negation t', .negation hd, congrArg ("!" :: ·) ht'⟩
  | binary c l r ihl ihr =>
    obtain ⟨pre', rfl, hr⟩ | ⟨es, hl, he⟩ := append_cons_eq_append_cons c.token_ne_open heq
    · obtain ⟨r', hd, hr'⟩ := ihr h.2.2 hr
      refine ⟨.binary c l r', .right c l hd, ?_⟩
      rw [tokens, hr', List.append_assoc]
      rfl
    -- the partner of a bracket in the left operand is there as well
    · have hmatched := h.2.1.matched
      rw [hl] at hmatched
      obtain ⟨post', rfl, rfl⟩ := hmatched.partner hg he
      obtain ⟨l', hd, hl'⟩ := ihl h.2.1 hl
      refine ⟨.binary c l' r, .left c r hd, ?_⟩
      rw [tokens, hl', List.append_assoc, List.append_assoc]
  | group t ih =>
    have hmatched := (show t.Fits Connective.loosest from h).matched
    obtain ⟨rfl, he⟩ | ⟨pre', rfl, he⟩ := List.cons_eq_append_iff.1 heq
    -- the pair is that of the group itself, or it stands inside of it
    · have hclosed : t.tokens ++ ")" :: [] = (g ++ [")"]) ++ post := by
        rw [List.append_assoc]
        exact (List.cons.inj he).2.symm
      have hgroup : Matched ([] ++ "(" :: (g ++ [")"])) := hg.bracketed
      obtain ⟨fs, hfs, hnil⟩ := hgroup.partner hmatched hclosed
      obtain ⟨rfl, rfl⟩ := List.append_eq_nil_iff.1 hnil.symm
      obtain rfl := List.append_cancel_right hfs
      refine ⟨.group (.group t), .here t, ?_⟩
      rw [List.append_nil]
      rfl
    · obtain ⟨es, -, hnil⟩ | ⟨es, ht, he⟩ := append_cons_eq_append_cons (by decide) he
      · exact absurd hnil.symm (List.append_ne_nil_of_right_ne_nil es (List.cons_ne_nil _ _))
      · rw [ht] at hmatched
        obtain ⟨post', rfl, rfl⟩ := hmatched.partner hg he
        obtain ⟨t', hd, ht'⟩ := ih (k := Connective.loosest) h ht
        refine ⟨.group t', .group hd, ?_⟩
        rw [tokens, ht', List.cons_append, List.append_assoc, List.append_assoc]
        rfl

-- A formula with a pair of brackets doubled is read wherever there is room for one more level.
theorem ofTokens_doubled {known : String → Bool} {room : Nat} {pre g post : List String} {t : Tree}
    (h : Tree.ofTokens known room (pre ++ bracketed g ++ post) = .ok t) (hg : Matched g) :
    ∃ t', Doubled t t' ∧ ∀ room', room + 1 ≤ room' →
      Tree.ofTokens known room' (pre ++ bracketed (bracketed g) ++ post) = .ok t' := by
  obtain ⟨htokens, hfits, hnesting, hcovered⟩ := ofTokens_eq_ok_iff_tokens.1 h
  have hplace : t.tokens = pre ++ "(" :: (g ++ ")" :: post) := by
    rw [htokens, List.append_assoc, bracketed, List.append_assoc]
    rfl
  obtain ⟨t', hd, htokens'⟩ := Tree.exists_doubled hfits hg hplace
  refine ⟨t', hd, fun room' hroom => ?_⟩
  rw [ofTokens_eq_ok_iff_tokens, htokens', List.append_assoc]
  have hle := hd.nesting_le.2
  refine ⟨rfl, hd.fits hfits, by omega, ?_⟩
  rw [covered_append, covered_append] at hcovered
  rw [covered_append, covered_append]
  exact ⟨hcovered.1.1, covered_bracketed hcovered.1.2, hcovered.2⟩

/-! ## Evaluation -/

/-- A formula with a value has the same value and trace in brackets. Where its names hold no
brackets, it also has them when any pair of brackets in it is doubled. Both take room for one more
level of nesting. -/
theorem evaluate_brackets (a : Assignment) (ex : List String) (d : Int) :
    (∀ ts e, (evaluate ts a ex d).outcome = .ok e → ∀ limit : Int, max d 0 + 1 ≤ limit →
      (evaluate (bracketed ts) a ex limit).outcome = .ok e) ∧
    ∀ pre g post e, (evaluate (pre ++ bracketed g ++ post) a ex d).outcome = .ok e → Matched g →
      (∀ x ∈ pre ++ bracketed g ++ post, x ∉ reserved → '(' ∉ x.toList ∧ ')' ∉ x.toList) →
      ∀ limit : Int, d + 1 ≤ limit →
        (evaluate (pre ++ bracketed (bracketed g) ++ post) a ex limit).outcome = .ok e := by
  constructor
  · intro ts e h limit hlimit
    obtain ⟨t, ht⟩ := ofTokens_of_evaluate h
    rw [outcome_of_tree ht] at h
    rw [outcome_of_tree (ofTokens_bracketed ht (by omega))]
    exact h
  · intro pre g post e h hg hnames limit hlimit
    obtain ⟨t, ht⟩ := ofTokens_of_evaluate h
    obtain ⟨t', hd, hread⟩ := ofTokens_doubled ht hg
    obtain ⟨htokens, hfits, hnesting, -⟩ := ofTokens_eq_ok_iff_tokens.1 ht
    -- a formula with brackets in it has no value under a limit below one
    have hpos := hd.nesting_le.1
    have hroom : d.toNat + 1 ≤ limit.toNat := by omega
    rw [← htokens] at hnames
    have hbracketless : t.Bracketless := fun x hx =>
      hnames x (Tree.mem_tokens_of_mem_names hx) (hfits.not_reserved hx)
    rw [outcome_of_tree ht] at h
    rw [outcome_of_tree (hread _ hroom), hd.evaluation_eq hbracketless]
    exact h

-- The brackets of a negation with a bracket in its name, and a pair around another pair.
theorem evaluate_brackets_of_nested_pairs :
    (∃ e, (evaluate ["!", "(A"] [("(A", .flag true)] [] 1).outcome = .ok e ∧
      e.trace = [("¬(A", false)] ∧
      (evaluate ["(", "!", "(A", ")"] [("(A", .flag true)] [] 2).outcome = .ok e) ∧
    ∃ e, (evaluate ["!", "(", "(", "P", ")", "&&", "Q", ")", "->", "R"]
        [("P", .int 1), ("Q", .null), ("R", .flag false)] ["P", "Q", "R"] 3).outcome = .ok e ∧
      e.trace = [("((P)∧Q)", false), ("¬((P)∧Q)", true), ("(¬((P)∧Q)→R)", false)] ∧
      (evaluate ["!", "(", "(", "(", "P", ")", "&&", "Q", ")", ")", "->", "R"]
        [("P", .int 1), ("Q", .null), ("R", .flag false)] ["P", "Q", "R"] 4).outcome = .ok e := by
  constructor
  · let a : Assignment := [("(A", .flag true)]
    have hread : Tree.ofTokens a.known 1 ["!", "(A"] = .ok _ :=
      ofTokens_tokens (t := .negation (.name "(A")) (by decide) (by decide) (by decide)
    have h := @outcome_of_tree _ [] _ a 1 hread
    refine ⟨_, h, by decide, ?_⟩
    exact (evaluate_brackets a [] 1).1 _ _ h 2 (by decide)
  · let a : Assignment := [("P", .int 1), ("Q", .null), ("R", .flag false)]
    have hread : Tree.ofTokens a.known 3
        ["!", "(", "(", "P", ")", "&&", "Q", ")", "->", "R"] = .ok _ :=
      ofTokens_tokens (t := .binary .implies
        (.negation (.group (.binary .and (.group (.name "P")) (.name "Q")))) (.name "R"))
        (by decide) (by decide) (by decide)
    have h := @outcome_of_tree _ ["P", "Q", "R"] _ a 3 hread
    refine ⟨_, h, by decide, ?_⟩
    exact (evaluate_brackets a ["P", "Q", "R"] 3).2 ["!"] ["(", "P", ")", "&&", "Q"] ["->", "R"] _
      h (by decide) (by decide) 4 (by decide)

end PropTable
