import Mathlib.Data.List.Infix
import PropTable.Proofs.LabelReading

/-!
# Pairs of brackets in a text

`Label.openAfter` counts the open groups from character to character. What it finds can be said of
the text as a whole (`Label.balanced_iff_paired`): the brackets pair up when no prefix closes more
groups than it opens and the whole text closes as many. So a label is enclosed when it is a text of
this kind in brackets, and brackets are added to a label at most once
(`Label.parenthesize_encloses`).
-/

namespace PropTable.Label

/-- Each bracket of the text has its partner in it. -/
structure Paired (cs : List Char) : Prop where
  closed_le : ∀ ps, ps <+: cs → ps.count ')' ≤ ps.count '('
  closed_eq : cs.count ')' = cs.count '('

instance (cs : List Char) : Decidable (Paired cs) :=
  decidable_of_iff ((∀ ps ∈ cs.inits, ps.count ')' ≤ ps.count '(') ∧ cs.count ')' = cs.count '(')
    ⟨fun h => ⟨fun ps hps => h.1 ps ((List.mem_inits ps cs).2 hps), h.2⟩,
      fun h => ⟨fun ps hps => h.closed_le ps ((List.mem_inits ps cs).1 hps), h.closed_eq⟩⟩

/-! ## Counting along the text and in its prefixes -/

theorem forall_prefix_cons {c : Char} {cs : List Char} {P : List Char → Prop} :
    (∀ ps, ps <+: c :: cs → P ps) ↔ P [] ∧ ∀ ps, ps <+: cs → P (c :: ps) := by
  constructor
  · intro h
    exact ⟨h [] List.nil_prefix, fun ps hps => h (c :: ps) ((List.prefix_cons_inj c).2 hps)⟩
  · rintro ⟨hnil, hcons⟩ ps hps
    obtain rfl | ⟨qs, rfl, hqs⟩ := List.prefix_cons_iff.1 hps
    · exact hnil
    · exact hcons qs hqs

-- Where `n` groups are open, a prefix may close these and the ones that it opens itself. Each
-- character moves its part of the sums over to `n`.
theorem openAfter_eq_some_iff {n k : Nat} {cs : List Char} :
    openAfter n cs = some k ↔
      (∀ ps, ps <+: cs → ps.count ')' ≤ n + ps.count '(') ∧
        k + cs.count ')' = n + cs.count '(' := by
  induction cs generalizing n with
  | nil =>
    simp only [openAfter, Option.some.injEq, List.prefix_nil, forall_eq, List.count_nil]
    omega
  | cons c cs ih =>
    rw [forall_prefix_cons]
    by_cases ho : c = '('
    · subst ho
      simp only [openAfter_open, ih, List.count_nil, List.count_cons_self,
        List.count_cons_of_ne (show '(' ≠ ')' by decide), Nat.zero_le, true_and,
        Nat.add_right_comm n 1, ← Nat.add_assoc]
    · by_cases hc : c = ')'
      · subst hc
        cases n with
        | zero =>
          rw [openAfter_close_zero]
          constructor
          · intro h
            cases h
          · rintro ⟨⟨-, hle⟩, -⟩
            have hfirst := hle [] List.nil_prefix
            simp at hfirst
        | succ n =>
          simp only [openAfter_close, ih, List.count_nil, List.count_cons_self,
            List.count_cons_of_ne (show ')' ≠ '(' by decide), Nat.zero_le, true_and,
            Nat.add_right_comm n 1, ← Nat.add_assoc, Nat.add_le_add_iff_right,
            Nat.add_right_cancel_iff]
      · simp only [openAfter_other ho hc, ih, List.count_nil, List.count_cons_of_ne ho,
          List.count_cons_of_ne hc, Nat.zero_le, true_and]

/-- The groups of a text are closed in it exactly when its brackets pair up. -/
theorem balanced_iff_paired {cs : List Char} : Balanced cs ↔ Paired cs := by
  rw [Balanced, openAfter_eq_some_iff]
  simp only [Nat.zero_add]
  exact ⟨fun h => ⟨h.1, h.2⟩, fun h => ⟨h.closed_le, h.closed_eq⟩⟩

/-! ## Enclosed labels -/

theorem isEnclosed_iff_paired (label : String) :
    isEnclosed label = true ↔ ∃ m : String, label = "(" ++ m ++ ")" ∧ Paired m.toList := by
  rw [isEnclosed_iff]
  constructor
  · rintro ⟨m, hm, hb⟩
    refine ⟨String.ofList m, ?_, ?_⟩
    · rw [← String.toList_inj, hm]
      simp only [String.toList_append, String.toList_ofList]
      rfl
    · rw [String.toList_ofList]
      exact balanced_iff_paired.1 hb
  · rintro ⟨m, rfl, hp⟩
    refine ⟨m.toList, ?_, balanced_iff_paired.2 hp⟩
    rw [String.toList_append, String.toList_append]
    rfl

/-- A label is enclosed exactly when it is a text whose brackets pair up, in a pair of brackets. If
the brackets of a label pair up, they still do so when it is put in brackets; then it is enclosed,
and is not put in brackets again. Where no name holds a bracket, the label of a formula is enclosed
if the formula is a connective or bracketed, and gets new brackets if it is a name or a negation. -/
theorem parenthesize_encloses :
    (∀ label : String, isEnclosed label = true ↔
      ∃ m : String, label = "(" ++ m ++ ")" ∧ Paired m.toList) ∧
    (∀ label : String, Paired label.toList →
      isEnclosed (parenthesize label) = true ∧ Paired (parenthesize label).toList ∧
        parenthesize (parenthesize label) = parenthesize label) ∧
    ∀ t : Tree, t.Bracketless →
      isEnclosed t.label = t.isBracketed ∧
        (Tree.group t).label = if t.isBracketed then t.label else "(" ++ t.label ++ ")" := by
  refine ⟨isEnclosed_iff_paired, fun label hp => ?_, fun t ht => ?_⟩
  · have hb := balanced_iff_paired.2 hp
    have henclosed := isEnclosed_parenthesize hb
    exact ⟨henclosed, balanced_iff_paired.1 hb.parenthesize, parenthesize_of_isEnclosed henclosed⟩
  · exact ⟨ht.isEnclosed_label, ht.label_group⟩

-- The first and the last bracket of the label belong to two groups, and those that are added to it
-- to one. A bracketed name brings the brackets that a second pair would add.
theorem parenthesize_encloses_of_two_groups :
    (Paired "(A)∧(B)".toList ∧ isEnclosed "(A)∧(B)" = false ∧
      isEnclosed (parenthesize "(A)∧(B)") = true ∧
      parenthesize (parenthesize "(A)∧(B)") = "((A)∧(B))") ∧
    (Tree.group (.name "A")).Bracketless ∧ isEnclosed (Tree.group (.name "A")).label = true ∧
      (Tree.group (.group (.name "A"))).label = "(A)" := by
  obtain ⟨-, hlabel, htree⟩ := parenthesize_encloses
  have hp : Paired "(A)∧(B)".toList := by decide
  have hplain : (Tree.group (.name "A")).Plain := by decide
  obtain ⟨henclosed, -, htwice⟩ := hlabel _ hp
  obtain ⟨hgroup, hsecond⟩ := htree _ hplain.bracketless
  exact ⟨⟨hp, by decide, henclosed, htwice.trans (by decide)⟩, hplain.bracketless, hgroup,
    hsecond.trans (by decide)⟩

end PropTable.Label
