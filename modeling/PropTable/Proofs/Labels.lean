import PropTable.Proofs.Grammar

/-!
# Brackets and other marks in labels

`Label.parenthesize` adds brackets to a label unless one pair encloses all of it already. Names may
hold brackets of their own, and the label alone does not tell these from the others. Where the names
hold none, the brackets of every label are balanced (`Tree.balanced_label`), and the pair that a
binary label brings along is recognized (`Label.isEnclosed_binary`).
-/

namespace PropTable

namespace Label

/-! ## Balanced texts -/

/-- How many groups are open behind `cs` where `n` are open before it. There is no answer when `cs`
closes a group that is not open. -/
def openAfter (n : Nat) : List Char → Option Nat
  | [] => some n
  | c :: cs =>
    if c = '(' then openAfter (n + 1) cs
    else if c = ')' then
      match n with
      | 0 => none
      | n + 1 => openAfter n cs
    else openAfter n cs

/-- Every group that the text opens or closes begins and ends in it. -/
def Balanced (cs : List Char) : Prop := openAfter 0 cs = some 0

theorem openAfter_open (n : Nat) (cs : List Char) :
    openAfter n ('(' :: cs) = openAfter (n + 1) cs := rfl

theorem openAfter_close (n : Nat) (cs : List Char) :
    openAfter (n + 1) (')' :: cs) = openAfter n cs := rfl

theorem openAfter_close_zero (cs : List Char) : openAfter 0 (')' :: cs) = none := rfl

theorem openAfter_other {c : Char} (ho : c ≠ '(') (hc : c ≠ ')') (n : Nat) (cs : List Char) :
    openAfter n (c :: cs) = openAfter n cs :=
  (if_neg ho).trans (if_neg hc)

theorem openAfter_append (n : Nat) (cs ds : List Char) :
    openAfter n (cs ++ ds) = (openAfter n cs).bind fun k => openAfter k ds := by
  induction cs generalizing n with
  | nil => rfl
  | cons c cs ih =>
    rw [List.cons_append]
    by_cases ho : c = '('
    · rw [ho, openAfter_open, openAfter_open, ih]
    · by_cases hc : c = ')'
      · cases n with
        | zero => rw [hc, openAfter_close_zero, openAfter_close_zero, Option.bind_none]
        | succ n => rw [hc, openAfter_close, openAfter_close, ih]
      · rw [openAfter_other ho hc, openAfter_other ho hc, ih]

-- Groups that are open around a text stay open.
theorem openAfter_add {n k : Nat} {cs : List Char} (h : openAfter n cs = some k) (j : Nat) :
    openAfter (n + j) cs = some (k + j) := by
  induction cs generalizing n with
  | nil =>
    obtain rfl := Option.some.inj h
    rfl
  | cons c cs ih =>
    by_cases ho : c = '('
    · rw [ho, openAfter_open] at h ⊢
      rw [Nat.add_right_comm]
      exact ih h
    · by_cases hc : c = ')'
      · cases n with
        | zero =>
          rw [hc, openAfter_close_zero] at h
          cases h
        | succ n =>
          rw [hc, openAfter_close] at h
          rw [hc, Nat.add_right_comm, openAfter_close]
          exact ih h
      · rw [openAfter_other ho hc] at h ⊢
        exact ih h

theorem Balanced.openAfter_eq {cs : List Char} (h : Balanced cs) (n : Nat) :
    openAfter n cs = some n := by
  have hn := openAfter_add h n
  rwa [Nat.zero_add] at hn

theorem balanced_of_bracketless {cs : List Char} (ho : '(' ∉ cs) (hc : ')' ∉ cs) :
    Balanced cs := by
  induction cs with
  | nil => rfl
  | cons c cs ih =>
    rw [List.mem_cons, not_or] at ho hc
    rw [Balanced, openAfter_other (Ne.symm ho.1) (Ne.symm hc.1)]
    exact ih ho.2 hc.2

theorem Balanced.append {cs ds : List Char} (hc : Balanced cs) (hd : Balanced ds) :
    Balanced (cs ++ ds) := by
  rw [Balanced, openAfter_append, show openAfter 0 cs = some 0 from hc, Option.bind_some]
  exact hd

theorem Balanced.group {cs : List Char} (h : Balanced cs) : Balanced ('(' :: cs ++ [')']) := by
  rw [Balanced, List.cons_append, openAfter_open, openAfter_append, h.openAfter_eq,
    Option.bind_some]
  rfl

/-! ## Enclosed labels -/

theorem closesAtEnd_open (n : Nat) (cs : List Char) :
    closesAtEnd n ('(' :: cs) = closesAtEnd (n + 1) cs := rfl

theorem closesAtEnd_close (n : Nat) (cs : List Char) :
    closesAtEnd (n + 1) (')' :: cs) = closesAtEnd n cs := rfl

theorem closesAtEnd_close_zero (cs : List Char) : closesAtEnd 0 (')' :: cs) = cs.isEmpty := rfl

theorem closesAtEnd_other {c : Char} (ho : c ≠ '(') (hc : c ≠ ')') (n : Nat) (cs : List Char) :
    closesAtEnd n (c :: cs) = closesAtEnd n cs :=
  (if_neg ho).trans (if_neg hc)

-- The last closing bracket comes first, or behind the character that comes first.
theorem exists_concat_cons {c x : Char} {cs : List Char} {p : List Char → Prop} :
    (∃ m, c :: cs = m ++ [x] ∧ p m) ↔
      (c = x ∧ cs = [] ∧ p []) ∨ ∃ m, cs = m ++ [x] ∧ p (c :: m) := by
  constructor
  · rintro ⟨m, hm, hp⟩
    obtain ⟨rfl, hm⟩ | ⟨m, rfl, rfl⟩ := List.cons_eq_append_iff.1 hm
    · obtain ⟨rfl, rfl⟩ := List.cons.inj hm
      exact .inl ⟨rfl, rfl, hp⟩
    · exact .inr ⟨m, rfl, hp⟩
  · rintro (⟨rfl, rfl, hp⟩ | ⟨m, rfl, hp⟩)
    · exact ⟨[], rfl, hp⟩
    · exact ⟨c :: m, rfl, hp⟩

-- The group that is open with `n` others inside it is closed by the last character exactly when the
-- characters before that one close the others and no more.
theorem closesAtEnd_iff (n : Nat) (cs : List Char) :
    closesAtEnd n cs = true ↔ ∃ m, cs = m ++ [')'] ∧ openAfter n m = some 0 := by
  induction cs generalizing n with
  | nil => simp [closesAtEnd]
  | cons c cs ih =>
    -- only a closing bracket at depth zero can be the one that ends the group
    rw [exists_concat_cons]
    by_cases ho : c = '('
    · subst ho
      rw [closesAtEnd_open, ih, or_iff_right (fun h => absurd h.1 (by decide))]
      rfl
    · by_cases hc : c = ')'
      · subst hc
        cases n with
        | zero =>
          rw [closesAtEnd_close_zero, List.isEmpty_iff, or_iff_left]
          · exact ⟨fun h => ⟨rfl, h, rfl⟩, fun h => h.2.1⟩
          · rintro ⟨m, -, hm⟩
            cases hm
        | succ n =>
          rw [closesAtEnd_close, ih, or_iff_right]
          · rfl
          · rintro ⟨-, -, hn⟩
            cases hn
      · rw [closesAtEnd_other ho hc, ih, or_iff_right (fun h => hc h.1)]
        simp only [openAfter_other ho hc]

/-- A label is enclosed exactly when it is a balanced text in a pair of brackets. -/
theorem isEnclosed_iff (label : String) :
    isEnclosed label = true ↔ ∃ m, label.toList = '(' :: m ++ [')'] ∧ Balanced m := by
  unfold isEnclosed
  cases label.toList with
  | nil => simp [enclosed]
  | cons c cs =>
    rw [enclosed, Bool.and_eq_true, decide_eq_true_iff, closesAtEnd_iff]
    simp only [List.cons_append, List.cons.injEq]
    constructor
    · rintro ⟨hc, m, hm⟩
      exact ⟨m, ⟨hc, hm.1⟩, hm.2⟩
    · rintro ⟨m, ⟨hc, hm⟩, hb⟩
      exact ⟨hc, m, hm, hb⟩

theorem toList_binary (s : Symbol) (l r : String) :
    (binary s l r).toList = '(' :: (l.toList ++ s.glyph.toList ++ r.toList) ++ [')'] := by
  simp [binary]

theorem balanced_glyph (c : Connective) : Balanced (Symbol.connective c).glyph.toList := by
  cases c <;> rfl

theorem Balanced.binary {l r : String} (c : Connective) (hl : Balanced l.toList)
    (hr : Balanced r.toList) : Balanced (binary (.connective c) l r).toList := by
  rw [toList_binary]
  exact ((hl.append (balanced_glyph c)).append hr).group

theorem Balanced.negation {operand : String} (h : Balanced operand.toList) :
    Balanced (negation operand).toList := by
  rw [Label.negation, String.toList_append]
  exact Balanced.append rfl h

-- The brackets of a binary label belong together when those of its operands are balanced.
theorem isEnclosed_binary {l r : String} (c : Connective) (hl : Balanced l.toList)
    (hr : Balanced r.toList) : isEnclosed (binary (.connective c) l r) = true := by
  rw [isEnclosed_iff]
  exact ⟨_, toList_binary _ l r, (hl.append (balanced_glyph c)).append hr⟩

-- A label that is enclosed is left alone.
theorem parenthesize_of_isEnclosed {label : String} (h : isEnclosed label = true) :
    parenthesize label = label := by
  rw [parenthesize, if_pos h]

theorem Balanced.parenthesize {label : String} (h : Balanced label.toList) :
    Balanced (parenthesize label).toList := by
  unfold Label.parenthesize
  split
  · exact h
  · rw [String.toList_append, String.toList_append]
    exact h.group

-- A bracketed label is enclosed, by its own pair of brackets or by the one that is added.
theorem isEnclosed_parenthesize {label : String} (h : Balanced label.toList) :
    isEnclosed (parenthesize label) = true := by
  unfold parenthesize
  split
  · assumption
  · rw [isEnclosed_iff]
    refine ⟨label.toList, ?_, h⟩
    rw [String.toList_append, String.toList_append]
    rfl

end Label

/-! ## Labels of formulas -/

/-- No name of the formula holds a bracket. -/
def Tree.Bracketless (t : Tree) : Prop :=
  ∀ x ∈ t.names, '(' ∉ x.toList ∧ ')' ∉ x.toList

theorem Tree.Bracketless.left {c : Connective} {l r : Tree} (h : (binary c l r).Bracketless) :
    l.Bracketless :=
  fun x hx => h x (List.mem_append_left r.names hx)

theorem Tree.Bracketless.right {c : Connective} {l r : Tree} (h : (binary c l r).Bracketless) :
    r.Bracketless :=
  fun x hx => h x (List.mem_append_right l.names hx)

/-- The brackets of a label are balanced when no name holds a bracket. -/
theorem Tree.balanced_label {t : Tree} (h : t.Bracketless) : Label.Balanced t.label.toList := by
  induction t with
  | name x =>
    obtain ⟨ho, hc⟩ := h x (List.mem_singleton.2 rfl)
    exact Label.balanced_of_bracketless ho hc
  | negation t ih => exact (ih h).negation
  | binary c l r ihl ihr => exact .binary c (ihl h.left) (ihr h.right)
  | group t ih => exact (ih h).parenthesize

/-! ## Names without marks -/

/-- The characters that stand for symbols in a label. -/
def Label.marks : List Char := Symbol.all.flatMap fun s => s.glyph.toList

example : Label.marks = ['¬', '∧', '∨', '⊕', '→', '↔', '(', ')'] := rfl

/-- No character of the text stands for a symbol. -/
def Label.Plain (x : String) : Prop := ∀ c ∈ x.toList, c ∉ marks

instance (x : String) : Decidable (Label.Plain x) :=
  List.decidableBAll (· ∉ Label.marks) x.toList

/-- All names of the formula are plain. -/
def Tree.Plain (t : Tree) : Prop := ∀ x ∈ t.names, Label.Plain x

instance (t : Tree) : Decidable t.Plain :=
  List.decidableBAll Label.Plain t.names

theorem Tree.Plain.bracketless {t : Tree} (h : t.Plain) : t.Bracketless := by
  intro x hx
  constructor
  · exact fun ho => h x hx '(' ho (by decide)
  · exact fun hc => h x hx ')' hc (by decide)

-- The label of a negation or connective is never that of a name.
theorem Tree.not_plain_label {t u : Tree} (hu : u ∈ t.nodes) : ¬ Label.Plain u.label := by
  induction t with
  | name x => cases hu
  | negation t ih =>
    obtain hu | hu := List.mem_append.1 hu
    · exact ih hu
    · obtain rfl := List.mem_singleton.1 hu
      intro hp
      refine hp '¬' ?_ (by decide)
      rw [label, Label.negation, String.toList_append]
      exact List.mem_cons_self
  | binary c l r ihl ihr =>
    obtain hu | hu := List.mem_append.1 hu
    · exact ihl hu
    obtain hu | hu := List.mem_append.1 hu
    · exact ihr hu
    · obtain rfl := List.mem_singleton.1 hu
      intro hp
      refine hp '(' ?_ (by decide)
      rw [label, Label.toList_binary]
      exact List.mem_cons_self
  | group t ih => exact ih hu

end PropTable
