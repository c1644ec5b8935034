import PropTable.Proofs.Labels
import PropTable.Proofs.Language

/-!
# Renderings of a formula

A formula without brackets is written down by putting brackets around some of its binary formulas:
around those that would be read differently without, and around any others (`Renders`). The fewest
brackets that do are those of `Tree.minimal`, and `Tree.full` brackets every binary formula. All
renderings evaluate alike (`evaluate_rendering`).
-/

namespace PropTable

namespace Tree

/-- Whether the formula has no brackets. -/
def Bare : Tree → Prop
  | .name _ => True
  | .negation t => t.Bare
  | .binary _ l r => l.Bare ∧ r.Bare
  | .group _ => False

/-- The formula with brackets only where a connective binds too loosely for its place. -/
def minimal (k : Nat) : Tree → Tree
  | .name x => .name x
  | .negation t => .negation (t.minimal 0)
  | .binary c l r =>
    if c.rank ≤ k then .binary c (l.minimal c.leftRank) (r.minimal c.rightRank)
    else .group (.binary c (l.minimal c.leftRank) (r.minimal c.rightRank))
  | .group t => t.minimal k

/-- The formula with brackets around every connective and its operands. -/
def full : Tree → Tree
  | .name x => .name x
  | .negation t => .negation t.full
  | .binary c l r => .group (.binary c l.full r.full)
  | .group t => t.full

-- In a place of its own a formula needs no brackets around it.
theorem minimal_eq_or (k : Nat) (t : Tree) :
    t.minimal k = t.minimal Connective.loosest ∨
      t.minimal k = .group (t.minimal Connective.loosest) := by
  induction t with
  | name x => exact .inl rfl
  | negation t _ => exact .inl rfl
  | binary c l r _ _ =>
    rw [minimal, minimal, if_pos c.rank_le_loosest]
    split
    · exact .inl rfl
    · exact .inr rfl
  | group t ih => exact ih

/-- No brackets of the minimal rendering can be spared: all of them stand in every text that is read
as the same formula. -/
theorem Fits.minimal_sublist {k : Nat} {t : Tree} (h : t.Fits k) :
    (t.minimal k).tokens.Sublist t.tokens := by
  induction t generalizing k with
  | name x => exact .refl _
  | negation t ih => exact (ih h).cons_cons "!"
  | binary c l r ihl ihr =>
    rw [minimal, if_pos h.1]
    exact (ihl h.2.1).append ((ihr h.2.2).cons_cons c.token)
  | group t ih =>
    have hin : (t.minimal Connective.loosest).tokens.Sublist t.tokens := ih h
    -- a pair around the formula may be one that its place needs, or one too many
    rw [minimal]
    rcases minimal_eq_or k t with hk | hk
    · rw [hk]
      exact (hin.trans (List.sublist_append_left _ _)).cons "("
    · rw [hk]
      exact (hin.append (.refl [")"])).cons_cons "("

end Tree

/-- `Renders k e t` says that `t` is `e` with pairs of brackets around some of its binary formulas,
and at least around those that bind too loosely for their place, where phrases up to rank `k` may
stand in the place of `e`. -/
inductive Renders : Nat → Tree → Tree → Prop where
  | name {k x} : Renders k (.name x) (.name x)
  | negation {k e t} : Renders 0 e t → Renders k (.negation e) (.negation t)
  | binary {k c l r t u} : c.rank ≤ k → Renders c.leftRank l t → Renders c.rightRank r u →
      Renders k (.binary c l r) (.binary c t u)
  | group {k c l r t} : Renders Connective.loosest (.binary c l r) t →
      Renders k (.binary c l r) (.group t)

namespace Renders

variable {k : Nat} {e t : Tree}

theorem minimal (h : e.Bare) : Renders k e (e.minimal k) := by
  induction e generalizing k with
  | name x => exact .name
  | negation e ih => exact .negation (ih h)
  | binary c l r ihl ihr =>
    rw [Tree.minimal]
    split
    case isTrue hk => exact .binary hk (ihl h.1) (ihr h.2)
    case isFalse => exact .group (.binary c.rank_le_loosest (ihl h.1) (ihr h.2))
  | group e _ => exact h.elim

theorem full (h : e.Bare) : Renders k e e.full := by
  induction e generalizing k with
  | name x => exact .name
  | negation e ih => exact .negation (ih h)
  | binary c l r ihl ihr => exact .group (.binary c.rank_le_loosest (ihl h.1) (ihr h.2))
  | group e _ => exact h.elim

-- A rendering is read as it stands.
theorem fits (h : Renders k e t) (hn : ∀ x ∈ e.names, x ∉ reserved) : t.Fits k := by
  induction h with
  | @name _ x => exact hn x (List.mem_singleton.2 rfl)
  | negation _ ih => exact ih hn
  | binary hk _ _ ihl ihr =>
    refine ⟨hk, ihl fun x hx => hn x ?_, ihr fun x hx => hn x ?_⟩
    · exact List.mem_append_left _ hx
    · exact List.mem_append_right _ hx
  | group _ ih => exact ih hn

theorem value_eq (h : Renders k e t) (ρ : String → Bool) : t.value ρ = e.value ρ := by
  induction h with
  | name => rfl
  | negation _ ih => rw [Tree.value, Tree.value, ih]
  | binary _ _ _ ihl ihr => rw [Tree.value, Tree.value, ihl, ihr]
  | group _ ih => exact ih

-- The brackets of a rendering do not show in its label.
theorem label_eq (h : Renders k e t) (hn : e.Bracketless) : t.label = e.label := by
  induction h with
  | name => rfl
  | negation _ ih => rw [Tree.label, Tree.label, ih hn]
  | binary _ _ _ ihl ihr => rw [Tree.label, Tree.label, ihl hn.left, ihr hn.right]
  | @group _ c l r t _ ih =>
    have hl := Tree.balanced_label hn.left
    have hr := Tree.balanced_label hn.right
    change Label.parenthesize t.label = _
    rw [ih hn]
    exact Label.parenthesize_of_isEnclosed (Label.isEnclosed_binary c hl hr)

-- Nor do they show in the readings of its negations and connectives.
theorem readings_eq (h : Renders k e t) (hn : e.Bracketless) (ρ : String → Bool) :
    t.nodes.map (Tree.reading ρ) = e.nodes.map (Tree.reading ρ) := by
  induction h with
  | name => rfl
  | negation h ih =>
    have hroot := (negation (k := 0) h).label_eq hn
    rw [Tree.nodes, Tree.nodes, List.map_append, List.map_append, ih hn, List.map_singleton,
      List.map_singleton, Tree.reading, Tree.reading, hroot, (negation (k := 0) h).value_eq]
  | binary hk hl hr ihl ihr =>
    have h := binary hk hl hr
    rw [Tree.nodes, Tree.nodes, List.map_append, List.map_append, List.map_append, List.map_append,
      ihl hn.left, ihr hn.right, List.map_singleton, List.map_singleton, Tree.reading,
      Tree.reading, h.label_eq hn, h.value_eq]
  | group _ ih => exact ih hn

theorem recorded_eq (h : Renders k e t) (hn : e.Bracketless) (ρ : String → Bool)
    (ex : List String) : t.recorded ρ ex = e.recorded ρ ex := by
  rw [Tree.recorded, h.readings_eq hn, Tree.recorded]

end Renders

end PropTable
