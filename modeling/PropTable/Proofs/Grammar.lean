import PropTable.Formula.Tree

/-!
# The grammar of formulas

A formula is an equivalence, and each kind of phrase is made of phrases that bind tighter:

    Equivalence := Implication ('<->' Implication)*
    Implication := OrXor ('->' Implication)?
    OrXor       := And (('||' | 'xor') And)*
    And         := Not ('&&' Not)*
    Not         := '!' Not | Primary
    Primary     := '(' Equivalence ')' | Variable

`Derives` is this grammar together with the tree of each phrase. The repetitions group from the
left, so they are written as left recursion. A tree has only one text (`Tree.tokens`), and the trees
of the grammar are those whose operands bind tightly enough (`Tree.Fits`); `derives_iff` says so.
-/

namespace PropTable

/-- The tokens with a fixed meaning. Every other text is a variable. -/
def reserved : List String := ["!", "&&", "||", "xor", "->", "<->", "(", ")"]

theorem reserved_eq : reserved = Symbol.all.map Symbol.spelling := rfl

theorem ofToken?_eq_none_iff (x : String) : Symbol.ofToken? x = none ↔ x ∉ reserved := by
  rw [reserved_eq, Symbol.ofToken?, List.find?_eq_none, List.mem_map]
  simp only [beq_iff_eq, not_exists, not_and]

/-! ## Phrases -/

/-- The kinds of phrases, from the loosest to the tightest. -/
inductive Category where
  | equivalence
  | implication
  | orXor
  | and
  | not
  | primary
deriving DecidableEq, Repr

/-- `Derives k ts t` says that the tokens `ts` are a phrase of kind `k` and that `t` is its tree. -/
inductive Derives : Category → List String → Tree → Prop where
  | equivalence {ts t} : Derives .implication ts t → Derives .equivalence ts t
  | iff {ts us t u} : Derives .equivalence ts t → Derives .implication us u →
      Derives .equivalence (ts ++ "<->" :: us) (.binary .iff t u)
  | implication {ts t} : Derives .orXor ts t → Derives .implication ts t
  | implies {ts us t u} : Derives .orXor ts t → Derives .implication us u →
      Derives .implication (ts ++ "->" :: us) (.binary .implies t u)
  | orXor {ts t} : Derives .and ts t → Derives .orXor ts t
  | or {ts us t u} : Derives .orXor ts t → Derives .and us u →
      Derives .orXor (ts ++ "||" :: us) (.binary .or t u)
  | xor {ts us t u} : Derives .orXor ts t → Derives .and us u →
      Derives .orXor (ts ++ "xor" :: us) (.binary .xor t u)
  | and {ts t} : Derives .not ts t → Derives .and ts t
  | conj {ts us t u} : Derives .and ts t → Derives .not us u →
      Derives .and (ts ++ "&&" :: us) (.binary .and t u)
  | negation {ts t} : Derives .not ts t → Derives .not ("!" :: ts) (.negation t)
  | not {ts t} : Derives .primary ts t → Derives .not ts t
  | group {ts t} : Derives .equivalence ts t → Derives .primary ("(" :: ts ++ [")"]) (.group t)
  | variable {x} : x ∉ reserved → Derives .primary [x] (.name x)

/-! ## Trees as phrases -/

namespace Connective

/-- The token of a connective. -/
def token (c : Connective) : String := (Symbol.connective c).spelling

/-- The loosest rank that the left operand may have. -/
def leftRank (c : Connective) : Nat := if c.groupsRight then c.rank - 1 else c.rank

/-- The loosest rank that the right operand may have. -/
def rightRank (c : Connective) : Nat := if c.groupsRight then c.rank else c.rank - 1

theorem leftRank_le (c : Connective) : c.leftRank ≤ c.rank := by cases c <;> decide

theorem rank_le_leftRank_succ (c : Connective) : c.rank ≤ c.leftRank + 1 := by
  cases c <;> decide

-- Connectives of one rank group their chains alike.
theorem leftRank_eq_of_rank_eq {c d : Connective} (h : c.rank = d.rank) :
    c.leftRank = d.leftRank := by
  cases c <;> cases d <;> first | rfl | exact absurd h (by decide)

end Connective

namespace Tree

/-- The tokens of a formula. -/
def tokens : Tree → List String
  | .name x => [x]
  | .negation t => "!" :: t.tokens
  | .binary c l r => l.tokens ++ c.token :: r.tokens
  | .group t => "(" :: t.tokens ++ [")"]

/-- How many negations and brackets enclose the most enclosed place of the formula. -/
def nesting : Tree → Nat
  | .name _ => 0
  | .negation t => t.nesting + 1
  | .binary _ l r => max l.nesting r.nesting
  | .group t => t.nesting + 1

/-- Whether the formula is the tree of its own tokens where phrases up to rank `k` may stand. -/
def Fits : Nat → Tree → Prop
  | _, .name x => x ∉ reserved
  | _, .negation t => t.Fits 0
  | k, .binary c l r => c.rank ≤ k ∧ l.Fits c.leftRank ∧ r.Fits c.rightRank
  | _, .group t => t.Fits Connective.loosest

instance Fits.decide : (k : Nat) → (t : Tree) → Decidable (t.Fits k)
  | _, .name x => inferInstanceAs (Decidable (x ∉ reserved))
  | _, .negation t => Fits.decide 0 t
  | k, .binary c l r =>
    haveI := Fits.decide c.leftRank l
    haveI := Fits.decide c.rightRank r
    inferInstanceAs (Decidable (c.rank ≤ k ∧ l.Fits c.leftRank ∧ r.Fits c.rightRank))
  | _, .group t => Fits.decide Connective.loosest t

theorem Fits.mono {j k : Nat} {t : Tree} (h : t.Fits j) (hjk : j ≤ k) : t.Fits k := by
  cases t with
  | binary c l r => exact ⟨Nat.le_trans h.1 hjk, h.2⟩
  | name x => exact h
  | negation t => exact h
  | group t => exact h

theorem tokens_ne_nil (t : Tree) : t.tokens ≠ [] := by
  cases t <;> simp [tokens]

/-- The names of a formula, as often as they occur. -/
def names : Tree → List String
  | .name x => [x]
  | .negation t => t.names
  | .binary _ l r => l.names ++ r.names
  | .group t => t.names

-- The tokens of a formula without a fixed meaning are its names.
theorem mem_names_of_mem_tokens {t : Tree} {x : String} (hx : x ∈ t.tokens)
    (hr : x ∉ reserved) : x ∈ t.names := by
  induction t with
  | name y => exact hx
  | negation t ih =>
    obtain rfl | hx := List.mem_cons.1 hx
    · exact absurd (by decide) hr
    · exact ih hx
  | binary c l r ihl ihr =>
    rw [names, List.mem_append]
    obtain hx | hx := List.mem_append.1 hx
    · exact .inl (ihl hx)
    · obtain rfl | hx := List.mem_cons.1 hx
      · exact absurd (by cases c <;> decide) hr
      · exact .inr (ihr hx)
  | group t ih =>
    obtain hx | hx := List.mem_append.1 hx
    · obtain rfl | hx := List.mem_cons.1 hx
      · exact absurd (by decide) hr
      · exact ih hx
    · obtain rfl := List.mem_singleton.1 hx
      exact absurd (by decide) hr

end Tree

namespace Category

/-- The rank up to which connectives occur in a phrase without brackets. -/
def rank : Category → Nat
  | .equivalence => 4
  | .implication => 3
  | .orXor => 2
  | .and => 1
  | .not => 0
  | .primary => 0

/-- The phrases that hold connectives up to rank `k`. -/
def ofRank : Nat → Category
  | 0 => .not
  | 1 => .and
  | 2 => .orXor
  | 3 => .implication
  | _ => .equivalence

end Category

namespace Derives

-- A phrase is also a phrase of each looser kind.
theorem loosen {j k : Nat} {ts : List String} {t : Tree} (hjk : j ≤ k)
    (h : Derives (.ofRank j) ts t) : Derives (.ofRank k) ts t := by
  induction hjk with
  | refl => exact h
  | @step m _ ih =>
    match m, ih with
    | 0, ih => exact .and ih
    | 1, ih => exact .orXor ih
    | 2, ih => exact .implication ih
    | 3, ih => exact .equivalence ih
    | _ + 4, ih => exact ih

-- A connective joins a left operand and a right operand of the ranks it asks for.
theorem join (c : Connective) {ts us : List String} {t u : Tree}
    (hl : Derives (.ofRank c.leftRank) ts t) (hr : Derives (.ofRank c.rightRank) us u) :
    Derives (.ofRank c.rank) (ts ++ c.token :: us) (.binary c t u) := by
  cases c with
  | and => exact .conj hl hr
  | or => exact .or hl hr
  | xor => exact .xor hl hr
  | implies => exact .implies hl hr
  | iff => exact .iff hl hr

-- A phrase is the text of its tree, and the tree fits where the phrase stands.
theorem tokens_fits {k : Category} {ts : List String} {t : Tree} (h : Derives k ts t) :
    t.tokens = ts ∧ t.Fits k.rank := by
  induction h with
  | equivalence _ ih => exact ⟨ih.1, ih.2.mono (by decide)⟩
  | implication _ ih => exact ⟨ih.1, ih.2.mono (by decide)⟩
  | orXor _ ih => exact ⟨ih.1, ih.2.mono (by decide)⟩
  | and _ ih => exact ⟨ih.1, ih.2.mono (by decide)⟩
  | not _ ih => exact ih
  | iff _ _ ihl ihr => exact ⟨by rw [← ihl.1, ← ihr.1]; rfl, by decide, ihl.2, ihr.2⟩
  | implies _ _ ihl ihr => exact ⟨by rw [← ihl.1, ← ihr.1]; rfl, by decide, ihl.2, ihr.2⟩
  | or _ _ ihl ihr => exact ⟨by rw [← ihl.1, ← ihr.1]; rfl, by decide, ihl.2, ihr.2⟩
  | xor _ _ ihl ihr => exact ⟨by rw [← ihl.1, ← ihr.1]; rfl, by decide, ihl.2, ihr.2⟩
  | conj _ _ ihl ihr => exact ⟨by rw [← ihl.1, ← ihr.1]; rfl, by decide, ihl.2, ihr.2⟩
  | negation _ ih => exact ⟨by rw [← ih.1]; rfl, ih.2⟩
  | group _ ih => exact ⟨by rw [← ih.1]; rfl, ih.2⟩
  | «variable» hx => exact ⟨rfl, hx⟩

end Derives

theorem Tree.Fits.derives {k : Nat} {t : Tree} (h : t.Fits k) :
    Derives (.ofRank k) t.tokens t := by
  induction t generalizing k with
  | name x => exact .loosen (Nat.zero_le k) (.not (.variable h))
  | negation t ih => exact .loosen (Nat.zero_le k) (.negation (ih h))
  | binary c l r ihl ihr => exact .loosen h.1 (.join c (ihl h.2.1) (ihr h.2.2))
  | group t ih => exact .loosen (Nat.zero_le k) (.not (.group (ih h)))

/-- The formulas of the grammar are the texts of the trees that fit. -/
theorem derives_iff {ts : List String} {t : Tree} :
    Derives .equivalence ts t ↔ t.tokens = ts ∧ t.Fits Connective.loosest := by
  constructor
  · exact Derives.tokens_fits
  · rintro ⟨rfl, h⟩
    exact h.derives

/-! ## Names -/

theorem Tree.mem_tokens_of_mem_names {t : Tree} {x : String} (hx : x ∈ t.names) :
    x ∈ t.tokens := by
  induction t with
  | name y => exact hx
  | negation t ih => exact List.mem_cons_of_mem "!" (ih hx)
  | binary c l r ihl ihr =>
    obtain hx | hx := List.mem_append.1 hx
    · exact List.mem_append_left _ (ihl hx)
    · exact List.mem_append_right _ (List.mem_cons_of_mem c.token (ihr hx))
  | group t ih => exact List.mem_append_left _ (List.mem_cons_of_mem "(" (ih hx))

theorem Tree.Fits.not_reserved {k : Nat} {t : Tree} (h : t.Fits k) {x : String}
    (hx : x ∈ t.names) : x ∉ reserved := by
  induction t generalizing k with
  | name y =>
    rw [List.mem_singleton.1 hx]
    exact h
  | negation t ih => exact ih (k := 0) h hx
  | binary c l r ihl ihr =>
    obtain hx | hx := List.mem_append.1 hx
    · exact ihl h.2.1 hx
    · exact ihr h.2.2 hx
  | group t ih => exact ih (k := Connective.loosest) h hx

/-- The names of a formula are its tokens without a fixed meaning. -/
theorem Derives.mem_names_iff {ts : List String} {t : Tree} (h : Derives .equivalence ts t)
    {x : String} : x ∈ t.names ↔ x ∈ ts ∧ x ∉ reserved := by
  obtain ⟨rfl, hf⟩ := derives_iff.1 h
  constructor
  · exact fun hx => ⟨Tree.mem_tokens_of_mem_names hx, hf.not_reserved hx⟩
  · exact fun hx => Tree.mem_names_of_mem_tokens hx.1 hx.2

end PropTable
