import Mathlib.Data.String.Basic
import PropTable.Proofs.Language
import PropTable.Solver

/-!
# Variables and their assignments

`variablesOf` lists the variables among the tokens without repetition and in the order of their code
points. `assignmentsOf` gives truth values to a list of names in all ways: the assignment at index
`i` gives the name at position `j` the value of bit `j` of `i`, and the first makes all names false.
-/

namespace PropTable

/-! ## The variables of a formula -/

theorem isVariable_iff (x : String) : isVariable x = true ↔ x ≠ "" ∧ x ∉ reserved := by
  rw [isVariable, Bool.and_eq_true, Option.isNone_iff_eq_none, ofToken?_eq_none_iff,
    Bool.not_eq_true', ← Bool.not_eq_true, String.isEmpty_iff]

theorem nodup_eraseDups (xs : List String) : xs.eraseDups.Nodup := by
  have h := Valuation.nodup_labels_ofList (xs.map fun x => (x, true))
  rw [Valuation.labels_ofList, List.map_map] at h
  exact (List.map_id xs) ▸ h

theorem mem_variablesOf {ts : List String} {x : String} :
    x ∈ variablesOf ts ↔ x ∈ ts ∧ x ≠ "" ∧ x ∉ reserved := by
  rw [variablesOf, List.mem_mergeSort, List.mem_eraseDups, List.mem_filter, isVariable_iff]

theorem Tree.mem_names_of_mem_variablesOf {t : Tree} {x : String} (hx : x ∈ variablesOf t.tokens) :
    x ∈ t.names := by
  obtain ⟨hmem, -, hr⟩ := mem_variablesOf.1 hx
  exact Tree.mem_names_of_mem_tokens hmem hr

theorem nodup_variablesOf (ts : List String) : (variablesOf ts).Nodup :=
  (List.mergeSort_perm _ _).nodup_iff.2 (nodup_eraseDups _)

/-- The variables stand in the order of their code points, each of them once. -/
theorem pairwise_variablesOf (ts : List String) : (variablesOf ts).Pairwise (· < ·) := by
  have hsorted : (variablesOf ts).Pairwise fun x y => decide (x ≤ y) = true := by
    apply List.pairwise_mergeSort
    · intro x y z hxy hyz
      exact decide_eq_true (le_trans (of_decide_eq_true hxy) (of_decide_eq_true hyz))
    · intro x y
      rw [Bool.or_eq_true, decide_eq_true_iff, decide_eq_true_iff]
      exact le_total x y
  have hdistinct : (variablesOf ts).Pairwise (· ≠ ·) := nodup_variablesOf ts
  exact (hsorted.and hdistinct).imp fun h => lt_of_le_of_ne (of_decide_eq_true h.1) h.2

/-- All names of a formula are variables, unless one of its tokens is empty. -/
theorem covered_variables_iff (ts : List String) :
    Covered (variablesOf ts).contains ts ↔ "" ∉ ts := by
  constructor
  · intro h hmem
    have hx := h "" hmem (by decide)
    rw [List.contains_iff_mem, mem_variablesOf] at hx
    exact hx.2.1 rfl
  · intro h x hx hr
    rw [List.contains_iff_mem, mem_variablesOf]
    exact ⟨hx, fun he => h (he ▸ hx), hr⟩

/-- There is no other list of the variables in the order of their code points. -/
theorem variablesOf_eq {ts xs : List String} (hsorted : xs.Pairwise (· < ·))
    (hvariable : ∀ x ∈ xs, x ∈ ts ∧ x ≠ "" ∧ x ∉ reserved)
    (hall : ∀ x ∈ ts, x ≠ "" → x ∉ reserved → x ∈ xs) : variablesOf ts = xs := by
  have hmem : ∀ x, x ∈ variablesOf ts ↔ x ∈ xs := by
    intro x
    rw [mem_variablesOf]
    exact ⟨fun h => hall x h.1 h.2.1 h.2.2, hvariable x⟩
  have hnodup : xs.Nodup := hsorted.imp fun h => ne_of_lt h
  have hperm := (List.perm_ext_iff_of_nodup (nodup_variablesOf ts) hnodup).2 hmem
  apply hperm.eq_of_pairwise _ (pairwise_variablesOf ts) hsorted
  exact fun x y _ _ hxy hyx => absurd hyx (lt_asymm hxy)

/-! ## All assignments -/

theorem length_assignmentsOf (names : List String) :
    (assignmentsOf names).length = 2 ^ names.length := by
  rw [assignmentsOf, List.length_map, List.length_range]
  rfl

theorem getElem?_assignmentsOf {names : List String} {i : Nat} (hi : i < 2 ^ names.length) :
    (assignmentsOf names)[i]? = some (names.zipIdx.map fun (x, j) => (x, i.testBit j)) := by
  have hrange : (List.range (Nat.pow 2 names.length))[i]? = some i :=
    List.getElem?_range hi
  rw [assignmentsOf, List.getElem?_map, hrange, Option.map_some]

-- Each assignment gives one value to each name, in the order of the names.
theorem names_of_mem_assignmentsOf {names : List String} {a : List (String × Bool)}
    (ha : a ∈ assignmentsOf names) : a.map Prod.fst = names := by
  obtain ⟨i, -, rfl⟩ := List.mem_map.1 ha
  rw [List.map_map]
  exact List.zipIdx_map_fst 0 names

theorem assignmentsOf_eq_cons (names : List String) :
    ∃ rest, assignmentsOf names = (names.map fun x => (x, false)) :: rest := by
  have hpos : 0 < 2 ^ names.length := Nat.two_pow_pos _
  have hfirst := getElem?_assignmentsOf hpos
  have hfalse : (names.zipIdx.map fun (x, j) => (x, Nat.testBit 0 j)) =
      names.map fun x => (x, false) := by
    conv_rhs => rw [← List.zipIdx_map_fst 0 names, List.map_map]
    exact List.map_congr_left fun p _ => by simp
  rw [hfalse] at hfirst
  cases has : assignmentsOf names with
  | nil =>
    rw [has] at hfirst
    cases hfirst
  | cons a rest =>
    rw [has, List.getElem?_cons_zero] at hfirst
    exact ⟨rest, by rw [Option.some.inj hfirst]⟩

namespace Assignment

theorem value?_ofValues (values : List (String × Bool)) (x : String) :
    (ofValues values).value? x = values.lookup x := by
  induction values with
  | nil => rfl
  | cons p values ih =>
    unfold value? ofValues at ih ⊢
    rw [List.map_cons, List.lookup_cons, List.lookup_cons]
    split
    · rfl
    · exact ih

theorem names_ofValues (values : List (String × Bool)) :
    (ofValues values).names = values.map Prod.fst := by
  rw [names, ofValues, List.map_map]
  rfl

end Assignment

-- All assignments of the same names have values for the same names.
theorem known_of_mem_assignmentsOf {names : List String} {a : List (String × Bool)}
    (ha : a ∈ assignmentsOf names) : (Assignment.ofValues a).known = names.contains := by
  funext x
  rw [Bool.eq_iff_iff, Assignment.known_iff, Assignment.names_ofValues,
    names_of_mem_assignmentsOf ha, List.contains_iff_mem]

theorem lookup_of_mem_assignmentsOf {names : List String} {a : List (String × Bool)}
    {p : String × Bool} (hnames : names.Nodup) (ha : a ∈ assignmentsOf names) (hp : p ∈ a) :
    a.lookup p.1 = some p.2 := by
  rw [← names_of_mem_assignmentsOf ha] at hnames
  exact Valuation.value?_of_mem (v := ⟨a⟩) hnames hp

/-- A solver evaluates its tokens and records nothing under their variables. -/
theorem Solver.result_evaluate (s : Solver) (a : Assignment) :
    (s.evaluate a).result.1 = (PropTable.evaluate s.tokens a s.names s.maxDepth).outcome := by
  unfold Solver.evaluate
  simp only [Log.Journal.result_bind]
  cases (PropTable.evaluate s.tokens a s.names s.maxDepth).outcome <;> rfl

end PropTable
