import Mathlib.Algebra.BigOperators.Ring.List
import Mathlib.Algebra.Ring.Nat
import Mathlib.Data.Nat.Bits
import PropTable.Proofs.Assignments

/-!
# The enumeration of all assignments

The index of an assignment is the number whose bits are its values, the first name standing for the
lowest bit. So `assignmentsOf` lists each way to give values to the names once, and `indexOf` says
where (`getElem?_assignmentsOf_iff`). The list of a solver depends on the set of its tokens alone
(`Solver.assignments_exhaustive`).
-/

namespace PropTable

/-- The variables depend on the set of the tokens alone. -/
theorem variablesOf_congr {ts us : List String} (h : ∀ x, x ∈ us ↔ x ∈ ts) :
    variablesOf us = variablesOf ts := by
  apply variablesOf_eq (pairwise_variablesOf ts)
  · intro x hx
    obtain ⟨hmem, hvariable⟩ := mem_variablesOf.1 hx
    exact ⟨(h x).2 hmem, hvariable⟩
  · intro x hx hempty hreserved
    exact mem_variablesOf.2 ⟨(h x).1 hx, hempty, hreserved⟩

/-! ## Indices -/

/-- The sum of `2 ^ j` over the positions `j` of the names that `f` makes true. -/
def indexOf (f : String → Bool) (names : List String) : Nat :=
  ((names.zipIdx.filter fun p => f p.1).map fun p => 2 ^ p.2).sum

section

variable {f : String → Bool} {names : List String}

-- The first name stands for the lowest bit, and the others have theirs one place further up.
theorem indexOf_cons (f : String → Bool) (x : String) (names : List String) :
    indexOf f (x :: names) = Nat.bit (f x) (indexOf f names) := by
  have hshift : (fun p : String × Nat => 2 ^ p.2) ∘ Prod.map id (· + 1) =
      fun p => 2 * 2 ^ p.2 := by
    funext p
    exact Nat.pow_succ'
  have hrest : (((names.zipIdx.map (Prod.map id (· + 1))).filter fun p => f p.1).map
      fun p => 2 ^ p.2).sum = 2 * indexOf f names := by
    rw [List.filter_map, List.map_map, hshift, List.sum_map_mul_left]
    rfl
  rw [indexOf, List.zipIdx_cons', List.filter_cons, Nat.bit_val, ← hrest]
  cases f x with
  | false => rfl
  | true => exact Nat.add_comm 1 _

theorem testBit_indexOf (f : String → Bool) (names : List String) (j : Nat) :
    (indexOf f names).testBit j = (names[j]?.map f).getD false := by
  induction names generalizing j with
  | nil => exact Nat.zero_testBit j
  | cons x names ih =>
    rw [indexOf_cons]
    cases j with
    | zero => exact Nat.testBit_bit_zero (f x) _
    | succ j => exact (Nat.testBit_bit_succ j (f x) _).trans (ih j)

theorem indexOf_lt (f : String → Bool) (names : List String) :
    indexOf f names < 2 ^ names.length := by
  induction names with
  | nil => exact Nat.one_pos
  | cons x names ih =>
    have hbit : (f x).toNat < 2 := Bool.toNat_lt (f x)
    rw [indexOf_cons, Nat.bit_val, List.length_cons, Nat.pow_succ]
    omega

-- Behind the names there are no further bits, so the bits of the names settle an index.
theorem eq_indexOf {i : Nat} (hi : i < 2 ^ names.length)
    (hbits : ∀ (j : Nat) x, names[j]? = some x → i.testBit j = f x) : i = indexOf f names := by
  apply Nat.eq_of_testBit_eq
  intro j
  rw [testBit_indexOf]
  cases hj : names[j]? with
  | some x => exact hbits j x hj
  | none =>
    have hle : names.length ≤ j := List.getElem?_eq_none_iff.1 hj
    exact Nat.testBit_lt_two_pow (Nat.lt_of_lt_of_le hi (Nat.pow_le_pow_right Nat.two_pos hle))

theorem map_testBit_eq_iff {i : Nat} :
    (names.zipIdx.map fun (x, j) => (x, i.testBit j)) = (names.map fun x => (x, f x)) ↔
      ∀ (j : Nat) x, names[j]? = some x → i.testBit j = f x := by
  have hget : ∀ j : Nat, (names.zipIdx.map fun (x, j) => (x, i.testBit j))[j]? =
      names[j]?.map fun x => (x, i.testBit j) := by
    intro j
    rw [List.getElem?_map, List.getElem?_zipIdx, Option.map_map, Nat.zero_add]
    rfl
  constructor
  · intro h j x hj
    have hat := congrArg (·[j]?) h
    simp only [hget, List.getElem?_map, hj, Option.map_some, Option.some_inj] at hat
    exact congrArg Prod.snd hat
  · intro h
    apply List.ext_getElem?
    intro j
    rw [hget, List.getElem?_map]
    cases hj : names[j]? with
    | none => rfl
    | some x => rw [Option.map_some, Option.map_some, h j x hj]

/-- Each way to give values to the names is listed once. -/
theorem getElem?_assignmentsOf_iff {i : Nat} :
    (assignmentsOf names)[i]? = some (names.map fun x => (x, f x)) ↔ i = indexOf f names := by
  constructor
  · intro h
    have hi : i < 2 ^ names.length := by
      rw [← length_assignmentsOf]
      exact (List.getElem?_eq_some_iff.1 h).1
    rw [getElem?_assignmentsOf hi] at h
    exact eq_indexOf hi (map_testBit_eq_iff.1 (Option.some.inj h))
  · rintro rfl
    rw [getElem?_assignmentsOf (indexOf_lt f names)]
    refine congrArg some (map_testBit_eq_iff.2 fun j x hj => ?_)
    rw [testBit_indexOf, hj]
    rfl

/-- The assignment at an index gives each name the bit at the position of the name. -/
theorem assignment_at {i : Nat} (hnames : names.Nodup) (hi : i < 2 ^ names.length) :
    ∃ a, (assignmentsOf names)[i]? = some a ∧ a.map Prod.fst = names ∧
      ∀ (j : Nat) x, names[j]? = some x → a.lookup x = some (i.testBit j) := by
  have hat := getElem?_assignmentsOf hi
  have hmem := List.mem_of_getElem? hat
  refine ⟨_, hat, names_of_mem_assignmentsOf hmem, fun j x hj => ?_⟩
  have hpair : (x, i.testBit j) ∈ names.zipIdx.map fun (x, j) => (x, i.testBit j) := by
    refine List.mem_map.2 ⟨(x, j), ?_, rfl⟩
    exact List.mem_zipIdx_iff_getElem?.2 hj
  exact lookup_of_mem_assignmentsOf hnames hmem hpair

end

/-! ## The assignments of a solver -/

namespace Solver

/-- The variables of a solver are the tokens that are neither empty nor reserved, in the order of
their code points and whatever the order and number of the tokens is. Its assignments are all ways
to give values to the variables: the one at index `i` has the bit `j` of `i` for the variable at
position `j`, and what `f` says of the variables stands at the sum of `2 ^ j` over those that `f`
makes true and nowhere else. -/
theorem assignments_exhaustive (s : Solver) :
    (s.names.Pairwise (· < ·) ∧ ∀ x, x ∈ s.names ↔ x ∈ s.tokens ∧ x ≠ "" ∧ x ∉ reserved) ∧
    (∀ s' : Solver, (∀ x, x ∈ s'.tokens ↔ x ∈ s.tokens) →
      s'.names = s.names ∧ s'.assignments = s.assignments) ∧
    s.assignments.length = 2 ^ s.names.length ∧
    (∀ i < 2 ^ s.names.length, ∃ a, s.assignments[i]? = some a ∧ a.map Prod.fst = s.names ∧
      ∀ (j : Nat) x, s.names[j]? = some x → a.lookup x = some (i.testBit j)) ∧
    (∀ (f : String → Bool) (i : Nat),
      s.assignments[i]? = some (s.names.map fun x => (x, f x)) ↔ i = indexOf f s.names) ∧
    (s.names = [] → s.assignments = [[]]) := by
  refine ⟨⟨pairwise_variablesOf s.tokens, fun x => mem_variablesOf⟩, fun s' h => ?_,
    length_assignmentsOf s.names, fun i hi => assignment_at (nodup_variablesOf s.tokens) hi,
    fun f i => getElem?_assignmentsOf_iff, fun h => ?_⟩
  · have hnames : s'.names = s.names := variablesOf_congr h
    exact ⟨hnames, congrArg assignmentsOf hnames⟩
  · rw [assignments, h]
    rfl

end Solver

end PropTable
