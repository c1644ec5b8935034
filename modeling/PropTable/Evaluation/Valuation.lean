/-!
# Truth values in the order of their labels

A `Valuation` keeps one truth value for each label. The first record of a label fixes its position
and every later one only its value, so the labels stand in the order in which they were first met.
-/

namespace PropTable

/-- Truth values by label, in the order in which the labels were first recorded. -/
structure Valuation where
  entries : List (String × Bool)
deriving DecidableEq, Repr

namespace Valuation

def empty : Valuation := ⟨[]⟩

def labels (v : Valuation) : List String :=
  v.entries.map Prod.fst

def contains (v : Valuation) (label : String) : Bool :=
  v.labels.contains label

def value? (v : Valuation) (label : String) : Option Bool :=
  v.entries.lookup label

/-- Gives a label a value. -/
def record (v : Valuation) (label : String) (value : Bool) : Valuation :=
  if v.contains label then
    ⟨v.entries.map fun e => if e.1 = label then (label, value) else e⟩
  else ⟨v.entries ++ [(label, value)]⟩

/-- One record as it happened: `first` tells whether the label was new. -/
structure Recording where
  label : String
  value : Bool
  first : Bool
deriving DecidableEq, Repr

/-- Records pairs one after the other, and lists what happened. -/
def recordAll (v : Valuation) : List (String × Bool) → List Recording × Valuation
  | [] => ([], v)
  | (label, value) :: rest =>
    let (recordings, w) := (v.record label value).recordAll rest
    (⟨label, value, !v.contains label⟩ :: recordings, w)

/-- The valuation that results from recording the pairs in order. -/
def ofList (pairs : List (String × Bool)) : Valuation :=
  pairs.foldl (fun v p => v.record p.1 p.2) empty

theorem recordAll_snd (v : Valuation) (pairs : List (String × Bool)) :
    (v.recordAll pairs).2 = pairs.foldl (fun w p => w.record p.1 p.2) v := by
  induction pairs generalizing v with
  | nil => rfl
  | cons p pairs ih => simp [recordAll, ih]

/-- A record adds its label at the end, or changes no label at all. -/
theorem labels_record (v : Valuation) (label : String) (value : Bool) :
    (v.record label value).labels =
      if v.contains label then v.labels else v.labels ++ [label] := by
  unfold record
  split
  · simp only [labels, List.map_map]
    refine List.map_congr_left fun e _ => ?_
    by_cases he : e.1 = label <;> simp [he]
  · simp [labels]

end Valuation

end PropTable
