import PropTable.Proofs.Language

/-!
# The first error of a formula

A token list that has no value is refused at the first token with which it ceases to be the start of
a formula, or at its end. `Alive` is said of the grammar alone; `alive_iff` ties it to the scan, and
`evaluate_error` says which error is reported at that place.
-/

namespace PropTable

/-- Some formula within the nesting limit starts with these tokens. -/
def Viable (limit : Int) (ps : List String) : Prop := ∃ rest, Sentence limit (ps ++ rest)

/-- Some formula within the nesting limit starts with these tokens, and all variables among them are
in `names`. -/
def Alive (names : List String) (limit : Int) (ps : List String) : Prop :=
  Viable limit ps ∧ ∀ x ∈ ps, x ∉ reserved → x ∈ names

/-- The token at `p` would keep the list alive if it were a variable with a value. -/
def LacksValue (names : List String) (limit : Int) (ts : List String) (p : Nat) : Prop :=
  ∃ x, ts[p]? = some x ∧ x ∉ reserved ∧ x ∉ names ∧ Alive (x :: names) limit (ts.take (p + 1))

/-- The token at `p` would keep the list alive if the nesting limit were larger. -/
def LacksRoom (names : List String) (limit : Int) (ts : List String) (p : Nat) : Prop :=
  p < ts.length ∧ ∃ bound, limit ≤ bound ∧ Alive names bound (ts.take (p + 1))

/-- How an error describes what may follow the tokens. -/
inductive Expects (limit : Int) (ps : List String) : String → Prop where
  | operand {x} : x ∉ reserved → Viable limit (ps ++ [x]) → Expects limit ps "a variable or '('"
  | closing : Viable limit (ps ++ [")"]) → Expects limit ps "')'"
  | operator : Sentence limit ps → Expects limit ps "an operator or end of input"

/-- The token at `p` is the first with which the list is not alive, or there is none and `p` is the
end. -/
structure FirstDead (names : List String) (limit : Int) (ts : List String) (p : Nat) : Prop where
  le : p ≤ ts.length
  alive : ∀ i < p, Alive names limit (ts.take (i + 1))
  dead : p < ts.length → ¬ Alive names limit (ts.take (p + 1))

/-- The error that is due where the list ceases to be alive. A variable without a value goes first,
then a lack of room, and all else is a break of the grammar. -/
structure ErrorAt (names : List String) (limit : Int) (ts : List String) (p : Nat)
    (err : FormulaError) : Prop where
  unknown : LacksValue names limit ts p → err = .unknownVariable (ts[p]?.getD endOfInput)
  tooDeep : ¬ LacksValue names limit ts p → LacksRoom names limit ts p →
    err = .tooDeep limit (ts[p]?.getD endOfInput) p
  malformed : ¬ LacksValue names limit ts p → ¬ LacksRoom names limit ts p →
    ∃ expected, err = .malformed expected (ts[p]?.getD endOfInput) p ∧
      ∀ text, Expects limit (ts.take p) text ↔ text = expected

/-! ## Starts of formulas, by the scan -/

theorem sentence_iff_scan {limit : Int} {ts : List String} :
    Sentence limit ts ↔
      ∃ s, scan (fun _ => true) limit.toNat (.due []) ts = .ok s ∧ s.ending = none := by
  have hv := verdict_scan (fun _ => true) limit.toNat ts
  have hread : Sentence limit ts ↔
      ∃ t, Tree.ofTokens (fun _ => true) limit.toNat ts = .ok t := by
    rw [sentence_iff]
    refine exists_congr fun t => ?_
    rw [ofTokens_eq_ok_iff]
    exact and_congr_right fun _ => (and_iff_left fun _ _ _ => rfl).symm
  rw [hread]
  constructor
  · rintro ⟨t, ht⟩
    rw [ht] at hv
    cases hs : scan (fun _ => true) limit.toNat (.due []) ts with
    | ok s =>
      rw [hs] at hv
      exact ⟨s, rfl, Option.map_eq_none_iff.1 hv⟩
    | error e =>
      rw [hs] at hv
      cases hv
  · rintro ⟨s, hs, he⟩
    cases ht : Tree.ofTokens (fun _ => true) limit.toNat ts with
    | ok t => exact ⟨t, rfl⟩
    | error stop =>
      rw [ht, hs, verdict, he] at hv
      cases hv

instance Sentence.decide (limit : Int) (ts : List String) : Decidable (Sentence limit ts) :=
  match h : scan (fun _ => true) limit.toNat (.due []) ts with
  | .ok s =>
    decidable_of_iff (s.ending = none) <| by
      rw [sentence_iff_scan, h]
      exact ⟨fun he => ⟨s, rfl, he⟩, fun ⟨_, hs, he⟩ => Except.ok.inj hs ▸ he⟩
  | .error e =>
    isFalse <| by
      rw [sentence_iff_scan, h]
      exact fun ⟨_, hs, _⟩ => nomatch hs

theorem viable_iff {limit : Int} {ps : List String} :
    Viable limit ps ↔ ∃ s, scan (fun _ => true) limit.toNat (.due []) ps = .ok s := by
  constructor
  · rintro ⟨rest, h⟩
    obtain ⟨s, hs, -⟩ := sentence_iff_scan.1 h
    exact scan_prefix hs
  · rintro ⟨s, hs⟩
    obtain ⟨us, s', hs', he⟩ := scan_complete limit.toNat s
    exact ⟨us, sentence_iff_scan.2 ⟨s', (scan_append hs us).trans hs', he⟩⟩

theorem alive_iff {names : List String} {limit : Int} {ps : List String} :
    Alive names limit ps ↔
      ∃ s, scan (fun x => decide (x ∈ names)) limit.toNat (.due []) ps = .ok s := by
  rw [Alive, viable_iff]
  constructor
  · rintro ⟨⟨s, hs⟩, hn⟩
    exact ⟨s, scan_mono hs (fun x hx hr => decide_eq_true (hn x hx hr)) (Nat.le_refl _)⟩
  · rintro ⟨s, hs⟩
    exact ⟨⟨s, scan_mono hs (fun _ _ _ => rfl) (Nat.le_refl _)⟩,
      fun x hx hr => of_decide_eq_true (covered_of_scan hs x hx hr)⟩

-- One more token keeps the list alive exactly when the scan can move over it.
theorem alive_concat_iff {names : List String} {limit : Int} {ps : List String} {x : String}
    {s : Stage} (hs : scan (fun y => decide (y ∈ names)) limit.toNat (.due []) ps = .ok s) :
    Alive names limit (ps ++ [x]) ↔
      ∃ s', s.step (fun y => decide (y ∈ names)) limit.toNat x = .ok s' := by
  rw [alive_iff, scan_concat_iff hs]

theorem viable_concat_iff {limit : Int} {ps : List String} {x : String} {s : Stage}
    (hs : scan (fun _ => true) limit.toNat (.due []) ps = .ok s) :
    Viable limit (ps ++ [x]) ↔ ∃ s', s.step (fun _ => true) limit.toNat x = .ok s' := by
  rw [viable_iff, scan_concat_iff hs]

/-! ## What may follow -/

/-- How an error describes what may follow at a stage. -/
def Stage.expected : Stage → String
  | .due _ => "a variable or '('"
  | .done (_ :: _) => "')'"
  | .done [] => "an operator or end of input"

theorem expects_iff {limit : Int} {ps : List String} {s : Stage} {text : String}
    (hs : scan (fun _ => true) limit.toNat (.due []) ps = .ok s) :
    Expects limit ps text ↔ text = s.expected := by
  constructor
  · intro h
    cases h with
    | @operand x hx hv =>
      obtain ⟨s', h⟩ := (viable_concat_iff hs).1 hv
      cases s with
      | due levels => rfl
      | done levels =>
        rw [Stage.step_done_name _ _ _ hx] at h
        cases h
    | closing hv =>
      obtain ⟨s', h⟩ := (viable_concat_iff hs).1 hv
      match s with
      | .due levels =>
        rw [Stage.step_due_other _ _ _ (.inl rfl)] at h
        cases h
      | .done (l :: outer) => rfl
      | .done [] => cases h
    | operator hv =>
      obtain ⟨s', h, he⟩ := sentence_iff_scan.1 hv
      rw [hs] at h
      cases h
      match s with
      | .due levels => cases he
      | .done (l :: outer) => cases he
      | .done [] => rfl
  · rintro rfl
    -- each stage goes on in the way that its text says
    match s with
    | .due levels =>
      have hx := Stage.step_due_name (fun _ => true) limit.toNat levels (x := "x") (by decide)
      exact .operand (by decide) ((viable_concat_iff hs).2 ⟨_, hx⟩)
    | .done (l :: outer) =>
      exact .closing ((viable_concat_iff hs).2 ⟨_, Stage.step_done_closing _ _ outer l⟩)
    | .done [] => exact .operator (sentence_iff_scan.2 ⟨_, hs, rfl⟩)

/-! ## The error that is reported -/

section

variable {names : List String} {limit : Int} {ps r : List String} {x : String} {s : Stage}

theorem alive_take (hs : scan (fun y => decide (y ∈ names)) limit.toNat (.due []) ps = .ok s)
    {i : Nat} (hi : i < ps.length) : Alive names limit ((ps ++ r).take (i + 1)) := by
  rw [List.take_append_of_le_length hi, alive_iff]
  rw [← List.take_append_drop (i + 1) ps] at hs
  exact scan_prefix hs

theorem take_concat (ps r : List String) (x : String) :
    (ps ++ x :: r).take (ps.length + 1) = ps ++ [x] := by
  rw [List.take_length_add_append, List.take_succ_cons, List.take_zero]

theorem getElem?_concat (ps r : List String) (x : String) :
    (ps ++ x :: r)[ps.length]? = some x := by
  rw [List.getElem?_append_right (Nat.le_refl _), Nat.sub_self, List.getElem?_cons_zero]

-- A value is lacking exactly when the scan refuses the token for that.
theorem lacksValue_iff {fault : Fault}
    (hs : scan (fun y => decide (y ∈ names)) limit.toNat (.due []) ps = .ok s)
    (hx : s.step (fun y => decide (y ∈ names)) limit.toNat x = .error fault) :
    LacksValue names limit (ps ++ x :: r) ps.length ↔ fault = .unknownName x := by
  have hs' : scan (fun y => decide (y ∈ x :: names)) limit.toNat (.due []) ps = .ok s :=
    scan_mono hs (fun y hy hr => decide_eq_true
      (List.mem_cons_of_mem x (of_decide_eq_true (covered_of_scan hs y hy hr)))) (Nat.le_refl _)
  rw [LacksValue, getElem?_concat, take_concat]
  constructor
  · rintro ⟨y, hy, hr, hn, ha⟩
    obtain rfl := Option.some.inj hy
    obtain ⟨s', h⟩ := (alive_concat_iff hs').1 ha
    cases s with
    | due levels =>
      rw [Stage.step_due_name _ _ _ hr, if_neg (fun h => hn (of_decide_eq_true h))] at hx
      exact (Except.error.inj hx).symm
    | done levels =>
      rw [Stage.step_done_name _ _ _ hr] at h
      cases h
  · rintro rfl
    cases Stage.refused_of_step hx with
    | unknown hr hn =>
      refine ⟨x, rfl, hr, of_decide_eq_false hn, (alive_concat_iff hs').2 ?_⟩
      rw [Stage.step_due_name _ _ _ hr, if_pos (decide_eq_true List.mem_cons_self)]
      exact ⟨_, rfl⟩

-- Room is lacking exactly when the scan refuses the token for that.
theorem lacksRoom_iff {fault : Fault}
    (hs : scan (fun y => decide (y ∈ names)) limit.toNat (.due []) ps = .ok s)
    (hx : s.step (fun y => decide (y ∈ names)) limit.toNat x = .error fault) :
    LacksRoom names limit (ps ++ x :: r) ps.length ↔ fault = .noRoom := by
  have hlt : ps.length < (ps ++ x :: r).length := by
    rw [List.length_append, List.length_cons]
    omega
  have halive : ∀ bound, limit ≤ bound → (Alive names bound (ps ++ [x]) ↔
      ∃ s', s.step (fun y => decide (y ∈ names)) bound.toNat x = .ok s') := fun bound hb =>
    alive_concat_iff (scan_mono hs (covered_of_scan hs) (Int.toNat_le_toNat hb))
  rw [LacksRoom, take_concat, and_iff_right hlt]
  constructor
  · rintro ⟨bound, hb, ha⟩
    obtain ⟨s', h⟩ := (halive bound hb).1 ha
    -- without the bound no token is refused for room, and all other refusals stand for any bound
    cases Stage.refused_of_step hx with
    | tooDeep _ _ => rfl
    | unknown hr hn =>
      rw [Stage.step_due_name _ _ _ hr, if_neg (Bool.eq_false_iff.1 hn)] at h
      cases h
    | noOperand hop =>
      rw [Stage.step_due_other _ _ _ hop] at h
      cases h
    | noClosing hc hne =>
      rw [Stage.step_done_other _ _ _ hc fun h => absurd h hne] at h
      cases h
    | noOperator hc =>
      rw [Stage.step_done_other _ _ _ hc fun _ => rfl] at h
      cases h
  · rintro rfl
    cases Stage.refused_of_step hx with
    | @tooDeep levels _ hop hb =>
      have hle : limit ≤ (levels.length + 1 : Int) := by omega
      obtain ⟨l, hl⟩ := Stage.step_due_open (fun y => decide (y ∈ names))
        (levels.length + 1 : Int).toNat levels hop (by omega)
      exact ⟨_, hle, (halive _ hle).2 ⟨_, hl⟩⟩

-- A fault of the grammar is reported with what may follow at its stage.
theorem error_of_refused {known : String → Bool} {bound : Nat} {stop : Stop}
    (hx : s.step known bound x = .error stop.fault) (hrest : stop.rest = x :: r)
    (hu : stop.fault ≠ .unknownName x) (hr : stop.fault ≠ .noRoom) :
    stop.error (ps ++ x :: r).length limit = .malformed s.expected x ps.length := by
  have hpos : (ps ++ x :: r).length - (x :: r).length = ps.length := by
    rw [List.length_append, Nat.add_sub_cancel]
  rw [Stop.error, hrest, hpos, List.headD_cons]
  generalize stop.fault = fault at hx hu hr
  cases Stage.refused_of_step hx with
  | unknown _ _ => exact absurd rfl hu
  | tooDeep _ _ => exact absurd rfl hr
  | noOperand _ => rfl
  | noClosing _ _ => rfl
  | noOperator _ => rfl

-- A token that cannot follow is reported as what it is.
theorem errorAt_token {stop : Stop}
    (hs : scan (fun y => decide (y ∈ names)) limit.toNat (.due []) ps = .ok s)
    (hx : s.step (fun y => decide (y ∈ names)) limit.toNat x = .error stop.fault)
    (hrest : stop.rest = x :: r) :
    FirstDead names limit (ps ++ x :: r) ps.length ∧
      ErrorAt names limit (ps ++ x :: r) ps.length (stop.error (ps ++ x :: r).length limit) := by
  have hpos : (ps ++ x :: r).length - (x :: r).length = ps.length := by
    rw [List.length_append, Nat.add_sub_cancel]
  have hexp : ∀ text, Expects limit ps text ↔ text = s.expected := fun _ =>
    expects_iff (scan_mono hs (fun _ _ _ => rfl) (Nat.le_refl _))
  refine ⟨⟨?_, fun i hi => alive_take hs hi, fun _ => ?_⟩, ⟨?_, ?_, ?_⟩⟩
  · rw [List.length_append]
    exact Nat.le_add_right _ _
  · rw [take_concat, alive_concat_iff hs, hx]
    rintro ⟨s', h⟩
    cases h
  · rw [lacksValue_iff hs hx, getElem?_concat]
    intro hf
    rw [Stop.error, hf]
    rfl
  · rw [lacksRoom_iff hs hx, getElem?_concat]
    intro _ hf
    rw [Stop.error, hf, hrest, hpos]
    rfl
  · rw [lacksValue_iff hs hx, lacksRoom_iff hs hx, getElem?_concat, List.take_left]
    intro hu hr
    exact ⟨s.expected, error_of_refused hx hrest hu hr, hexp⟩

-- Tokens that end too early are reported at their end.
theorem errorAt_end {stop : Stop}
    (hs : scan (fun y => decide (y ∈ names)) limit.toNat (.due []) ps = .ok s)
    (he : s.ending = some stop.fault) (hrest : stop.rest = []) :
    FirstDead names limit ps ps.length ∧
      ErrorAt names limit ps ps.length (stop.error ps.length limit) := by
  have hend : ps[ps.length]? = none := List.getElem?_eq_none (Nat.le_refl _)
  refine ⟨⟨Nat.le_refl _, fun i hi => ?_, fun h => absurd h (Nat.lt_irrefl _)⟩, ⟨?_, ?_, ?_⟩⟩
  · have ha := alive_take (r := []) hs hi
    rwa [List.append_nil] at ha
  · rintro ⟨x, hx, -⟩
    rw [hend] at hx
    cases hx
  · intro _ hroom
    exact absurd hroom.1 (Nat.lt_irrefl _)
  · intro _ _
    rw [hend, List.take_length]
    refine ⟨s.expected, ?_, fun text =>
      expects_iff (scan_mono hs (fun _ _ _ => rfl) (Nat.le_refl _))⟩
    rw [Stop.error, hrest]
    cases s with
    | due levels =>
      rw [← Option.some.inj he]
      rfl
    | done levels =>
      cases levels with
      | nil => cases he
      | cons l outer =>
        rw [← Option.some.inj he]
        rfl

end

/-- An error is reported at the first token with which the list ceases to be alive, or at its end,
and it is the one that is due there. -/
theorem evaluate_error {ts : List String} {a : Assignment} {ex : List String} {limit : Int}
    {err : FormulaError} (h : (evaluate ts a ex limit).outcome = .error err) :
    ∃ p, FirstDead a.names limit ts p ∧ ErrorAt a.names limit ts p err := by
  obtain ⟨stop, ht, rfl⟩ := stop_of_evaluate h
  have hknown : a.known = fun x => decide (x ∈ a.names) := by
    funext x
    exact Bool.eq_iff_iff.2 ((a.known_iff x).trans decide_eq_true_iff.symm)
  rw [hknown] at ht
  obtain ⟨ps, s, hs, ⟨rfl, hrest, he⟩ | ⟨x, r, rfl, hrest, hx⟩⟩ := stop_of_ofTokens ht
  · exact ⟨_, errorAt_end hs he hrest⟩
  · exact ⟨_, errorAt_token hs hx hrest⟩

-- The name without a value stands before the bracket that is too much.
theorem evaluate_error_of_unknown_name :
    (evaluate ["(", "A", "xor", "B", ")", ")"] [("A", .flag true)] [] 1).outcome =
        .error (.unknownVariable "B") ∧
      ∃ p, FirstDead ["A"] 1 ["(", "A", "xor", "B", ")", ")"] p ∧
        ErrorAt ["A"] 1 ["(", "A", "xor", "B", ")", ")"] p (.unknownVariable "B") := by
  have hscan : verdict (scan (Assignment.known [("A", .flag true)]) 1 (.due [])
      ["(", "A", "xor", "B", ")", ")"]) = some (.unknownName "B", ["B", ")", ")"]) := by decide
  have h := @evaluate_of_verdict _ [] [("A", .flag true)] 1 _ _ hscan
  exact ⟨h, evaluate_error h⟩

end PropTable
