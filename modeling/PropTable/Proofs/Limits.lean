import PropTable.Proofs.FirstError

/-!
# What a larger nesting limit changes

The nesting limit decides how far a token list is read and nothing else. An outcome that was not
brought about by the limit stands under every larger one, and where a negation or bracket was too
deep, a larger limit lets reading come as far and perhaps farther (`evaluate_of_limit_le`).
-/

namespace PropTable

/-! ## Scans under two bounds -/

section

variable {known : String → Bool} {bound bound' : Nat} {s : Stage} {x : String}
  {ts rest : List String} {fault : Fault}

-- The bound is the cause of one refusal only; all others stand whatever it is.
theorem step_error_of_le (h : s.step known bound x = .error fault) (hf : fault ≠ .noRoom)
    (bound' : Nat) : s.step known bound' x = .error fault := by
  cases Stage.refused_of_step h with
  | @unknown levels _ hx hk =>
    rw [Stage.step_due_name known bound' levels hx, hk]
    rfl
  | tooDeep => exact absurd rfl hf
  | @noOperand levels _ hx => exact Stage.step_due_other known bound' levels hx
  | @noClosing l outer _ hc hx =>
    exact Stage.step_done_other known bound' (l :: outer) hc fun he => absurd he hx
  | noOperator hc => exact Stage.step_done_other known bound' [] hc fun _ => rfl

-- A token that is too deep is no other kind of fault under another bound.
theorem noRoom_of_step {fault' : Fault} (h : s.step known bound x = .error .noRoom)
    (h' : s.step known bound' x = .error fault') : fault' = .noRoom := by
  by_cases hf : fault' = .noRoom
  · exact hf
  · have hsame := step_error_of_le h' hf bound
    rw [h] at hsame
    exact (Except.error.inj hsame).symm

theorem verdict_of_le (h : verdict (scan known bound s ts) = some (fault, rest))
    (hf : fault ≠ .noRoom) (hb : bound ≤ bound') :
    verdict (scan known bound' s ts) = some (fault, rest) := by
  cases hs : scan known bound s ts with
  | ok s' =>
    rw [scan_mono hs (covered_of_scan hs) hb]
    rw [hs] at h
    exact h
  | error e =>
    rw [hs] at h
    obtain rfl : e = (fault, rest) := Option.some.inj h
    obtain ⟨ps, y, r, s', rfl, rfl, hps, hy⟩ := scan_error hs
    rw [scan_append (scan_mono hps (covered_of_scan hps) hb),
      scan_cons_error (step_error_of_le hy hf bound')]
    rfl

-- Reading never stops farther back than it began.
theorem length_le_of_verdict (h : verdict (scan known bound s ts) = some (fault, rest)) :
    rest.length ≤ ts.length := by
  cases hs : scan known bound s ts with
  | ok s' =>
    rw [hs] at h
    obtain ⟨_, -, he⟩ := Option.map_eq_some_iff.1 h
    rw [← (Prod.mk.inj he).2]
    exact Nat.zero_le ts.length
  | error e =>
    rw [hs] at h
    obtain rfl : e = (fault, rest) := Option.some.inj h
    obtain ⟨ps, y, r, _, rfl, rfl, -, -⟩ := scan_error hs
    rw [List.length_append]
    exact Nat.le_add_left (y :: r).length ps.length

end

/-! ## The place of an error -/

/-- The error has its cause at the token with index `p` or behind it: there a level is too deep
under `limit`, or everything up to `p` was read and a later token is at fault, or the end of the
list. A variable is at fault where it occurs first. -/
inductive CausedFrom (ts : List String) (limit : Int) (p : Nat) : FormulaError → Prop where
  | tooDeep {found : String} {i : Nat} : p ≤ i → ts[i]? = some found →
      CausedFrom ts limit p (.tooDeep limit found i)
  | malformed {expected : String} {i : Nat} : p < i → i ≤ ts.length →
      CausedFrom ts limit p (.malformed expected (ts[i]?.getD endOfInput) i)
  | unknownVariable {x : String} {i : Nat} : p < i → ts[i]? = some x → x ∉ ts.take i →
      CausedFrom ts limit p (.unknownVariable x)

/-- What is known of the place where reading stopped: `stop.rest` starts there, and a variable that
stands there without a value does not stand before it. -/
structure StopsAt (ts : List String) (stop : Stop) (i : Nat) : Prop where
  position : ts.length - stop.rest.length = i
  found : ts[i]?.getD endOfInput = stop.rest.headD endOfInput
  noRoom : stop.fault = .noRoom → ts[i]? = some (stop.rest.headD endOfInput)
  unknownName : ∀ x, stop.fault = .unknownName x → ts[i]? = some x ∧ x ∉ ts.take i

section

variable {known : String → Bool} {room p i : Nat} {ts : List String} {stop : Stop} {limit : Int}

theorem stopsAt_of_ofTokens (h : Tree.ofTokens known room ts = .error stop) :
    StopsAt ts stop (ts.length - stop.rest.length) := by
  obtain ⟨ps, s, hs, ⟨rfl, hrest, he⟩ | ⟨x, r, rfl, hrest, hx⟩⟩ := stop_of_ofTokens h
  · have hlevels : stop.fault ≠ .noRoom ∧ ∀ x, stop.fault ≠ .unknownName x := by
      cases s with
      | due levels => simp [← Option.some.inj he]
      | done levels =>
        cases levels with
        | nil => cases he
        | cons l outer => simp [← Option.some.inj he]
    rw [hrest, List.length_nil, Nat.sub_zero]
    constructor
    case position => rw [hrest, List.length_nil, Nat.sub_zero]
    case found =>
      rw [List.getElem?_eq_none (Nat.le_refl ts.length), hrest]
      rfl
    case noRoom => exact fun hf => absurd hf hlevels.1
    case unknownName => exact fun x hf => absurd hf (hlevels.2 x)
  · have hpos : (ps ++ x :: r).length - stop.rest.length = ps.length := by
      rw [hrest, List.length_append, Nat.add_sub_cancel]
    have hget := getElem?_concat ps r x
    rw [hpos]
    constructor
    case position => exact hpos
    case found =>
      rw [hget, hrest]
      rfl
    case noRoom =>
      intro _
      rw [hget, hrest]
      rfl
    case unknownName =>
      intro y hf
      rw [hf] at hx
      cases Stage.refused_of_step hx with
      | unknown hr hk =>
        rw [List.take_left]
        refine ⟨hget, fun hmem => ?_⟩
        rw [covered_of_scan hs x hmem hr] at hk
        cases hk

-- What stops reading behind a token is caused by what stands behind that token.
theorem StopsAt.causedFrom (h : StopsAt ts stop i) (hi : p < i) :
    CausedFrom ts limit p (stop.error ts.length limit) := by
  have hle : i ≤ ts.length := h.position ▸ Nat.sub_le ts.length stop.rest.length
  have hmalformed : ∀ expected, CausedFrom ts limit p
      (.malformed expected (stop.rest.headD endOfInput) i) := by
    intro expected
    rw [← h.found]
    exact .malformed hi hle
  rw [Stop.error, h.position]
  cases hf : stop.fault with
  | operandExpected => exact hmalformed _
  | closingExpected => exact hmalformed _
  | operatorExpected => exact hmalformed _
  | noRoom => exact .tooDeep (Nat.le_of_lt hi) (h.noRoom hf)
  | unknownName x =>
    obtain ⟨hget, hnew⟩ := h.unknownName x hf
    exact .unknownVariable hi hget hnew

-- Only a lack of room is reported as one, and where it is lacking.
theorem noRoom_of_error {bound : Int} {found : String} {position : Int}
    (h : stop.error ts.length limit = .tooDeep bound found position) :
    stop.fault = .noRoom ∧ bound = limit ∧ found = stop.rest.headD endOfInput ∧
      position = (ts.length - stop.rest.length : Nat) := by
  rw [Stop.error] at h
  cases hf : stop.fault with
  | noRoom =>
    rw [hf] at h
    cases h
    exact ⟨rfl, rfl, rfl, rfl⟩
  | _ =>
    rw [hf] at h
    cases h

end

/-! ## Evaluations under two limits -/

section

variable {ts ex : List String} {a : Assignment} {limit limit' : Int}

theorem outcome_of_limit_le (h : limit ≤ limit')
    (hd : ∀ bound found position,
      (evaluate ts a ex limit).outcome ≠ .error (.tooDeep bound found position)) :
    (evaluate ts a ex limit').outcome = (evaluate ts a ex limit).outcome := by
  have hb : limit.toNat ≤ limit'.toNat := Int.toNat_le_toNat h
  cases ht : Tree.ofTokens a.known limit.toNat ts with
  | ok t =>
    obtain ⟨hderives, hn, hc⟩ := ofTokens_eq_ok_iff.1 ht
    have ht' := ofTokens_eq_ok_iff.2 ⟨hderives, Nat.le_trans hn hb, hc⟩
    rw [evaluate_of_tree ht, evaluate_of_tree ht']
  | error stop =>
    have hv := verdict_scan a.known limit.toNat ts
    rw [ht] at hv
    have herr : (evaluate ts a ex limit).outcome = .error (stop.error ts.length limit) :=
      evaluate_of_stop ht
    have hf : stop.fault ≠ .noRoom := by
      intro hf
      rw [Stop.error, hf] at herr
      exact hd _ _ _ herr
    rw [herr, evaluate_of_verdict (verdict_of_le hv hf hb)]
    -- the limit is told only where it was the cause
    rw [Stop.error, Stop.error]
    cases hfault : stop.fault with
    | noRoom => exact absurd hfault hf
    | _ => rfl

theorem causedFrom_of_limit_le (h : limit ≤ limit') {bound : Int} {found : String} {position : Int}
    (herr : (evaluate ts a ex limit).outcome = .error (.tooDeep bound found position)) :
    ∃ p, position = (p : Nat) ∧ ts[p]? = some found ∧
      ∀ err, (evaluate ts a ex limit').outcome = .error err → CausedFrom ts limit' p err := by
  obtain ⟨stop, ht, hstop⟩ := stop_of_evaluate herr
  obtain ⟨hf, -, rfl, rfl⟩ := noRoom_of_error hstop.symm
  have hat := stopsAt_of_ofTokens ht
  refine ⟨_, rfl, hat.noRoom hf, ?_⟩
  intro err herr'
  obtain ⟨stop', ht', rfl⟩ := stop_of_evaluate herr'
  have hat' := stopsAt_of_ofTokens ht'
  have hv := verdict_scan a.known limit'.toNat ts
  rw [ht'] at hv
  obtain ⟨ps, s, hs, ⟨rfl, hrest, he⟩ | ⟨x, r, rfl, hrest, hx⟩⟩ := stop_of_ofTokens ht
  · have hend := hat.noRoom hf
    rw [hrest, List.length_nil, Nat.sub_zero, List.getElem?_eq_none (Nat.le_refl ts.length)] at hend
    cases hend
  · have hpos : (ps ++ x :: r).length - stop.rest.length = ps.length := by
      rw [hrest, List.length_append, Nat.add_sub_cancel]
    rw [hpos]
    rw [hf] at hx
    rw [scan_append (scan_mono hs (covered_of_scan hs) (Int.toNat_le_toNat h))] at hv
    cases hx' : s.step a.known limit'.toNat x with
    | error fault =>
      obtain rfl := noRoom_of_step hx hx'
      rw [scan_cons_error hx'] at hv
      obtain ⟨hf', hrest'⟩ := Prod.mk.inj (Option.some.inj hv)
      have hpos' : (ps ++ x :: r).length - stop'.rest.length = ps.length := by
        rw [← hrest', List.length_append, Nat.add_sub_cancel]
      rw [hpos'] at hat'
      rw [Stop.error, ← hf', hat'.position]
      exact .tooDeep (Nat.le_refl ps.length) (hat'.noRoom hf'.symm)
    | ok s' =>
      rw [scan_cons hx'] at hv
      have hle := length_le_of_verdict hv
      have hlt : ps.length < (ps ++ x :: r).length - stop'.rest.length := by
        rw [List.length_append, List.length_cons]
        omega
      exact hat'.causedFrom hlt

end

/-- Under a larger limit an outcome stands, unless it is that a level was too deep. Where a level
was too deep, the token that opened it was read, or is again too deep, or the formula has a value:
an error has its cause at that token or behind it. -/
theorem evaluate_of_limit_le (ts : List String) (a : Assignment) (ex : List String)
    {limit limit' : Int} (h : limit ≤ limit') :
    ((∀ bound found position,
        (evaluate ts a ex limit).outcome ≠ .error (.tooDeep bound found position)) →
      (evaluate ts a ex limit').outcome = (evaluate ts a ex limit).outcome) ∧
    ∀ bound found position,
      (evaluate ts a ex limit).outcome = .error (.tooDeep bound found position) →
      ∃ p, position = (p : Nat) ∧ ts[p]? = some found ∧
        ((∃ e, (evaluate ts a ex limit').outcome = .ok e) ∨
          ∃ err, (evaluate ts a ex limit').outcome = .error err ∧ CausedFrom ts limit' p err) := by
  refine ⟨outcome_of_limit_le h, fun bound found position herr => ?_⟩
  obtain ⟨p, hp, hfound, hcaused⟩ := causedFrom_of_limit_le h herr
  refine ⟨p, hp, hfound, ?_⟩
  cases hout : (evaluate ts a ex limit').outcome with
  | ok e => exact .inl ⟨e, rfl⟩
  | error err => exact .inr ⟨err, rfl, hcaused err hout⟩

-- Without room the negation is too deep; one level is enough to pass it and come to the variable
-- without a value.
theorem evaluate_of_limit_le_of_unknown_name :
    (-1 : Int) ≤ 1 ∧
    (evaluate ["A", "&&", "!", "B"] [("A", .flag true)] [] (-1)).outcome =
        .error (.tooDeep (-1) "!" 2) ∧
      ∃ p, (2 : Int) = (p : Nat) ∧ ["A", "&&", "!", "B"][p]? = some "!" ∧
        ((∃ e, (evaluate ["A", "&&", "!", "B"] [("A", .flag true)] [] 1).outcome = .ok e) ∨
          ∃ err, (evaluate ["A", "&&", "!", "B"] [("A", .flag true)] [] 1).outcome =
              .error err ∧ CausedFrom ["A", "&&", "!", "B"] 1 p err) := by
  have hle : (-1 : Int) ≤ 1 := by decide
  have hscan : verdict (scan (Assignment.known [("A", .flag true)]) (-1 : Int).toNat (.due [])
      ["A", "&&", "!", "B"]) = some (.noRoom, ["!", "B"]) := by decide
  have herr := @evaluate_of_verdict _ [] [("A", .flag true)] (-1) _ _ hscan
  exact ⟨hle, herr, (evaluate_of_limit_le _ _ _ hle).2 _ _ _ herr⟩

end PropTable
