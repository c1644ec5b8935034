import PropTable.Proofs.Limits

/-!
# Where a message says that a formula breaks off

A message that tokens break the grammar shows what was found at a position: a token in quotes, or
the words for the end of the input without them. The position tells the two apart. The words do so
too, unless the token at the position is spelled like the words for the end (`tellsEnd_iff`): it is
shown as if the formula broke off there (`not_tellsEnd_of_spelled_end`).
-/

namespace PropTable

namespace FormulaError

/-- What a message is made of that says where tokens break the grammar. -/
structure Mismatch where
  expected : String
  found : String
  position : Int
deriving DecidableEq, Repr

/-- The message that shows `text` as what was found. -/
def Mismatch.messageWith (m : Mismatch) (text : String) : String :=
  "Expected " ++ m.expected ++ " but found " ++ text ++ " at token " ++ toString m.position

def mismatch? : FormulaError → Option Mismatch
  | .malformed expected found position => some ⟨expected, found, position⟩
  | .tooDeep limit found position => some ⟨withinLimit limit, found, position⟩
  | .unknownVariable _ => none

def quote (token : String) : String := "'" ++ token ++ "'"

/-- The message names the end of the input, without quotes, exactly where the position is behind the
last of the tokens `ts`. Where the position is that of a token, it shows this token in quotes. -/
structure TellsEnd (err : FormulaError) (m : Mismatch) (ts : List String) : Prop where
  end_iff : err.message = m.messageWith endOfInput ↔ m.position = ts.length
  token : ∀ p : Nat, m.position = p → p < ts.length →
    ∃ x, ts[p]? = some x ∧ err.message = m.messageWith (quote x)

/-! ## Texts -/

theorem exists_mismatch {err : FormulaError} (h : err.isMalformed = true) :
    ∃ m, err.mismatch? = some m := by
  cases err with
  | malformed expected found position => exact ⟨_, rfl⟩
  | tooDeep limit found position => exact ⟨_, rfl⟩
  | unknownVariable name => cases h

theorem message_of_mismatch {err : FormulaError} {m : Mismatch} (h : err.mismatch? = some m) :
    err.message = m.messageWith (foundText m.found) := by
  cases err with
  | malformed expected found position =>
    obtain rfl := Option.some.inj h
    rfl
  | tooDeep limit found position =>
    obtain rfl := Option.some.inj h
    rfl
  | unknownVariable name => cases h

-- A message shows one text as what was found.
theorem Mismatch.messageWith_inj (m : Mismatch) {text text' : String} :
    m.messageWith text = m.messageWith text' ↔ text = text' := by
  unfold messageWith
  rw [String.append_left_inj, String.append_left_inj, String.append_right_inj]

theorem quote_ne_endOfInput (token : String) : quote token ≠ endOfInput := by
  intro h
  have hquote : (quote token).toList.head? = some Text.apostrophe := by
    rw [quote, String.toList_append, String.toList_append]
    rfl
  rw [h] at hquote
  exact absurd hquote (by decide)

theorem foundText_of_ne {found : String} (h : found ≠ endOfInput) : foundText found = quote found :=
  if_neg h

/-! ## Positions -/

/-- What was found is the token at the position, or the end of the input behind the last one. -/
theorem found_of_evaluate {ts ex : List String} {a : Assignment} {limit : Int} {err : FormulaError}
    {m : Mismatch} (h : (evaluate ts a ex limit).outcome = .error err)
    (hm : err.mismatch? = some m) :
    ∃ p : Nat, m.position = p ∧ p ≤ ts.length ∧ m.found = ts[p]?.getD endOfInput := by
  obtain ⟨stop, ht, rfl⟩ := stop_of_evaluate h
  have hat := stopsAt_of_ofTokens ht
  have hfound : m.found = stop.rest.headD endOfInput ∧
      m.position = (ts.length - stop.rest.length : Nat) := by
    rw [Stop.error] at hm
    cases hfault : stop.fault with
    | unknownName name =>
      rw [hfault] at hm
      cases hm
    | _ =>
      rw [hfault] at hm
      obtain rfl := Option.some.inj hm
      exact ⟨rfl, rfl⟩
  exact ⟨_, hfound.2, Nat.sub_le ts.length stop.rest.length, hfound.1.trans hat.found.symm⟩

section

variable {ts : List String} {err : FormulaError} {m : Mismatch} {p : Nat}

-- Behind the last token the words for the end stand, whatever the tokens are.
theorem tellsEnd_of_length (hm : err.mismatch? = some m) (hp : m.position = p)
    (hlen : p = ts.length) (hfound : m.found = ts[p]?.getD endOfInput) : err.TellsEnd m ts := by
  have hend : m.found = endOfInput := by
    rw [hfound, hlen, List.getElem?_eq_none (Nat.le_refl ts.length), Option.getD_none]
  have hmessage : err.message = m.messageWith endOfInput := by
    rw [message_of_mismatch hm, hend, foundText, if_pos rfl]
  constructor
  · exact iff_of_true hmessage (hp.trans (congrArg Nat.cast hlen))
  · intro q hq hlt
    have hqp : (q : Int) = p := hq.symm.trans hp
    omega

-- At a token, all depends on how it is spelled.
theorem tellsEnd_iff_of_token {x : String} (hm : err.mismatch? = some m) (hp : m.position = p)
    (hx : ts[p]? = some x) (hfound : m.found = x) : err.TellsEnd m ts ↔ x ≠ endOfInput := by
  have hlt : p < ts.length := (List.getElem?_eq_some_iff.1 hx).1
  have hmessage := message_of_mismatch hm
  have hne : m.position ≠ ts.length := by omega
  rw [hfound] at hmessage
  constructor
  · rintro htells rfl
    rw [foundText, if_pos rfl] at hmessage
    exact hne (htells.end_iff.1 hmessage)
  · intro hspelled
    rw [foundText_of_ne hspelled] at hmessage
    constructor
    · refine iff_of_false (fun h => ?_) hne
      rw [hmessage, m.messageWith_inj] at h
      exact quote_ne_endOfInput x h
    · intro q hq _
      have hqp : q = p := by omega
      exact ⟨x, hqp ▸ hx, hmessage⟩

end

end FormulaError

open FormulaError

/-- An error of the grammar has its position at a token or behind the last one, and what was found
is that token, or the end. The message tells the two apart unless the token at the position is
spelled like the words for the end, and so it always does where no token is. -/
theorem tellsEnd_iff {ts ex : List String} {a : Assignment} {limit : Int} {err : FormulaError}
    (h : (evaluate ts a ex limit).outcome = .error err) (hmalformed : err.isMalformed = true) :
    ∃ (m : Mismatch) (p : Nat), err.mismatch? = some m ∧ m.position = p ∧ p ≤ ts.length ∧
      m.found = ts[p]?.getD endOfInput ∧
      (err.TellsEnd m ts ↔ ts[p]? ≠ some endOfInput) ∧
      (endOfInput ∉ ts → err.TellsEnd m ts) := by
  obtain ⟨m, hm⟩ := exists_mismatch hmalformed
  obtain ⟨p, hp, hle, hfound⟩ := found_of_evaluate h hm
  have hiff : err.TellsEnd m ts ↔ ts[p]? ≠ some endOfInput := by
    cases hx : ts[p]? with
    | none =>
      have hlen : p = ts.length := Nat.le_antisymm hle (List.getElem?_eq_none_iff.1 hx)
      exact iff_of_true (tellsEnd_of_length hm hp hlen hfound) nofun
    | some x =>
      rw [hx, Option.getD_some] at hfound
      rw [tellsEnd_iff_of_token hm hp hx hfound, ne_eq, ne_eq, Option.some_inj]
  refine ⟨m, p, hm, hp, hle, hfound, hiff, fun hts => hiff.2 fun hx => ?_⟩
  exact hts (List.mem_of_getElem? hx)

-- The name holds a quote and the words for the end, and is told from the end.
theorem tellsEnd_of_similar_name :
    (evaluate ["!", "A", "'end of input"] [("A", .flag true)] ["A"] 1).outcome =
        .error (.malformed "an operator or end of input" "'end of input" 2) ∧
      ∃ (m : Mismatch) (p : Nat), m.position = p ∧ p < 3 ∧
        TellsEnd (.malformed "an operator or end of input" "'end of input" 2) m
          ["!", "A", "'end of input"] := by
  have hscan : verdict (scan (Assignment.known [("A", .flag true)]) 1 (.due [])
      ["!", "A", "'end of input"]) = some (.operatorExpected, ["'end of input"]) := by decide
  have h := @evaluate_of_verdict _ ["A"] [("A", .flag true)] 1 _ _ hscan
  obtain ⟨m, p, hm, hp, hle, -, -, htells⟩ := tellsEnd_iff h rfl
  obtain rfl := Option.some.inj hm
  refine ⟨h, _, p, hp, ?_, htells (by decide)⟩
  have hposition : (2 : Int) = p := hp
  omega

-- The second token is spelled like the words for the end, and so it is shown as the end.
theorem not_tellsEnd_of_spelled_end :
    ∃ (err : FormulaError) (m : Mismatch),
      (evaluate ["A", "end of input"] [("A", .flag true)] ["A"] 100).outcome = .error err ∧
      err.mismatch? = some m ∧ m.position = 1 ∧
      err.message =
        "Expected an operator or end of input but found end of input at token 1" ∧
      ¬ err.TellsEnd m ["A", "end of input"] := by
  have hscan : verdict (scan (Assignment.known [("A", .flag true)]) 100 (.due [])
      ["A", "end of input"]) = some (.operatorExpected, ["end of input"]) := by decide
  have h := @evaluate_of_verdict _ ["A"] [("A", .flag true)] 100 _ _ hscan
  refine ⟨_, _, h, rfl, rfl, by decide, fun htells => ?_⟩
  exact (tellsEnd_iff_of_token (p := 1) rfl rfl rfl rfl).1 htells rfl

end PropTable
