import Mathlib
import PropTable.Proofs.Arguments
import PropTable.Proofs.Checking

/-!
# Replaying intents

Carrying out intents by name comes to this: names that stand for no intent are dropped, and the rest
work on a stack of tokens and a table (`Replays`). Whatever leaves the intents as they are, such as
another spelling of a name, leaves the outcome as it is. A formula that is built up by intents ends
like one that is given as such (`replay_agrees`).
-/

namespace PropTable

open Log

/-! ## Spellings of a name -/

/-- The second text is the first with underscores put in and ASCII letters in another case. -/
inductive Restyled : List Char → List Char → Prop where
  | nil : Restyled [] []
  | keep {cs ds} (c : Char) : Restyled cs ds → Restyled (c :: cs) (c :: ds)
  | lower {cs ds} (c : Char) : Restyled cs ds → Restyled (c :: cs) (c.toLower :: ds)
  | upper {cs ds} (c : Char) : Restyled cs ds → Restyled (c :: cs) (c.toUpper :: ds)
  | underscore {cs ds} : Restyled cs ds → Restyled cs ('_' :: ds)

/-- What counts of the characters of a name. -/
def essence (cs : List Char) : List Char :=
  (cs.filter (· != '_')).map Char.toLower

theorem toLower_eq_underscore {c : Char} : c.toLower = '_' ↔ c = '_' := by
  by_cases hc : c.isUpper
  · have hlower : c.toLower.isAlpha := by
      rw [Char.isAlpha_toLower_eq_isAlpha, Char.isAlpha, hc, Bool.true_or]
    constructor
    · intro h
      rw [h] at hlower
      exact absurd hlower (by decide)
    · intro h
      rw [h] at hc
      exact absurd hc (by decide)
  · rw [Char.toLower_eq_of_not_isUpper hc]

theorem essence_cons {c d : Char} {cs ds : List Char} (h : c.toLower = d.toLower)
    (hrest : essence cs = essence ds) : essence (c :: cs) = essence (d :: ds) := by
  have hc : c = '_' ↔ d = '_' := by
    rw [← toLower_eq_underscore, h, toLower_eq_underscore]
  unfold essence at hrest ⊢
  by_cases hd : d = '_'
  · rw [hc.2 hd, hd]
    exact hrest
  · have hkeepc : (c != '_') = true := bne_iff_ne.2 fun he => hd (hc.1 he)
    have hkeepd : (d != '_') = true := bne_iff_ne.2 hd
    simp only [List.filter_cons, hkeepc, hkeepd, if_true, List.map_cons, h, hrest]

theorem Restyled.essence {cs ds : List Char} (h : Restyled cs ds) :
    essence cs = essence ds := by
  induction h with
  | nil => rfl
  | keep c _ ih => exact essence_cons rfl ih
  | lower c _ ih => exact essence_cons (Char.toLower_toLower_eq_toLower c).symm ih
  | upper c _ ih => exact essence_cons (Char.toLower_toUpper_eq_toLower c).symm ih
  | underscore _ ih => exact ih

theorem Restyled.ofName? {name other : String} (h : Restyled name.toList other.toList) :
    Intent.ofName? name = Intent.ofName? other := by
  have hkey : Intent.key name = Intent.key other := congrArg String.ofList h.essence
  rw [Intent.ofName?, Intent.ofName?, hkey]

/-! ## The reference -/

/-- What intents come to when they begin with the tokens `ts` and the table `kept`: the table that
is kept at the end, or the error of the first formula that is none. -/
inductive Replays : List String → Option Table → List Intent →
    Except FormulaError (Option Table) → Prop where
  | done (ts kept) : Replays ts kept [] (.ok kept)
  | push {ts kept i is r} (t : String) : i.token? = some t → Replays (ts ++ [t]) kept is r →
      Replays ts kept (i :: is) r
  | pop {ts kept is r} : Replays ts.dropLast kept is r → Replays ts kept (.deleteLast :: is) r
  | clear {ts kept is r} : Replays [] none is r → Replays ts kept (.clear :: is) r
  /-- There is nothing to solve. -/
  | skip {kept is r} : Replays [] kept is r → Replays [] kept (.solve :: is) r
  | solve {ts kept is r} (T : Table) : ts ≠ [] → Sentence 100 ts →
      (Table.build ts 100).result = .ok T → Replays ts (some T) is r →
      Replays ts kept (.solve :: is) r
  | stop {ts kept is} (err : FormulaError) : ts ≠ [] → ¬ Sentence 100 ts →
      (Table.build ts 100).result = .error (.formula err) → err.isMalformed = true →
      Replays ts kept (.solve :: is) (.error err)

section

variable {ts : List String} {kept : Option Table} {is : List Intent}
  {r : Except FormulaError (Option Table)}

theorem Replays.unique {r' : Except FormulaError (Option Table)} (h : Replays ts kept is r)
    (h' : Replays ts kept is r') : r = r' := by
  induction h with
  | done ts kept =>
    cases h'
    rfl
  | push t ht _ ih =>
    cases h' with
    | push t' ht' hrest =>
      rw [ht] at ht'
      cases ht'
      exact ih hrest
    | _ => cases ht
  | pop _ ih =>
    cases h' with
    | push t ht => cases ht
    | pop hrest => exact ih hrest
  | clear _ ih =>
    cases h' with
    | push t ht => cases ht
    | clear hrest => exact ih hrest
  | skip _ ih =>
    cases h' with
    | push t ht => cases ht
    | skip hrest => exact ih hrest
    | solve T hne => exact absurd rfl hne
    | stop err hne => exact absurd rfl hne
  | solve T hne _ hT _ ih =>
    cases h' with
    | push t ht => cases ht
    | skip => exact absurd rfl hne
    | solve T' _ _ hT' hrest =>
      rw [hT] at hT'
      cases hT'
      exact ih hrest
    | stop err _ _ herr =>
      rw [hT] at herr
      cases herr
  | stop err hne _ herr _ =>
    cases h' with
    | push t ht => cases ht
    | skip => exact absurd rfl hne
    | solve T _ _ hT =>
      rw [herr] at hT
      cases hT
    | stop err' _ _ herr' =>
      rw [herr] at herr'
      cases herr'
      rfl

/-- Intents that add tokens put them on the stack. -/
theorem Replays.pushAll {adds : List Intent} {tokens : List String}
    (hadds : adds.map Intent.token? = tokens.map some) (h : Replays (ts ++ tokens) kept is r) :
    Replays ts kept (adds ++ is) r := by
  induction adds generalizing ts tokens with
  | nil =>
    obtain rfl : tokens = [] := List.map_eq_nil_iff.1 hadds.symm
    rw [List.append_nil] at h
    exact h
  | cons i adds ih =>
    cases tokens with
    | nil => cases hadds
    | cons t tokens =>
      rw [List.map_cons, List.map_cons, List.cons.injEq] at hadds
      rw [List.append_cons] at h
      exact .push t hadds.1 (ih hadds.2 h)

end

/-! ## Sessions -/

namespace Session

/-- The table that a session is left with behind intents by name, or the error of the first that
fails. -/
def replay (s : Session) (names : List String) : Except SessionError (Option Table) :=
  let (outcome, s) := (s.dispatchAll names).result
  outcome.map fun _ => s.lastTable

variable {s : Session} {name : String} {names : List String}

theorem replay_cons {answer : Option Table} {next : Session}
    (h : (s.step (.dispatch name)).result = (.ok answer, next)) :
    s.replay (name :: names) = next.replay names := by
  rw [replay, dispatchAll_cons (congrArg Prod.fst h), h]
  rfl

theorem replay_cons_error {err : SessionError}
    (h : (s.step (.dispatch name)).result.1 = .error err) :
    s.replay (name :: names) = .error err := by
  have hall : (s.dispatchAll (name :: names)).result.1 = .error err := dispatchAll_cons_error h
  unfold replay
  generalize (s.dispatchAll (name :: names)).result = answered at hall ⊢
  obtain ⟨outcome, last⟩ := answered
  cases hall
  rfl

/-- An intent leads to a session from which the rest of the run is replayed, or it stops the run
with the error of a formula that is none. -/
theorem step_cases {i : Intent} (hname : Intent.ofName? name = some i)
    (hs : "" ∉ s.buffer.tokens) (hdepth : s.maxDepth = 100) :
    (∃ answer next, (s.step (.dispatch name)).result = (.ok answer, next) ∧
      "" ∉ next.buffer.tokens ∧ next.maxDepth = 100 ∧
      ∀ is r, Replays next.buffer.tokens next.lastTable is r →
        Replays s.buffer.tokens s.lastTable (i :: is) r) ∨
    ∃ err, (s.step (.dispatch name)).result.1 = .error (.unsolved (.formula err)) ∧
      ∀ is, Replays s.buffer.tokens s.lastTable (i :: is) (.error err) := by
  have hstep := s.result_step (.dispatch name)
  simp only [Step.request, hname] at hstep
  have hpush : ∀ t, i.request = .push t → "" ∉ s.buffer.tokens ++ [t] := by
    intro t hrequest
    rw [List.mem_append, List.mem_singleton, not_or]
    exact ⟨hs, (Intent.request_push hrequest).symm⟩
  cases i with
  | addSymbol symbol =>
    exact .inl ⟨none, _, hstep, hpush _ rfl, hdepth, fun _ _ h => .push symbol.spelling rfl h⟩
  | addLetter letter =>
    exact .inl ⟨none, _, hstep, hpush _ rfl, hdepth, fun _ _ h => .push letter.token rfl h⟩
  | deleteLast =>
    exact .inl ⟨none, _, hstep, fun h => hs (List.dropLast_subset _ h), hdepth, fun _ _ h => .pop h⟩
  | clear => exact .inl ⟨none, _, hstep, List.not_mem_nil, hdepth, fun _ _ h => .clear h⟩
  | solve =>
    change _ = (s.answer .solve, s.after .solve) at hstep
    by_cases hnil : s.buffer.tokens = []
    · rw [answer, if_pos hnil, after_solve_of_empty hnil] at hstep
      refine .inl ⟨none, s, hstep, hs, hdepth, ?_⟩
      intro is r h
      rw [hnil] at h ⊢
      exact .skip h
    · rw [answer, if_neg hnil, after_solve, hdepth] at hstep
      obtain ⟨hsentence, T, hbuild⟩ | ⟨hsentence, err, hbuild, hmalformed⟩ :=
        Table.build_cases 100 hs hnil
      · rw [hbuild] at hstep
        exact .inl ⟨some T, _, hstep, hs, rfl, fun _ _ h => .solve T hnil hsentence hbuild h⟩
      · rw [hbuild] at hstep
        exact .inr ⟨err, congrArg Prod.fst hstep,
          fun _ => .stop err hnil hsentence hbuild hmalformed⟩

-- No intent adds an empty token, so a session without any stays one to the end of the run.
theorem exists_replays (hs : "" ∉ s.buffer.tokens) (hdepth : s.maxDepth = 100)
    (names : List String) :
    ∃ r, Replays s.buffer.tokens s.lastTable (names.filterMap Intent.ofName?) r ∧
      s.replay names = r.mapError fun err => .unsolved (.formula err) := by
  induction names generalizing s with
  | nil => exact ⟨_, .done _ _, rfl⟩
  | cons name names ih =>
    cases hname : Intent.ofName? name with
    | none =>
      rw [List.filterMap_cons_none hname, replay_cons (s.failsCleanly.unknown name hname)]
      exact ih hs hdepth
    | some i =>
      rw [List.filterMap_cons_some hname]
      obtain ⟨answer, next, hstep, hnext, hnextDepth, hrest⟩ | ⟨err, hstep, hstop⟩ :=
        step_cases hname hs hdepth
      · obtain ⟨r, hr, hreplay⟩ := ih hnext hnextDepth
        exact ⟨r, hrest _ _ hr, (replay_cons hstep).trans hreplay⟩
      · exact ⟨_, hstop _, replay_cons_error hstep⟩

/-- The session that a run begins with. -/
def initial : Session := ofBuffer .empty defaultMaxDepth

theorem exists_replays_initial (names : List String) :
    ∃ r, Replays [] none (names.filterMap Intent.ofName?) r ∧
      initial.replay names = r.mapError fun err => .unsolved (.formula err) :=
  exists_replays (s := initial) List.not_mem_nil rfl names

theorem replay_of_replays {r : Except FormulaError (Option Table)}
    (h : Replays [] none (names.filterMap Intent.ofName?) r) :
    initial.replay names = r.mapError fun err => .unsolved (.formula err) := by
  obtain ⟨r', hr', hreplay⟩ := exists_replays_initial names
  rw [hreplay, h.unique hr']

theorem replay_congr {others : List String}
    (h : names.filterMap Intent.ofName? = others.filterMap Intent.ofName?) :
    initial.replay names = initial.replay others := by
  obtain ⟨r, hr, hreplay⟩ := exists_replays_initial others
  rw [← h] at hr
  rw [hreplay, replay_of_replays hr]

theorem quiet_dispatchAll (hnames : ∀ x ∈ names, (Intent.ofName? x).isSome) {kept : Option Table}
    (h : s.replay names = .ok kept) : (s.dispatchAll names).Quiet := by
  induction names generalizing s with
  | nil => exact Journal.quiet_pure _
  | cons name names ih =>
    obtain ⟨i, hi⟩ := Option.isSome_iff_exists.1 (hnames name List.mem_cons_self)
    cases hstep : (s.step (.dispatch name)).result with
    | mk outcome next =>
      cases outcome with
      | error err =>
        rw [replay_cons_error (congrArg Prod.fst hstep)] at h
        cases h
      | ok answer =>
        rw [replay_cons hstep] at h
        change (s.dispatch name).result = _ at hstep
        rw [dispatchAll]
        apply (quiet_dispatch hi (congrArg Prod.fst hstep)).bind
        rw [hstep]
        exact ih (fun x hx => hnames x (List.mem_cons_of_mem name hx)) h

end Session

/-! ## The command line -/

namespace Intent

/-- The intent that adds a token. -/
def adding? (t : String) : Option Intent :=
  all.find? fun i => i.token? == some t

/-- The tokens that intents can add. -/
def vocabulary : List String := ["P", "Q", "R", "S"] ++ reserved

/-- The names of the intents that add the tokens. -/
def addNames (tokens : List String) : List String :=
  tokens.filterMap fun t => (adding? t).map tag

theorem adding?_vocabulary : ∀ t ∈ vocabulary, (adding? t).isSome := by
  decide +kernel

theorem exists_adds {tokens : List String} (h : ∀ t ∈ tokens, t ∈ vocabulary) :
    ∃ adds : List Intent, adds.map token? = tokens.map some ∧
      addNames tokens = adds.map tag := by
  induction tokens with
  | nil => exact ⟨[], rfl, rfl⟩
  | cons t tokens ih =>
    obtain ⟨i, hi⟩ := Option.isSome_iff_exists.1 (adding?_vocabulary t (h t List.mem_cons_self))
    have ht : i.token? = some t := by simpa using List.find?_some hi
    obtain ⟨adds, htokens, hnames⟩ := ih fun x hx => h x (List.mem_cons_of_mem t hx)
    refine ⟨i :: adds, ?_, ?_⟩
    · rw [List.map_cons, List.map_cons, ht, htokens]
    · rw [List.map_cons, ← hnames, addNames, List.filterMap_cons_some]
      · rfl
      · rw [hi]
        rfl

theorem ofName?_tag : ∀ i ∈ all, ofName? i.tag = some i := by
  decide +kernel

theorem filterMap_tags (is : List Intent) : (is.map tag).filterMap ofName? = is := by
  rw [List.filterMap_map]
  have htags : is.filterMap (ofName? ∘ tag) = is.filterMap some :=
    List.filterMap_congr fun i _ => ofName?_tag i i.mem_all
  rw [htags, List.filterMap_some]

end Intent

namespace CommandLine

/-- How a run ends that carries out intents, by what they come to. -/
def conclude : Except SessionError (Option Table) → Journal Verdict
  | .error err => concludeSession err
  | .ok (some T) => pure (printTable T)
  | .ok none => do
    Journal.tell .noTableSolved
    return failing .unsolved

theorem replay_eq (names : List String) :
    replay names = Session.initial.dispatchAll names >>= fun answered =>
      conclude (answered.1.map fun _ => answered.2.lastTable) := by
  unfold replay
  congr 1
  funext answered
  obtain ⟨outcome, s⟩ := answered
  cases outcome with
  | error err => rfl
  | ok _ =>
    show _ = conclude (.ok s.lastTable)
    dsimp only
    cases s.lastTable <;> rfl

theorem code_replay (names : List String) :
    (visible (replay names)).1 = (visible (conclude (Session.initial.replay names))).1 := by
  rw [replay_eq]
  rfl

theorem visible_replay {names : List String} (h : (Session.initial.dispatchAll names).Quiet) :
    visible (replay names) = visible (conclude (Session.initial.replay names)) := by
  rw [replay_eq, visible_bind h]
  rfl

theorem classify_tag : ∀ i ∈ Intent.all,
    i.tag ≠ separatorSpelling ∧ classify i.tag = .ok .operand := by
  decide +kernel

variable {adds : List Intent} {tokens : List String}

/-- A formula that is added by intents and solved ends like one that is given as such. -/
theorem visible_replay_adds (hadds : adds.map Intent.token? = tokens.map some)
    (htokens : "" ∉ tokens) :
    let names := (adds ++ [Intent.solve]).map Intent.tag
    (visible (replay names)).1 = (visible (solve false tokens)).1 ∧
    ((visible (solve false tokens)).1 = 0 →
      visible (replay names) = visible (solve false tokens)) := by
  intro names
  have hreplay : ∀ r, Replays tokens none [.solve] r →
      Session.initial.replay names = r.mapError fun err => .unsolved (.formula err) := by
    intro r hr
    apply Session.replay_of_replays
    rw [Intent.filterMap_tags]
    exact .pushAll hadds hr
  rw [code_replay, visible_solve, if_neg htokens]
  by_cases hnil : tokens = []
  · subst hnil
    rw [hreplay _ (.skip (.done _ _)), if_pos rfl]
    exact ⟨rfl, nofun⟩
  · rw [if_neg hnil]
    simp only [Bool.false_eq_true, if_false]
    obtain ⟨hsentence, T, hT⟩ | ⟨hsentence, err, herr, hmalformed⟩ :=
      Table.build_cases 100 htokens hnil
    · have hkept := hreplay _ (.solve T hnil hsentence hT (.done _ _))
      have hknown : ∀ x ∈ names, (Intent.ofName? x).isSome := by
        intro x hx
        obtain ⟨i, -, rfl⟩ := List.mem_map.1 hx
        rw [Intent.ofName?_tag i i.mem_all]
        rfl
      have htable : visible (tabulate tokens) = visible (pure (printTable T)) := by
        have hbuild : (Table.build tokens defaultMaxDepth).result = .ok T := hT
        rw [visible_tabulate, hbuild]
      rw [visible_replay (Session.quiet_dispatchAll hknown hkept), hkept, htable]
      exact ⟨rfl, fun _ => rfl⟩
    · obtain ⟨-, hcode⟩ := visible_of_not_sentence htokens hnil hsentence
      rw [hreplay _ (.stop err hnil hsentence herr hmalformed), hcode]
      refine ⟨?_, nofun⟩
      exact congrArg (fun v : Verdict => v.exit.code) (concludeWithout_malformed hmalformed)

/-- Carrying out intents by name does what `Replays` says with the names that stand for intents. So
neither names that stand for none nor other spellings of the names change the outcome, and a run
that adds a formula by intents and solves it ends like one that is given its tokens. -/
theorem replay_agrees (read : String → Contents) :
    (∀ names : List String, ∃ r,
      Session.initial.replay names = r.mapError (fun err => .unsolved (.formula err)) ∧
      ∀ r', Replays [] none (names.filterMap Intent.ofName?) r' ↔ r' = r) ∧
    (∀ (before after : List String) (x : String), Intent.ofName? x = none →
      Session.initial.replay (before ++ x :: after) = Session.initial.replay (before ++ after)) ∧
    (∀ names others : List String,
      List.Forall₂ (fun x y => Restyled x.toList y.toList) names others →
      Session.initial.replay others = Session.initial.replay names) ∧
    ∀ tokens : List String, (∀ t ∈ tokens, t ∈ Intent.vocabulary) → ∃ replayed given,
      run read ("--intents" :: (Intent.addNames tokens ++ ["solve_formula"])) = .ok replayed ∧
      run read ("--" :: tokens) = .ok given ∧ replayed.exitCode = given.exitCode ∧
      (given.exitCode = 0 → replayed.output = given.output) := by
  refine ⟨?_, ?_, ?_, ?_⟩
  · intro names
    obtain ⟨r, hr, hreplay⟩ := Session.exists_replays_initial names
    refine ⟨r, hreplay, fun r' => ⟨fun hr' => hr'.unique hr, ?_⟩⟩
    intro he
    rw [he]
    exact hr
  · intro before after x hx
    apply Session.replay_congr
    rw [List.filterMap_append, List.filterMap_append, List.filterMap_cons_none hx]
  · intro names others h
    apply Session.replay_congr
    induction h with
    | nil => rfl
    | cons hxy _ ih => simp only [List.filterMap_cons, hxy.ofName?, ih]
  · intro tokens htokens
    obtain ⟨adds, hadds, hnames⟩ := Intent.exists_adds htokens
    have hempty : "" ∉ tokens := fun h => absurd (htokens "" h) (by decide)
    have hall : Intent.addNames tokens ++ ["solve_formula"] =
        (adds ++ [Intent.solve]).map Intent.tag := by
      rw [hnames, List.map_append]
      rfl
    have hoperands : ∀ x ∈ (adds ++ [Intent.solve]).map Intent.tag,
        x ≠ separatorSpelling ∧ classify x = .ok .operand := by
      intro x hx
      obtain ⟨i, -, rfl⟩ := List.mem_map.1 hx
      exact classify_tag i i.mem_all
    have hintents := Takes.flag (p := ("--intents", .intents)) (o := .initial) (by decide) rfl
      (takes_operands _ hoperands)
    obtain ⟨hcode, hvisible⟩ := visible_replay_adds hadds hempty
    rw [hall]
    refine ⟨_, _, run_of_parse read hintents.parse,
      run_of_parse read (takes_separator .initial tokens).parse, hcode, ?_⟩
    intro h
    exact congrArg Prod.snd (hvisible h)

-- One formula takes all intents that add tokens, and is solved before its last token is deleted; the
-- other one is no sentence.
theorem replay_agrees_of_edits :
    let tokens := ["(", "P", "&&", "!", "Q", ")", "||", "R", "xor", "S", "->", "P", "<->", "Q"]
    let adds := ["add_open_parentheses", "add_p", "add_and", "add_not", "add_q",
      "add_closed_parentheses", "add_or", "add_r", "add_xor", "add_s", "add_implication", "add_p",
      "add_equivalence", "add_q"]
    (∃ T, Session.initial.replay (adds ++ ["solve_formula", "delete_formula"]) = .ok (some T) ∧
      T.tokens = tokens) ∧
    (Intent.ofName? "what" = none ∧
      Session.initial.replay (adds ++ "what" :: ["solve_formula", "delete_formula"]) =
        Session.initial.replay (adds ++ ["solve_formula", "delete_formula"])) ∧
    (Restyled "add_p".toList "A_dd_P".toList ∧
      Session.initial.replay ["A_dd_P"] = Session.initial.replay ["add_p"]) ∧
    ((∀ t ∈ tokens, t ∈ Intent.vocabulary) ∧
      ∃ replayed given,
        run (fun _ => .error .notFound) ("--intents" :: (adds ++ ["solve_formula"])) =
          .ok replayed ∧
        run (fun _ => .error .notFound) ("--" :: tokens) = .ok given ∧
        replayed.exitCode = 0 ∧ given.exitCode = 0 ∧ replayed.output = given.output) ∧
    (∀ t ∈ ["P", "->"], t ∈ Intent.vocabulary) ∧
    ∃ replayed given,
      run (fun _ => .error .notFound) ["--intents", "add_p", "add_implication", "solve_formula"] =
        .ok replayed ∧
      run (fun _ => .error .notFound) ["--", "P", "->"] = .ok given ∧
      replayed.exitCode = given.exitCode ∧
      (given.exitCode = 0 → replayed.output = given.output) := by
  intro tokens adds
  obtain ⟨hreference, hunknown, hrestyled, hroutes⟩ := replay_agrees fun _ => .error .notFound
  have hwhat : Intent.ofName? "what" = none := by decide +kernel
  have hstyles : Restyled "add_p".toList "A_dd_P".toList := by
    have hname : "add_p".toList = ['a', 'd', 'd', '_', 'p'] := by decide +kernel
    have hother : "A_dd_P".toList = ['a'.toUpper, '_', 'd', 'd', '_', 'p'.toUpper] := by
      decide +kernel
    rw [hname, hother]
    exact .upper _ (.underscore (.keep _ (.keep _ (.keep _ (.upper _ .nil)))))
  have hsentence : Sentence 100 tokens := by decide
  have hempty : "" ∉ tokens := by decide
  have hvocabulary : ∀ t ∈ tokens, t ∈ Intent.vocabulary := by decide
  have hadds : Intent.addNames tokens = adds := by decide +kernel
  refine ⟨?_, ⟨hwhat, hunknown adds _ "what" hwhat⟩, ⟨hstyles, hrestyled _ _ (.cons hstyles .nil)⟩,
    ⟨hvocabulary, ?_⟩, by decide, ?_⟩
  · obtain ⟨r, hreplay, hr⟩ := hreference (adds ++ ["solve_formula", "delete_formula"])
    obtain ⟨intents, htokens, hintents⟩ := Intent.exists_adds hvocabulary
    have hall : intents.map Intent.tag ++ ["solve_formula", "delete_formula"] =
        (intents ++ [Intent.solve, .deleteLast]).map Intent.tag := by
      rw [List.map_append]
      rfl
    obtain ⟨T, hT⟩ := Table.exists_build_iff.2 ⟨hsentence, hempty⟩
    rw [← hadds, hintents, hall, Intent.filterMap_tags] at hr
    obtain rfl : .ok (some T) = r :=
      (hr _).1 (.pushAll htokens (.solve T nofun hsentence hT (.pop (.done _ _))))
    exact ⟨T, hreplay, Table.tokens_of_build hT⟩
  · obtain ⟨replayed, given, hreplayed, hgiven, hcode, houtput⟩ := hroutes tokens hvocabulary
    rw [hadds] at hreplayed
    have hsuccess : given.exitCode = 0 := by
      have hrun := run_of_parse (fun _ => .error .notFound) (takes_separator .initial tokens).parse
      obtain ⟨⟨_, _, -, -, htable⟩, -⟩ := visible_of_sentence hempty hsentence
      obtain rfl := Except.ok.inj (hgiven.symm.trans hrun)
      change (visible (solve false tokens)).1 = 0
      rw [visible_solve, if_neg hempty, if_neg (List.cons_ne_nil _ _)]
      exact congrArg Prod.fst htable
    exact ⟨replayed, given, hreplayed, hgiven, hcode.trans hsuccess, hsuccess, houtput hsuccess⟩
  · have hnames : Intent.addNames ["P", "->"] = ["add_p", "add_implication"] := by decide +kernel
    have hruns := hroutes ["P", "->"] (by decide)
    rw [hnames] at hruns
    exact hruns

end CommandLine

end PropTable
