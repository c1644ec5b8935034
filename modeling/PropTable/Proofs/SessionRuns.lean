import Mathlib.Data.List.Induction
import PropTable.Proofs.TruthTable
import PropTable.Session

/-!
# Runs of a session

A session is worked on in steps, and what a step does depends only on what it asks for
(`Session.result_step`). After any steps the buffer holds the tokens that their requests come to,
and the table is the one of the latest request for a solution that had one, unless the session was
reset since then (`Session.run_history`). A step that fails leaves no mark.
-/

namespace PropTable

open Log

/-! ## Requests -/

/-- What a step asks of a session. -/
inductive Request where
  | push (token : String)
  /-- The datum is to be added and is no token. -/
  | reject (x : Datum)
  | pop
  /-- The tokens are to be dropped. -/
  | clear
  /-- The tokens and the table are to be dropped. -/
  | reset
  | solve
  | nothing

/-- The tokens that a request leaves. -/
def Request.tokens (ts : List String) : Request → List String
  | .push token => ts ++ [token]
  | .reject _ => ts
  | .pop => ts.dropLast
  | .clear => []
  | .reset => []
  | .solve => ts
  | .nothing => ts

/-- Texts with at least one character are tokens, and no other data are. -/
def Datum.request (x : Datum) : Request :=
  match x with
  | .text t => if t = "" then .reject x else .push t
  | _ => .reject x

theorem Datum.request_eq (x : Datum) :
    x.request = match Buffer.token? x with
      | some t => .push t
      | none => .reject x := by
  cases x with
  | text t =>
    simp only [request, Buffer.token?, String.isEmpty_iff]
    by_cases ht : t = ""
    · simp only [if_pos ht]
    · simp only [if_neg ht]
  | _ => rfl

theorem Datum.request_push {x : Datum} {t : String} (h : x.request = .push t) : t ≠ "" := by
  cases x with
  | text u =>
    simp only [request] at h
    by_cases hu : u = ""
    · rw [if_pos hu] at h
      cases h
    · rw [if_neg hu] at h
      cases h
      exact hu
  | _ => cases h

def Intent.request : Intent → Request
  | .addSymbol s => .push s.spelling
  | .addLetter l => .push l.token
  | .solve => .solve
  | .clear => .reset
  | .deleteLast => .pop

/-! ## Steps -/

/-- A step of a session: one of its operations, or an edit of its buffer. -/
inductive Step where
  | add (x : Datum)
  | deleteLast
  | deleteAll
  | solve
  | dispatch (name : String)
  | append (x : Datum)
  | removeLast
  | clearBuffer

def Step.request : Step → Request
  | .add x => x.request
  | .deleteLast => .pop
  | .deleteAll => .reset
  | .solve => .solve
  | .dispatch name =>
    match Intent.ofName? name with
    | some i => i.request
    | none => .nothing
  | .append x => x.request
  | .removeLast => .pop
  | .clearBuffer => .clear

namespace Session

/-- Carries out a step. -/
def step (s : Session) : Step → Journal (Except SessionError (Option Table) × Session)
  | .add x => do
    let (outcome, s) ← s.add x
    return ((outcome.map fun _ => none).mapError .rejected, s)
  | .deleteLast => return (.ok none, ← s.deleteLast)
  | .deleteAll => return (.ok none, s.deleteAll)
  | .solve => do
    let (outcome, s) ← s.solve
    return (outcome.mapError .unsolved, s)
  | .dispatch name => s.dispatch name
  | .append x => do
    match ← s.buffer.append x with
    | .error r => return (.error (.rejected r), s)
    | .ok b => return (.ok none, { s with buffer := b })
  | .removeLast => return (.ok none, { s with buffer := ← s.buffer.removeLast })
  | .clearBuffer => return (.ok none, s.clearBuffer)

/-- Carries out steps in turn, whether they fail or not. -/
def run (s : Session) (steps : List Step) : Session :=
  steps.foldl (fun s x => (s.step x).result.2) s

/-! ## What a step does -/

/-- The answer to a request. -/
def answer (s : Session) : Request → Except SessionError (Option Table)
  | .reject x => .error (.rejected ⟨x⟩)
  | .solve =>
    if s.buffer.tokens = [] then .ok none
    else ((Table.build s.buffer.tokens s.maxDepth).result.map some).mapError .unsolved
  | _ => .ok none

/-- The table behind a request. -/
def tableAfter (s : Session) : Request → Option Table
  | .reset => none
  | .solve => (Table.build s.buffer.tokens s.maxDepth).result.toOption.or s.lastTable
  | _ => s.lastTable

/-- The session behind a request. -/
def after (s : Session) (r : Request) : Session :=
  ⟨⟨r.tokens s.buffer.tokens⟩, s.maxDepth, s.tableAfter r⟩

theorem result_add (s : Session) (x : Datum) :
    (s.step (.add x)).result = (s.answer x.request, s.after x.request) := by
  simp only [step, add, Buffer.append, Journal.result_bind, x.request_eq]
  cases Buffer.token? x <;> rfl

theorem result_append (s : Session) (x : Datum) :
    (s.step (.append x)).result = (s.answer x.request, s.after x.request) := by
  simp only [step, Buffer.append, Journal.result_bind, x.request_eq]
  cases Buffer.token? x <;> rfl

theorem result_removeLast (b : Buffer) : b.removeLast.result = ⟨b.tokens.dropLast⟩ := by
  unfold Buffer.removeLast
  cases h : b.tokens.getLast? with
  | none =>
    have hnil : b.tokens = [] := List.getLast?_eq_none_iff.1 h
    rw [hnil]
    show b = ⟨[]⟩
    rw [← hnil]
  | some t => rfl

theorem result_deleteLast (s : Session) : s.deleteLast.result = s.after .pop := by
  show { s with buffer := s.buffer.removeLast.result } = s.after .pop
  rw [result_removeLast]
  rfl

theorem after_solve (s : Session) :
    s.after .solve = { s with
      lastTable := (Table.build s.buffer.tokens s.maxDepth).result.toOption.or s.lastTable } :=
  rfl

theorem after_solve_of_error {s : Session} {err : BuildError}
    (h : (Table.build s.buffer.tokens s.maxDepth).result = .error err) : s.after .solve = s := by
  rw [after_solve, h]
  rfl

theorem after_solve_of_empty {s : Session} (hs : s.buffer.tokens = []) : s.after .solve = s := by
  have hbuild : (Table.build s.buffer.tokens s.maxDepth).result = .error .emptyFormula := by
    rw [hs]
    rfl
  exact after_solve_of_error hbuild

theorem result_solve (s : Session) :
    (s.step .solve).result = (s.answer .solve, s.after .solve) := by
  by_cases hs : s.buffer.tokens = []
  · rw [after_solve_of_empty hs, answer, if_pos hs]
    simp only [step, solve, Buffer.isEmpty, hs, List.isEmpty_nil, if_true, Journal.result_bind,
      Journal.result_pure]
    rfl
  · have hempty : s.buffer.isEmpty = false := List.isEmpty_eq_false_iff.2 hs
    simp only [step, solve, hempty, Bool.false_eq_true, if_false, Journal.result_bind]
    rw [answer, if_neg hs]
    cases hbuild : (Table.build s.buffer.tokens s.maxDepth).result with
    | ok T =>
      rw [after_solve, hbuild]
      rfl
    | error err =>
      rw [after_solve_of_error hbuild]
      cases err <;> rfl

theorem result_perform (s : Session) (i : Intent) :
    (s.perform i).result = (s.answer i.request, s.after i.request) := by
  cases i with
  | addSymbol symbol =>
    have hrequest : (Datum.text symbol.spelling).request = .push symbol.spelling := by
      cases symbol with
      | connective c => cases c <;> rfl
      | _ => rfl
    rw [Intent.request, ← hrequest]
    exact s.result_add (.text symbol.spelling)
  | addLetter letter =>
    have hrequest : (Datum.text letter.token).request = .push letter.token := by
      cases letter <;> rfl
    rw [Intent.request, ← hrequest]
    exact s.result_add (.text letter.token)
  | solve => exact s.result_solve
  | clear => rfl
  | deleteLast => exact congrArg (Prod.mk _) s.result_deleteLast

/-- What a step answers and what it leaves behind depends on its request alone. -/
theorem result_step (s : Session) (x : Step) :
    (s.step x).result = (s.answer x.request, s.after x.request) := by
  cases x with
  | add x => exact s.result_add x
  | deleteLast => exact congrArg (Prod.mk _) s.result_deleteLast
  | deleteAll => rfl
  | solve => exact s.result_solve
  | dispatch name =>
    simp only [step, dispatch, Step.request]
    cases Intent.ofName? name with
    | none => rfl
    | some i => exact s.result_perform i
  | append x => exact s.result_append x
  | removeLast => exact congrArg (Prod.mk _) s.result_deleteLast
  | clearBuffer => rfl

-- A request fails where it adds no token, or asks for the table of a formula that has none.
theorem answer_eq_error {s : Session} {r : Request} {err : SessionError}
    (h : s.answer r = .error err) :
    (∃ x, r = .reject x) ∨ (r = .solve ∧ s.buffer.tokens ≠ [] ∧ ∃ cause,
      (Table.build s.buffer.tokens s.maxDepth).result = .error cause ∧ err = .unsolved cause) := by
  cases r with
  | reject x => exact .inl ⟨x, rfl⟩
  | solve =>
    rw [answer] at h
    by_cases hs : s.buffer.tokens = []
    · rw [if_pos hs] at h
      cases h
    · rw [if_neg hs] at h
      cases hbuild : (Table.build s.buffer.tokens s.maxDepth).result with
      | ok T =>
        rw [hbuild] at h
        cases h
      | error cause =>
        rw [hbuild] at h
        exact .inr ⟨rfl, hs, cause, rfl, (Except.error.inj h).symm⟩
  | _ => cases h

/-- A step that fails leaves the session as it is. -/
theorem step_of_error {s : Session} {x : Step} {err : SessionError}
    (h : (s.step x).result.1 = .error err) : (s.step x).result.2 = s := by
  rw [result_step] at h ⊢
  show s.after x.request = s
  cases answer_eq_error h with
  | inl hreject =>
    obtain ⟨y, hy⟩ := hreject
    rw [hy]
    rfl
  | inr hsolve =>
    obtain ⟨hx, -, cause, hbuild, -⟩ := hsolve
    rw [hx]
    exact after_solve_of_error hbuild

/-! ## What a run does -/

theorem run_concat (s : Session) (steps : List Step) (x : Step) :
    s.run (steps ++ [x]) = (s.run steps).after x.request := by
  rw [run, List.foldl_append]
  exact congrArg Prod.snd (result_step _ x)

theorem maxDepth_run (s : Session) (steps : List Step) : (s.run steps).maxDepth = s.maxDepth := by
  induction steps using List.reverseRecOn with
  | nil => rfl
  | append_singleton steps x ih =>
    rw [run_concat]
    exact ih

end Session

/-! ## The tokens -/

/-- The tokens that steps come to. -/
def tokensAfter (ts : List String) (steps : List Step) : List String :=
  steps.foldl (fun ts x => x.request.tokens ts) ts

theorem tokensAfter_concat (ts : List String) (steps : List Step) (x : Step) :
    tokensAfter ts (steps ++ [x]) = x.request.tokens (tokensAfter ts steps) := by
  rw [tokensAfter, List.foldl_append]
  rfl

theorem Session.tokens_run (s : Session) (steps : List Step) :
    (s.run steps).buffer.tokens = tokensAfter s.buffer.tokens steps := by
  induction steps using List.reverseRecOn with
  | nil => rfl
  | append_singleton steps x ih =>
    rw [run_concat, tokensAfter_concat, ← ih]
    rfl

theorem Intent.request_push {i : Intent} {t : String} (h : i.request = .push t) : t ≠ "" := by
  cases i with
  | addSymbol symbol =>
    cases h
    cases symbol with
    | connective c => cases c <;> decide
    | _ => decide
  | addLetter letter =>
    cases h
    cases letter <;> decide
  | _ => cases h

theorem Step.request_push {x : Step} {t : String} (h : x.request = .push t) : t ≠ "" := by
  cases x with
  | add x => exact Datum.request_push h
  | append x => exact Datum.request_push h
  | dispatch name =>
    simp only [request] at h
    cases hi : Intent.ofName? name with
    | none =>
      rw [hi] at h
      cases h
    | some i =>
      rw [hi] at h
      exact Intent.request_push h
  | _ => cases h

theorem not_mem_tokensAfter {ts : List String} (hts : "" ∉ ts) (steps : List Step) :
    "" ∉ tokensAfter ts steps := by
  induction steps using List.reverseRecOn with
  | nil => exact hts
  | append_singleton steps x ih =>
    rw [tokensAfter_concat]
    cases hx : x.request with
    | push t =>
      have ht := Step.request_push hx
      simp only [Request.tokens, List.mem_append, List.mem_singleton, not_or]
      exact ⟨ih, ht.symm⟩
    | pop => exact fun h => ih (List.dropLast_subset _ h)
    | clear => exact List.not_mem_nil
    | reset => exact List.not_mem_nil
    | _ => exact ih

/-! ## The table -/

section

variable {ts : List String} {limit : Int} {steps : List Step} {i : Nat} {T : Table}

/-- The step at index `i` asks for a solution of the formula that the tokens then are, and `T` is its
table. -/
structure SolvedAt (ts : List String) (limit : Int) (steps : List Step) (i : Nat) (T : Table) :
    Prop where
  request : steps[i]?.map Step.request = some .solve
  nonempty : tokensAfter ts (steps.take i) ≠ []
  table : (Table.build (tokensAfter ts (steps.take i)) limit).result = .ok T

def ResetAt (steps : List Step) (i : Nat) : Prop :=
  steps[i]?.map Step.request = some .reset

/-- The step at index `i` gives the session another table, or takes its table away. -/
def SetAt (ts : List String) (limit : Int) (steps : List Step) (i : Nat) : Prop :=
  ResetAt steps i ∨ ∃ T, SolvedAt ts limit steps i T

/-- `T` is the table of the latest step that had one, and the session was not reset since then. -/
def IsLatestTable (ts : List String) (limit : Int) (steps : List Step) (T : Table) : Prop :=
  ∃ i, SolvedAt ts limit steps i T ∧ ∀ j, i < j → ¬ SetAt ts limit steps j

theorem lt_length_of_request {r : Request} (h : steps[i]?.map Step.request = some r) :
    i < steps.length := by
  by_contra hi
  rw [List.getElem?_eq_none (Nat.le_of_not_lt hi)] at h
  cases h

theorem SetAt.lt_length (h : SetAt ts limit steps i) : i < steps.length := by
  cases h with
  | inl hreset => exact lt_length_of_request hreset
  | inr hsolved =>
    obtain ⟨T, hT⟩ := hsolved
    exact lt_length_of_request hT.request

-- A step at the end does not change what the steps before it do.
theorem solvedAt_concat (x : Step) (hi : i < steps.length) :
    SolvedAt ts limit (steps ++ [x]) i T ↔ SolvedAt ts limit steps i T := by
  have hget : (steps ++ [x])[i]? = steps[i]? := List.getElem?_append_left hi
  have htake : (steps ++ [x]).take i = steps.take i :=
    List.take_append_of_le_length (Nat.le_of_lt hi)
  constructor
  · intro h
    exact ⟨hget ▸ h.request, htake ▸ h.nonempty, htake ▸ h.table⟩
  · intro h
    exact ⟨hget ▸ h.request, htake ▸ h.nonempty, htake ▸ h.table⟩

theorem setAt_concat (x : Step) (hi : i < steps.length) :
    SetAt ts limit (steps ++ [x]) i ↔ SetAt ts limit steps i := by
  have hget : (steps ++ [x])[i]? = steps[i]? := List.getElem?_append_left hi
  simp only [SetAt, ResetAt, hget, solvedAt_concat x hi]

theorem solvedAt_last (x : Step) :
    SolvedAt ts limit (steps ++ [x]) steps.length T ↔
      x.request = .solve ∧ (Table.build (tokensAfter ts steps) limit).result = .ok T := by
  have hget : (steps ++ [x])[steps.length]? = some x := List.getElem?_concat_length
  have htake : (steps ++ [x]).take steps.length = steps := List.take_left
  constructor
  · intro h
    have hrequest := h.request
    have htable := h.table
    rw [hget] at hrequest
    rw [htake] at htable
    exact ⟨Option.some.inj hrequest, htable⟩
  · intro h
    constructor
    case request => rw [hget, Option.map_some, h.1]
    case nonempty =>
      rw [htake]
      intro hnil
      have htable := h.2
      rw [hnil] at htable
      cases htable
    case table =>
      rw [htake]
      exact h.2

theorem setAt_last (x : Step) :
    SetAt ts limit (steps ++ [x]) steps.length ↔ x.request = .reset ∨
      ∃ T, x.request = .solve ∧ (Table.build (tokensAfter ts steps) limit).result = .ok T := by
  have hget : (steps ++ [x])[steps.length]? = some x := List.getElem?_concat_length
  simp only [SetAt, ResetAt, hget, Option.map_some, Option.some_inj, solvedAt_last]

-- The latest table is that of the last step, or the one before it if the last step leaves it.
theorem isLatestTable_concat (x : Step) :
    IsLatestTable ts limit (steps ++ [x]) T ↔ SolvedAt ts limit (steps ++ [x]) steps.length T ∨
      IsLatestTable ts limit steps T ∧ ¬ SetAt ts limit (steps ++ [x]) steps.length := by
  have hlength : (steps ++ [x]).length = steps.length + 1 := List.length_append
  constructor
  · intro h
    obtain ⟨i, hsolved, hlater⟩ := h
    have hi := lt_length_of_request hsolved.request
    by_cases hlast : i = steps.length
    · rw [hlast] at hsolved
      exact .inl hsolved
    · have hbefore : i < steps.length := by omega
      refine .inr ⟨⟨i, (solvedAt_concat x hbefore).1 hsolved, ?_⟩, hlater _ hbefore⟩
      intro j hj hset
      exact hlater j hj ((setAt_concat x hset.lt_length).2 hset)
  · intro h
    cases h with
    | inl hsolved =>
      refine ⟨steps.length, hsolved, ?_⟩
      intro j hj hset
      have := hset.lt_length
      omega
    | inr hbefore =>
      obtain ⟨⟨i, hsolved, hlater⟩, hlast⟩ := hbefore
      have hi := lt_length_of_request hsolved.request
      refine ⟨i, (solvedAt_concat x hi).2 hsolved, ?_⟩
      intro j hj hset
      by_cases hend : j = steps.length
      · rw [hend] at hset
        exact hlast hset
      · have hj' : j < steps.length := by
          have := hset.lt_length
          omega
        exact hlater j hj ((setAt_concat x hj').1 hset)

namespace Session

-- The table behind a step is its own, or the one before it if the step leaves it.
theorem tableAfter_eq_some_iff {s : Session} {r : Request} :
    s.tableAfter r = some T ↔
      (r = .solve ∧ (Table.build s.buffer.tokens s.maxDepth).result = .ok T) ∨
      s.lastTable = some T ∧ ¬ (r = .reset ∨
        ∃ T', r = .solve ∧ (Table.build s.buffer.tokens s.maxDepth).result = .ok T') := by
  cases r with
  | solve =>
    unfold tableAfter
    cases (Table.build s.buffer.tokens s.maxDepth).result with
    | ok T' => simp [Except.toOption]
    | error err => simp [Except.toOption]
  | _ => simp [tableAfter]

theorem lastTable_run (b : Buffer) (limit : Int) (steps : List Step) :
    ((ofBuffer b limit).run steps).lastTable = some T ↔ IsLatestTable b.tokens limit steps T := by
  induction steps using List.reverseRecOn with
  | nil =>
    constructor
    · intro h
      cases h
    · intro h
      obtain ⟨i, hsolved, -⟩ := h
      cases hsolved.request
  | append_singleton steps x ih =>
    rw [run_concat, isLatestTable_concat, solvedAt_last, setAt_last, ← ih]
    have htokens := (ofBuffer b limit).tokens_run steps
    have hdepth := (ofBuffer b limit).maxDepth_run steps
    change (((ofBuffer b limit).run steps).tableAfter x.request = some T) ↔ _
    rw [tableAfter_eq_some_iff, htokens, hdepth]
    rfl

end Session

end

theorem Table.tokens_of_build {ts : List String} {limit : Int} {T : Table}
    (h : (Table.build ts limit).result = .ok T) : T.tokens = ts := by
  obtain ⟨t, hd, -, -, rfl⟩ := Table.build_eq_ok_iff.1 h
  exact (derives_iff.1 hd).1

namespace Session

/-- Whatever fails in the session, or has nothing to do, leaves it as it is. -/
structure FailsCleanly (s : Session) : Prop where
  kept : ∀ x err, (s.step x).result.1 = .error err → (s.step x).result.2 = s
  rejected : ∀ x y, x.request = .reject y → (s.step x).result = (.error (.rejected ⟨y⟩), s)
  unsolved : ∀ x err, x.request = .solve → s.buffer.tokens ≠ [] →
    (Table.build s.buffer.tokens s.maxDepth).result = .error err →
    (s.step x).result = (.error (.unsolved err), s)
  empty : ∀ x, x.request = .solve → s.buffer.tokens = [] → (s.step x).result = (.ok none, s)
  unknown : ∀ name, Intent.ofName? name = none → (s.step (.dispatch name)).result = (.ok none, s)

theorem failsCleanly (s : Session) : s.FailsCleanly := by
  constructor
  case kept => exact fun x err h => step_of_error h
  case rejected =>
    intro x y hx
    rw [result_step, hx]
    rfl
  case unsolved =>
    intro x err hx hs hbuild
    rw [result_step, hx, after_solve_of_error hbuild, answer, if_neg hs, hbuild]
    rfl
  case empty =>
    intro x hx hs
    rw [result_step, hx, after_solve_of_empty hs, answer, if_pos hs]
  case unknown =>
    intro name hname
    have hx : (Step.dispatch name).request = .nothing := by
      simp only [Step.request, hname]
    rw [result_step, hx]
    rfl

/-- After any steps the buffer of a session holds no empty text, and holds what the steps have pushed
and neither popped nor cleared. Its table is that of the latest solution since the latest reset, and
still the one of the tokens it was made from. -/
theorem run_history {ts : List String} (hts : "" ∉ ts) (limit : Int) (steps : List Step) :
    let s := (ofBuffer ⟨ts⟩ limit).run steps
    "" ∉ s.buffer.tokens ∧ s.buffer.tokens = tokensAfter ts steps ∧
    (∀ T, s.lastTable = some T ↔ IsLatestTable ts limit steps T) ∧
    (∀ T, s.lastTable = some T → (Table.build T.tokens limit).result = .ok T) ∧
    s.FailsCleanly := by
  intro s
  have htokens : s.buffer.tokens = tokensAfter ts steps := tokens_run _ steps
  have htable : ∀ T, s.lastTable = some T ↔ IsLatestTable ts limit steps T :=
    fun T => lastTable_run ⟨ts⟩ limit steps
  refine ⟨?_, htokens, htable, ?_, s.failsCleanly⟩
  · rw [htokens]
    exact not_mem_tokensAfter hts steps
  · intro T hT
    obtain ⟨i, hsolved, -⟩ := (htable T).1 hT
    rw [Table.tokens_of_build hsolved.table]
    exact hsolved.table

-- The buffer is cleared behind the solution, and the table is still there.
theorem run_history_of_cleared_buffer :
    let steps : List Step := [.dispatch "Add_And", .solve, .add (.int 3), .append (.text "Q"),
      .dispatch "solveformula", .clearBuffer, .solve]
    let s := (ofBuffer ⟨["P"]⟩ 3).run steps
    "" ∉ ["P"] ∧ s.buffer.tokens = [] ∧ ∃ T, s.lastTable = some T ∧
      T.tokens = ["P", "&&", "Q"] ∧ (Table.build T.tokens 3).result = .ok T := by
  intro steps s
  let tree : Tree := .binary .and (.name "P") (.name "Q")
  have hbuild : (Table.build ["P", "&&", "Q"] 3).result = .ok tree.table :=
    Table.build_eq_ok_iff.2 ⟨tree, derives_iff.2 ⟨rfl, by decide⟩, by decide, by decide, rfl⟩
  have hlatest : IsLatestTable ["P"] 3 steps tree.table := by
    have hnames : Intent.ofName? "solveformula" = some .solve := by decide +kernel
    refine ⟨4, ⟨?_, ?_, ?_⟩, ?_⟩
    · show some (Step.request (.dispatch "solveformula")) = some .solve
      simp only [Step.request, hnames]
      rfl
    · decide
    · exact hbuild
    · intro j hj hset
      have hlt : j < 7 := hset.lt_length
      obtain rfl | rfl : j = 5 ∨ j = 6 := by omega
      · obtain hreset | ⟨T, hsolved⟩ := hset
        · cases hreset
        · cases hsolved.request
      · obtain hreset | ⟨T, hsolved⟩ := hset
        · cases hreset
        · exact hsolved.nonempty (by decide)
  have hts : "" ∉ ["P"] := by decide
  obtain ⟨-, htokens, htable, hbuilt, -⟩ := run_history hts 3 steps
  have hT := (htable _).2 hlatest
  exact ⟨hts, htokens.trans (by decide), _, hT, rfl, hbuilt _ hT⟩

end Session

end PropTable
