import PropTable.Log.Registry
import PropTable.Proofs.Trace

/-!
# Runs with channels

A program holds any number of handles, and those of one name share a channel. Whatever it does with
them, every channel that was ever opened has one sink, and channel and sink have the level that was
given to the name last (`World.Agrees.step`). So an entry is written once or not at all, and nothing
that is done under one name is seen under another (`World.one_sink`).
-/

namespace PropTable.Log

/-! ## The channels of a registry -/

namespace Registry

variable {r : Registry} {name other : String} {level threshold : Severity}

theorem canonical_canonical (name : String) : canonical (canonical name) = canonical name := by
  unfold canonical
  by_cases h : name = ""
  · rw [if_pos h]
    decide
  · rw [if_neg h, if_neg h]

theorem lookup_filter_ne {channels : List (String × Channel)} (h : other ≠ name) :
    (channels.filter fun p => p.1 != name).lookup other = channels.lookup other := by
  induction channels with
  | nil => rfl
  | cons p channels ih =>
    rw [Valuation.lookup_cons_eq]
    by_cases hp : p.1 = name
    · rw [List.filter_cons_of_neg (by simp [hp]), ih, if_neg (hp ▸ h)]
    · rw [List.filter_cons_of_pos (by simp [hp]), Valuation.lookup_cons_eq, ih]

theorem channel?_put (r : Registry) (name other : String) (c : Channel) :
    (r.put name c).channel? other =
      if canonical other = canonical name then some c else r.channel? other := by
  rw [channel?, channel?]
  change ((canonical name, c) :: r.channels.filter fun p => p.1 != canonical name).lookup
    (canonical other) = _
  rw [Valuation.lookup_cons_eq]
  by_cases h : canonical other = canonical name
  · rw [if_pos h, if_pos h]
  · rw [if_neg h, if_neg h, lookup_filter_ne h]

theorem channel?_openChannel (r : Registry) (name other : String) (threshold : Severity) :
    (r.openChannel name threshold).channel? other =
      if canonical other = canonical name then some (.fresh threshold) else r.channel? other :=
  r.channel?_put name other _

-- A channel with one sink is changed as if it were opened again.
theorem channel?_setThreshold (h : r.channel? name = some (.fresh level)) (other : String)
    (threshold : Severity) :
    (r.setThreshold name threshold).channel? other =
      if canonical other = canonical name then some (.fresh threshold) else r.channel? other := by
  rw [setThreshold, h]
  exact r.channel?_put name other _

theorem channel?_setSharedThreshold (r : Registry) (other : String) (threshold : Severity)
    (h : ∀ name, r.shared = some name → ∃ level, r.channel? name = some (.fresh level)) :
    (r.setSharedThreshold threshold).channel? other =
      if canonical other = canonical (r.shared.getD sharedName) then some (.fresh threshold)
      else r.channel? other := by
  unfold setSharedThreshold openShared
  cases hshared : r.shared with
  | some name =>
    obtain ⟨level, hlevel⟩ := h name hshared
    exact channel?_setThreshold hlevel other threshold
  | none =>
    have hopened : ({ r.openChannel sharedName .info with shared := some sharedName } :
        Registry).channel? sharedName = some (.fresh .info) :=
      (r.channel?_openChannel sharedName sharedName .info).trans (if_pos rfl)
    refine (channel?_setThreshold hopened other threshold).trans ?_
    rw [Option.getD_none]
    by_cases hother : canonical other = canonical sharedName
    · rw [if_pos hother, if_pos hother]
    · rw [if_neg hother, if_neg hother]
      exact (r.channel?_openChannel sharedName other .info).trans (if_neg hother)

theorem shared_setThreshold (r : Registry) (name : String) (threshold : Severity) :
    (r.setThreshold name threshold).shared = r.shared := by
  unfold setThreshold
  cases r.channel? name <;> rfl

theorem shared_setSharedThreshold (r : Registry) (threshold : Severity) :
    (r.setSharedThreshold threshold).shared = some (r.shared.getD sharedName) := by
  unfold setSharedThreshold openShared
  cases hshared : r.shared with
  | some name => exact (r.shared_setThreshold name threshold).trans hshared
  | none => exact shared_setThreshold _ sharedName threshold

end Registry

/-! ## What a channel with one sink writes -/

theorem Entry.line_eq (e : Entry) :
    e.line = (if e.severity = .debug then "[DEBUG] " else "") ++ e.message ++ "\n" := by
  obtain ⟨severity, message⟩ := e
  cases severity <;> rfl

theorem Channel.write_fresh (level : Severity) (e : Entry) :
    (Channel.fresh level).write e = if level.rank ≤ e.severity.rank then e.line else "" := by
  unfold write fresh
  by_cases h : level.rank ≤ e.severity.rank
  · have hpasses : e.severity.passes level = true := decide_eq_true h
    rw [if_pos hpasses, if_pos h, List.filter_cons_of_pos hpasses, List.filter_nil,
      List.map_singleton, String.join_cons, String.join_nil, String.append_empty]
  · have hpasses : ¬ e.severity.passes level = true := by
      rw [Severity.passes, decide_eq_true_iff]
      exact h
    rw [if_neg hpasses, if_neg h]

/-! ## Programs with handles -/

/-- What a program does with channels. The handles that it holds are numbered in the order in which
they were made, and any number of them may be of one name. -/
inductive Action where
  | create (name : String) (threshold : Severity)
  /-- Asks for the process-wide handle. It is made under this name if it is not there yet. -/
  | share (name : String)
  | setShared (threshold : Severity)
  | configure (verbose debug : Bool)
  | setThreshold (handle : Nat) (threshold : Severity)
  | send (handle : Nat) (e : Entry)

/-- The channels, and for each handle the name under which its channel is kept. -/
structure World where
  registry : Registry
  handles : List String

namespace World

def empty : World := ⟨.empty, []⟩

/-- The handles when the process-wide one is asked for under a name. -/
def handlesWithShared (w : World) (name : String) : List String :=
  match w.registry.shared with
  | some _ => w.handles
  | none => w.handles ++ [Registry.canonical name]

/-- Moves the level of the process-wide channel. -/
def setShared (w : World) (threshold : Severity) : World :=
  ⟨w.registry.setSharedThreshold threshold, w.handlesWithShared Registry.sharedName⟩

def step (w : World) : Action → World
  | .create name threshold =>
    ⟨w.registry.openChannel name threshold, w.handles ++ [Registry.canonical name]⟩
  | .share name => ⟨(w.registry.openShared name).1, w.handlesWithShared name⟩
  | .setShared threshold => w.setShared threshold
  | .configure verbose debug => w.setShared (thresholdFor verbose debug)
  | .setThreshold handle threshold =>
    match w.handles[handle]? with
    | some name => { w with registry := w.registry.setThreshold name threshold }
    | none => w
  | .send .. => w

theorem step_setThreshold {w : World} {handle : Nat} {name : String} {threshold : Severity}
    (h : w.handles[handle]? = some name) : w.step (.setThreshold handle threshold) =
      { w with registry := w.registry.setThreshold name threshold } := by
  simp only [step, h]

theorem step_setThreshold_none {w : World} {handle : Nat} {threshold : Severity}
    (h : w.handles[handle]? = none) : w.step (.setThreshold handle threshold) = w := by
  simp only [step, h]

def run (w : World) (actions : List Action) : World :=
  actions.foldl step w

/-- What an action writes. -/
def output (w : World) : Action → String
  | .send handle e =>
    match w.handles[handle]? with
    | some name => w.registry.write name e
    | none => ""
  | _ => ""

/-! ## Levels -/

/-- The name of the process-wide channel. -/
def sharedName (w : World) : String :=
  Registry.canonical (w.registry.shared.getD Registry.sharedName)

/-- The name that an action gives a level to, and the level: a handle is made at its level, and the
process-wide one at `info`. -/
def grant? (w : World) : Action → Option (String × Severity)
  | .create name threshold => some (Registry.canonical name, threshold)
  | .share name =>
    match w.registry.shared with
    | some _ => none
    | none => some (Registry.canonical name, .info)
  | .setShared threshold => some (w.sharedName, threshold)
  | .configure verbose debug => some (w.sharedName, thresholdFor verbose debug)
  | .setThreshold handle threshold => w.handles[handle]?.map fun name => (name, threshold)
  | .send .. => none

/-- The levels that actions give in turn, the latest last. -/
def grants (w : World) : List Action → List (String × Severity)
  | [] => []
  | a :: actions => (w.grant? a).toList ++ (w.step a).grants actions

/-- The level that a name was given last. -/
def levelOf (grants : List (String × Severity)) (name : String) : Option Severity :=
  grants.reverse.lookup name

theorem levelOf_concat (grants : List (String × Severity)) (p : String × Severity) (name : String) :
    levelOf (grants ++ [p]) name = if name = p.1 then some p.2 else levelOf grants name := by
  rw [levelOf, List.reverse_append, List.reverse_singleton, List.singleton_append,
    Valuation.lookup_cons_eq]
  rfl

/-! ## One step -/

/-- Every name that was given a level, and no other, has a channel with one sink, and channel and
sink have the level that the name was given last. The handles are of such names. -/
structure Agrees (w : World) (grants : List (String × Severity)) : Prop where
  channels : ∀ name, w.registry.channel? name =
    (levelOf grants (Registry.canonical name)).map Channel.fresh
  handles : ∀ name ∈ w.handles, Registry.canonical name = name ∧ ∃ level,
    levelOf grants name = some level
  shared : ∀ name, w.registry.shared = some name → Registry.canonical name ∈ w.handles

section

variable {w : World} {gs : List (String × Severity)}

theorem Agrees.channel (h : w.Agrees gs) {name : String}
    (hname : Registry.canonical name ∈ w.handles) :
    ∃ level, levelOf gs (Registry.canonical name) = some level ∧
      w.registry.channel? name = some (.fresh level) := by
  obtain ⟨-, level, hlevel⟩ := h.handles _ hname
  refine ⟨level, hlevel, ?_⟩
  rw [h.channels, hlevel, Option.map_some]

-- What gives a level to a name opens the channel of the name, or changes it as if it were opened.
theorem Agrees.give (h : w.Agrees gs) {r : Registry} {hs : List String} {name : String}
    {level : Severity} (hcanonical : Registry.canonical name = name)
    (hchannels : ∀ other, r.channel? other =
      if Registry.canonical other = name then some (.fresh level) else w.registry.channel? other)
    (hhandles : ∀ x ∈ hs, x = name ∨ x ∈ w.handles)
    (hshared : ∀ x, r.shared = some x → Registry.canonical x ∈ hs) :
    Agrees ⟨r, hs⟩ (gs ++ [(name, level)]) := by
  constructor
  case channels =>
    intro other
    rw [hchannels, levelOf_concat]
    by_cases hother : Registry.canonical other = name
    · rw [if_pos hother, if_pos hother, Option.map_some]
    · rw [if_neg hother, if_neg hother, h.channels]
  case handles =>
    intro x hx
    rw [levelOf_concat]
    by_cases hxn : x = name
    · rw [if_pos hxn, hxn]
      exact ⟨hcanonical, level, rfl⟩
    · rw [if_neg hxn]
      exact h.handles x ((hhandles x hx).resolve_left hxn)
  case shared => exact hshared

-- The process-wide channel has a handle once it was asked for, and only this handle is new.
theorem mem_handlesWithShared {name x : String} (hx : x ∈ w.handlesWithShared name) :
    x = Registry.canonical (w.registry.shared.getD name) ∨ x ∈ w.handles := by
  unfold handlesWithShared at hx
  cases hshared : w.registry.shared with
  | some shared =>
    rw [hshared] at hx
    exact .inr hx
  | none =>
    rw [hshared] at hx
    exact (List.mem_append.1 hx).symm.imp_left List.mem_singleton.1

theorem Agrees.shared_mem (h : w.Agrees gs) (name : String) :
    Registry.canonical (w.registry.shared.getD name) ∈ w.handlesWithShared name := by
  unfold handlesWithShared
  cases hshared : w.registry.shared with
  | some shared => exact h.shared shared hshared
  | none => exact List.mem_append_right _ (List.mem_singleton_self _)

theorem Agrees.setShared (h : w.Agrees gs) (threshold : Severity) :
    (w.setShared threshold).Agrees (gs ++ [(w.sharedName, threshold)]) := by
  apply h.give (Registry.canonical_canonical _)
  · intro other
    refine w.registry.channel?_setSharedThreshold other threshold fun name hname => ?_
    obtain ⟨level, -, hlevel⟩ := h.channel (h.shared name hname)
    exact ⟨level, hlevel⟩
  · exact fun x hx => mem_handlesWithShared hx
  · intro x hx
    rw [Registry.shared_setSharedThreshold] at hx
    rw [← Option.some.inj hx]
    exact h.shared_mem Registry.sharedName

theorem Agrees.share (h : w.Agrees gs) (name : String) :
    (w.step (.share name)).Agrees (gs ++ (w.grant? (.share name)).toList) := by
  unfold step grant? handlesWithShared Registry.openShared
  cases hshared : w.registry.shared with
  | some shared =>
    rw [Option.toList_none, List.append_nil]
    exact h
  | none =>
    apply h.give (Registry.canonical_canonical name)
    · exact fun other => w.registry.channel?_openChannel name other .info
    · exact fun x hx => (List.mem_append.1 hx).symm.imp_left List.mem_singleton.1
    · intro x hx
      rw [← Option.some.inj hx]
      exact List.mem_append_right _ (List.mem_singleton_self _)

theorem Agrees.setThreshold (h : w.Agrees gs) {name : String} (hname : name ∈ w.handles)
    (threshold : Severity) :
    Agrees { w with registry := w.registry.setThreshold name threshold }
      (gs ++ [(name, threshold)]) := by
  obtain ⟨hcanonical, -⟩ := h.handles name hname
  obtain ⟨level, -, hlevel⟩ := h.channel (hcanonical.symm ▸ hname)
  apply h.give hcanonical
  · intro other
    rw [Registry.channel?_setThreshold hlevel, hcanonical]
  · exact fun x hx => .inr hx
  · intro x hx
    rw [Registry.shared_setThreshold] at hx
    exact h.shared x hx

/-- Each step keeps the channels in agreement with the levels that were given. -/
theorem Agrees.step (h : w.Agrees gs) (a : Action) :
    (w.step a).Agrees (gs ++ (w.grant? a).toList) := by
  cases a with
  | create name threshold =>
    apply h.give (Registry.canonical_canonical name)
    · exact fun other => w.registry.channel?_openChannel name other threshold
    · exact fun x hx => (List.mem_append.1 hx).symm.imp_left List.mem_singleton.1
    · exact fun x hx => List.mem_append_left _ (h.shared x hx)
  | share name => exact h.share name
  | setShared threshold => exact h.setShared threshold
  | configure verbose debug => exact h.setShared (thresholdFor verbose debug)
  | setThreshold handle threshold =>
    cases hname : w.handles[handle]? with
    | some name =>
      rw [grant?, hname, step_setThreshold hname]
      exact h.setThreshold (List.mem_of_getElem? hname) threshold
    | none =>
      rw [grant?, hname, step_setThreshold_none hname, Option.map_none, Option.toList_none,
        List.append_nil]
      exact h
  | send handle e =>
    rw [grant?, Option.toList_none, List.append_nil]
    exact h

/-! ## All steps -/

theorem agrees_empty : empty.Agrees [] := by
  constructor
  case channels => exact fun name => rfl
  case handles => exact fun name hname => absurd hname List.not_mem_nil
  case shared => exact fun name hname => absurd hname (Option.some_ne_none name).symm

theorem Agrees.run (h : w.Agrees gs) (actions : List Action) :
    (w.run actions).Agrees (gs ++ w.grants actions) := by
  induction actions generalizing w gs with
  | nil =>
    rw [grants, List.append_nil]
    exact h
  | cons a actions ih =>
    rw [grants, ← List.append_assoc]
    exact ih (h.step a)

-- Handles are never taken away, and keep their numbers.
theorem handles_step (w : World) (a : Action) : w.handles <+: (w.step a).handles := by
  have hshared : ∀ name, w.handles <+: w.handlesWithShared name := by
    intro name
    unfold handlesWithShared
    cases w.registry.shared with
    | some shared => exact List.prefix_rfl
    | none => exact List.prefix_append _ _
  cases a with
  | create name threshold => exact List.prefix_append _ _
  | share name => exact hshared name
  | setShared threshold => exact hshared _
  | configure verbose debug => exact hshared _
  | setThreshold handle threshold =>
    have hkept : (w.step (.setThreshold handle threshold)).handles = w.handles := by
      cases hname : w.handles[handle]? with
      | some name => rw [step_setThreshold hname]
      | none => rw [step_setThreshold_none hname]
    exact hkept ▸ List.prefix_rfl
  | send handle e => exact List.prefix_rfl

theorem handles_run (w : World) (actions : List Action) :
    w.handles <+: (w.run actions).handles := by
  induction actions generalizing w with
  | nil => exact List.prefix_rfl
  | cons a actions ih => exact (w.handles_step a).trans (ih (w.step a))

theorem mem_handles_of_create {name : String} {level : Severity} {actions : List Action}
    (h : .create name level ∈ actions) : Registry.canonical name ∈ (w.run actions).handles := by
  induction actions generalizing w with
  | nil => cases h
  | cons a actions ih =>
    obtain rfl | h := List.mem_cons.1 h
    · have hmem : Registry.canonical name ∈ (w.step (.create name level)).handles :=
        List.mem_append_right _ (List.mem_singleton_self _)
      exact (handles_run _ actions).subset hmem
    · exact ih h

/-! ## What is written -/

theorem output_send {handle : Nat} {name : String} (h : w.handles[handle]? = some name)
    (e : Entry) : w.output (.send handle e) = w.registry.write name e := by
  simp only [output, h]

theorem Agrees.output (h : w.Agrees gs) {handle : Nat} {name : String}
    (hhandle : w.handles[handle]? = some name) :
    ∃ level, levelOf gs name = some level ∧ w.registry.channel? name = some ⟨level, [level]⟩ ∧
      ∀ e, w.output (.send handle e) = if level.rank ≤ e.severity.rank then
        (if e.severity = .debug then "[DEBUG] " else "") ++ e.message ++ "\n" else "" := by
  obtain ⟨hcanonical, -⟩ := h.handles name (List.mem_of_getElem? hhandle)
  have hname : Registry.canonical name ∈ w.handles := hcanonical.symm ▸ List.mem_of_getElem? hhandle
  obtain ⟨level, hlevel, hchannel⟩ := h.channel hname
  refine ⟨level, hcanonical ▸ hlevel, hchannel, fun e => ?_⟩
  rw [output_send hhandle, Registry.write, hchannel]
  exact (Channel.write_fresh level e).trans (by rw [Entry.line_eq])

-- An action under one name leaves the channels of the others as they are.
theorem Agrees.channel?_step (h : w.Agrees gs) {a : Action} {name : String}
    (ha : ∀ level, w.grant? a ≠ some (Registry.canonical name, level)) :
    (w.step a).registry.channel? name = w.registry.channel? name := by
  rw [(h.step a).channels, h.channels]
  cases hgrant : w.grant? a with
  | none => rw [Option.toList_none, List.append_nil]
  | some p =>
    have hne : Registry.canonical name ≠ p.1 := fun heq => ha p.2 (by rw [hgrant, heq])
    rw [Option.toList_some, levelOf_concat, if_neg hne]

theorem Agrees.output_step (h : w.Agrees gs) {a : Action} {handle : Nat} {name : String}
    (hhandle : w.handles[handle]? = some name) (ha : ∀ level, w.grant? a ≠ some (name, level))
    (e : Entry) : (w.step a).output (.send handle e) = w.output (.send handle e) := by
  obtain ⟨hcanonical, -⟩ := h.handles name (List.mem_of_getElem? hhandle)
  have hkept : (w.step a).handles[handle]? = some name := by
    obtain ⟨new, hnew⟩ := w.handles_step a
    rw [← hnew, List.getElem?_append_left (List.getElem?_eq_some_iff.1 hhandle).1, hhandle]
  have hchannel := h.channel?_step (hcanonical.symm ▸ ha)
  rw [output_send hhandle, output_send hkept, Registry.write, Registry.write, hchannel]

end

/-- Whatever was done before: every channel that was ever opened has one sink, and both have the
level that was given last to the name, through whichever handle. So an entry that is sent through a
handle is written once if its severity reaches this level, and otherwise not at all. What is done
under one name changes neither the channels nor the output of the others. -/
theorem one_sink (actions : List Action) :
    let w := empty.run actions
    let gs := empty.grants actions
    (∀ name level, .create name level ∈ actions → Registry.canonical name ∈ w.handles) ∧
    (∀ name, w.registry.shared = some name → Registry.canonical name ∈ w.handles) ∧
    (∀ (handle : Nat) name, w.handles[handle]? = some name → ∃ level,
      levelOf gs name = some level ∧ w.registry.channel? name = some ⟨level, [level]⟩ ∧
      ∀ e, w.output (.send handle e) = if level.rank ≤ e.severity.rank then
        (if e.severity = .debug then "[DEBUG] " else "") ++ e.message ++ "\n" else "") ∧
    (∀ a name, (∀ level, w.grant? a ≠ some (Registry.canonical name, level)) →
      (w.step a).registry.channel? name = w.registry.channel? name) ∧
    ∀ a (handle : Nat) name, w.handles[handle]? = some name →
      (∀ level, w.grant? a ≠ some (name, level)) →
      ∀ e, (w.step a).output (.send handle e) = w.output (.send handle e) := by
  intro w gs
  have h : w.Agrees gs := agrees_empty.run actions
  refine ⟨fun name level hcreate => mem_handles_of_create hcreate, h.shared, ?_, ?_, ?_⟩
  · exact fun handle name hhandle => h.output hhandle
  · exact fun a name ha => h.channel?_step ha
  · exact fun a handle name hhandle ha e => h.output_step hhandle ha e

-- The second handle lowers the level of the first one, and adds no second line.
example : (empty.run [.create "a" .info, .create "a" .debug]).output (.send 0 ⟨.debug, "x"⟩) =
    "[DEBUG] x\n" := by
  decide

end World

end PropTable.Log
