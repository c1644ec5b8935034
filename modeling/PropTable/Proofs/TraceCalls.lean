import PropTable.Evaluation.Basic
import PropTable.Proofs.Trace

/-!
# Calls to a trace

A trace is filled by records, and it may be frozen into an evaluation at any time. Each call is
answered from the records before it alone: the first record of a label is told from the later ones,
and a frozen trace holds every label at the place of its first record with the value of its last.
Freezing leaves no mark, and no later record moves a label (`Valuation.callAll_due`).
-/

namespace PropTable

/-- The evaluation holds the records `pairs`: each label once, in the order of the first records and
with the value of the last. Looked up in the trace from its front, or in the dictionary that is made
of it, a label has the same value, or none if it was never recorded. -/
structure Evaluation.Freezes (e : Evaluation) (pairs : List (String × Bool)) : Prop where
  labels : e.labels = (pairs.map Prod.fst).eraseDups
  heads : e.trace.map Prod.fst = e.labels
  values : ∀ p ∈ e.trace, pairs.reverse.lookup p.1 = some p.2
  dictionary : e.valuation.entries = e.trace
  value? : ∀ label, e.value? label = e.valuation.value? label
  absent : ∀ label, e.value? label = none ↔ label ∉ pairs.map Prod.fst

namespace Valuation

def freeze (v : Valuation) (result : Bool) : Evaluation := ⟨result, v.entries⟩

/-- What a trace is called for. -/
inductive Call where
  | record (label : String) (value : Bool)
  | freeze (result : Bool)

inductive Reply where
  /-- Whether the label was new. -/
  | recorded (first : Bool)
  | frozen (e : Evaluation)

def call (v : Valuation) : Call → Reply × Valuation
  | .record label value => (.recorded (!v.contains label), v.record label value)
  | .freeze result => (.frozen (v.freeze result), v)

/-- Answers calls in turn. -/
def callAll (v : Valuation) : List Call → List Reply × Valuation
  | [] => ([], v)
  | c :: cs =>
    let (reply, w) := v.call c
    let (replies, u) := w.callAll cs
    (reply :: replies, u)

def Call.record? : Call → Option (String × Bool)
  | .record label value => some (label, value)
  | .freeze _ => none

/-- The pairs that calls record, in their order. -/
def recorded (calls : List Call) : List (String × Bool) :=
  calls.filterMap Call.record?

/-- The reply to a call behind the records `pairs`. -/
inductive Due (pairs : List (String × Bool)) : Call → Reply → Prop where
  | recorded {label value} :
      Due pairs (.record label value) (.recorded (decide (label ∉ pairs.map Prod.fst)))
  | frozen {e : Evaluation} : e.Freezes pairs → Due pairs (.freeze e.result) (.frozen e)

/-! ## One call -/

theorem contains_ofList (pairs : List (String × Bool)) (label : String) :
    (ofList pairs).contains label = decide (label ∈ pairs.map Prod.fst) := by
  rw [contains, labels_ofList, List.contains_eq_mem]
  exact decide_eq_decide.2 List.mem_eraseDups

-- A trace without repetition is recorded as it stands.
theorem ofList_entries {entries : List (String × Bool)} (h : (entries.map Prod.fst).Nodup) :
    (ofList entries).entries = entries := by
  induction entries using List.reverseRecOn with
  | nil => rfl
  | append_singleton entries p ih =>
    rw [List.map_append, List.map_singleton, List.nodup_append] at h
    have hp : p.1 ∉ entries.map Prod.fst :=
      fun hmem => h.2.2 p.1 hmem p.1 (List.mem_singleton_self p.1) rfl
    rw [entries_ofList_concat hp, ih h.1]

theorem freezes_ofList (pairs : List (String × Bool)) (result : Bool) :
    ((ofList pairs).freeze result).Freezes pairs := by
  have hdictionary : ofList (ofList pairs).entries = ofList pairs :=
    congrArg mk (ofList_entries (nodup_labels_ofList pairs))
  constructor
  case labels => exact labels_ofList pairs
  case heads => rfl
  case values =>
    intro p hp
    rw [← value?_ofList]
    exact value?_of_mem (nodup_labels_ofList pairs) hp
  case dictionary => exact congrArg entries hdictionary
  case value? => exact fun label => (congrArg (value? · label) hdictionary).symm
  case absent =>
    intro label
    change (ofList pairs).value? label = none ↔ _
    rw [value?_ofList, List.lookup_eq_none_iff, List.mem_map, not_exists]
    constructor
    · rintro h p ⟨hp, rfl⟩
      exact bne_iff_ne.1 (h p (List.mem_reverse.2 hp)) rfl
    · intro h p hp
      exact bne_iff_ne.2 fun heq => h p ⟨List.mem_reverse.1 hp, heq.symm⟩

/-- A trace that holds the records `pairs` answers as is due behind them, and what a call records
comes behind them. -/
theorem call_ofList (pairs : List (String × Bool)) (c : Call) :
    Due pairs c ((ofList pairs).call c).1 ∧
      ((ofList pairs).call c).2 = ofList (pairs ++ c.record?.toList) := by
  cases c with
  | record label value =>
    constructor
    · rw [call, contains_ofList, ← decide_not]
      exact .recorded
    · exact (ofList_concat pairs (label, value)).symm
  | freeze result =>
    constructor
    · exact .frozen (freezes_ofList pairs result)
    · exact congrArg ofList (List.append_nil pairs).symm

/-! ## All calls -/

theorem callAll_append (v : Valuation) (cs ds : List Call) :
    v.callAll (cs ++ ds) =
      ((v.callAll cs).1 ++ ((v.callAll cs).2.callAll ds).1, ((v.callAll cs).2.callAll ds).2) := by
  induction cs generalizing v with
  | nil => rfl
  | cons c cs ih => simp only [List.cons_append, callAll, ih]

theorem length_replies (v : Valuation) (cs : List Call) : (v.callAll cs).1.length = cs.length := by
  induction cs generalizing v with
  | nil => rfl
  | cons c cs ih => exact congrArg (· + 1) (ih (v.call c).2)

theorem recorded_concat (cs : List Call) (c : Call) :
    recorded (cs ++ [c]) = recorded cs ++ c.record?.toList := by
  rw [recorded, List.filterMap_append]
  cases c <;> rfl

/-- Of all calls, a trace keeps what was recorded. -/
theorem callAll_snd (calls : List Call) : (empty.callAll calls).2 = ofList (recorded calls) := by
  induction calls using List.reverseRecOn with
  | nil => rfl
  | append_singleton cs c ih =>
    rw [callAll_append, ih, recorded_concat]
    exact (call_ofList (recorded cs) c).2

theorem due_of_getElem? {calls : List Call} {k : Nat} {c : Call} (hc : calls[k]? = some c) :
    ∃ reply, (empty.callAll calls).1[k]? = some reply ∧ Due (recorded (calls.take k)) c reply := by
  obtain ⟨hk, rfl⟩ := List.getElem?_eq_some_iff.1 hc
  have hsplit : calls = calls.take k ++ (calls[k] :: calls.drop (k + 1)) := by
    rw [← List.drop_eq_getElem_cons hk, List.take_append_drop]
  have hlen : (empty.callAll (calls.take k)).1.length = k := by
    rw [length_replies, List.length_take, Nat.min_eq_left (Nat.le_of_lt hk)]
  refine ⟨_, ?_, (call_ofList (recorded (calls.take k)) calls[k]).1⟩
  conv_lhs => rw [hsplit, callAll_append, callAll_snd]
  rw [List.getElem?_append_right (Nat.le_of_eq hlen), hlen, Nat.sub_self]
  rfl

-- More records change no place among the labels that are there.
theorem labels_ofList_prefix (ps qs : List (String × Bool)) :
    (ofList ps).labels <+: (ofList (ps ++ qs)).labels := by
  rw [labels_ofList, labels_ofList, List.map_append, List.eraseDups_append]
  exact List.prefix_append _ _

theorem callAll_without_freeze (before after : List Call) (result : Bool) :
    (empty.callAll (before ++ after)).1 =
      (empty.callAll (before ++ .freeze result :: after)).1.eraseIdx before.length := by
  rw [callAll_append, callAll_append,
    List.eraseIdx_append_of_length_le (Nat.le_of_eq (length_replies empty before)),
    length_replies, Nat.sub_self]
  rfl

theorem freezes_of_reply {calls : List Call} {k : Nat} {e : Evaluation}
    (he : (empty.callAll calls).1[k]? = some (.frozen e)) :
    e.Freezes (recorded (calls.take k)) := by
  have hk : k < calls.length := by
    rw [← length_replies empty]
    exact (List.getElem?_eq_some_iff.1 he).1
  obtain ⟨reply, hreply, hdue⟩ := due_of_getElem? (List.getElem?_eq_getElem hk)
  obtain rfl := Option.some.inj (hreply.symm.trans he)
  generalize calls[k] = c at hdue
  cases hdue with
  | frozen h => exact h

/-- The labels of a frozen trace head the labels of each trace that is frozen later. -/
theorem labels_prefix_of_frozen {calls : List Call} {j k : Nat} {e f : Evaluation} (hjk : j ≤ k)
    (he : (empty.callAll calls).1[j]? = some (.frozen e))
    (hf : (empty.callAll calls).1[k]? = some (.frozen f)) : e.labels <+: f.labels := by
  have htake : calls.take k = calls.take j ++ (calls.take k).drop j := by
    conv_lhs => rw [← List.take_append_drop j (calls.take k), List.take_take, Nat.min_eq_left hjk]
  have hrecorded : recorded (calls.take k) =
      recorded (calls.take j) ++ recorded ((calls.take k).drop j) := by
    conv_lhs => rw [htake, recorded, List.filterMap_append]
    rfl
  rw [(freezes_of_reply he).labels, (freezes_of_reply hf).labels, ← labels_ofList,
    ← labels_ofList, hrecorded]
  exact labels_ofList_prefix _ _

/-- Every call is answered as is due behind the records before it. A trace that is frozen in between
answers all other calls as if it had not been, and a label that stands at a place of a frozen trace
stands there ever after. -/
theorem callAll_due (calls : List Call) :
    let replies := (empty.callAll calls).1
    replies.length = calls.length ∧
    (∀ k c, calls[k]? = some c →
      ∃ reply, replies[k]? = some reply ∧ Due (recorded (calls.take k)) c reply) ∧
    (∀ before result after, calls = before ++ .freeze result :: after →
      (empty.callAll (before ++ after)).1 = replies.eraseIdx before.length) ∧
    ∀ (j k : Nat) (e f : Evaluation), j ≤ k → replies[j]? = some (.frozen e) →
      replies[k]? = some (.frozen f) →
      ∀ (i : Nat) label, e.labels[i]? = some label → f.labels[i]? = some label := by
  intro replies
  refine ⟨length_replies empty calls, fun k c hc => due_of_getElem? hc, ?_, ?_⟩
  · rintro before result after rfl
    exact callAll_without_freeze before after result
  · intro j k e f hjk he hf i label hlabel
    obtain ⟨new, hnew⟩ := labels_prefix_of_frozen hjk he hf
    have hi : i < e.labels.length := (List.getElem?_eq_some_iff.1 hlabel).1
    rw [← hnew, List.getElem?_append_left hi, hlabel]

-- The second record of a label comes behind a frozen trace: it changes the value, not the place.
example : (empty.callAll [.record "¬A" true, .record "¬B" true, .freeze true, .record "¬A" false,
      .freeze false]).2.entries = [("¬A", false), ("¬B", true)] := by
  decide

end Valuation

end PropTable
