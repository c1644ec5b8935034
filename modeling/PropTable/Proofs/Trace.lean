import Mathlib.Data.List.Induction
import PropTable.Evaluation.Valuation

/-!
# First place, last value

A valuation that records pairs one after the other holds each label once: at the place of its first
pair (`labels_ofList`) and with the value of its last one (`value?_ofList`).
-/

namespace PropTable.Valuation

theorem ofList_concat (pairs : List (String × Bool)) (p : String × Bool) :
    ofList (pairs ++ [p]) = (ofList pairs).record p.1 p.2 := by
  rw [ofList, List.foldl_append]
  rfl

/-! ## One record -/

theorem lookup_cons_eq {α : Type} (e : String × α) (entries : List (String × α)) (l : String) :
    (e :: entries).lookup l = if l = e.1 then some e.2 else entries.lookup l := by
  rw [List.lookup_cons]
  by_cases hl : l = e.1
  · rw [if_pos hl, beq_iff_eq.2 hl]
  · rw [if_neg hl, beq_eq_false_iff_ne.2 hl]

theorem lookup_map_update (entries : List (String × Bool)) (label l : String) (value : Bool) :
    (entries.map fun e => if e.1 = label then (label, value) else e).lookup l =
      if l = label then (entries.lookup l).map fun _ => value else entries.lookup l := by
  induction entries with
  | nil => simp
  | cons e entries ih =>
    rw [List.map_cons, lookup_cons_eq, lookup_cons_eq, ih]
    by_cases he : e.1 = label
    · rw [if_pos he]
      by_cases hl : l = label
      · simp [hl, he]
      · rw [if_neg hl, if_neg hl, if_neg hl, if_neg (he ▸ hl)]
    · rw [if_neg he]
      by_cases hl : l = label
      · have hle : l ≠ e.1 := fun h => he (h ▸ hl)
        rw [if_pos hl, if_pos hl, if_neg hle, if_neg hle]
      · rw [if_neg hl, if_neg hl]

theorem lookup_isSome_of_contains {v : Valuation} {label : String} (h : v.contains label = true) :
    (v.entries.lookup label).isSome := by
  rw [contains, labels, List.contains_iff_mem, List.mem_map] at h
  obtain ⟨e, he, rfl⟩ := h
  exact List.lookup_isSome_iff.2 ⟨e, he, beq_self_eq_true _⟩

-- A record sets the value of its label and of no other.
theorem value?_record (v : Valuation) (label l : String) (value : Bool) :
    (v.record label value).value? l = if l = label then some value else v.value? l := by
  unfold record value?
  split
  · rename_i hc
    obtain ⟨old, hold⟩ := Option.isSome_iff_exists.1 (lookup_isSome_of_contains hc)
    rw [lookup_map_update]
    split
    · rename_i hl
      rw [hl, hold]
      rfl
    · rfl
  · rename_i hc
    rw [List.lookup_append, lookup_cons_eq, List.lookup_nil]
    by_cases hl : l = label
    -- a new label has no earlier entry that would hide its own
    · have hnone : v.entries.lookup l = none := by
        rw [List.lookup_eq_none_iff]
        intro p hp
        rw [bne_iff_ne, hl]
        rintro rfl
        exact hc (List.contains_iff_mem.2 (List.mem_map_of_mem hp))
      rw [hnone, Option.none_or, if_pos hl]
    · rw [if_neg hl, if_neg hl, Option.or_none]

theorem nodup_labels_record {v : Valuation} (h : v.labels.Nodup) (label : String) (value : Bool) :
    (v.record label value).labels.Nodup := by
  rw [labels_record]
  split
  · exact h
  · rename_i hc
    rw [List.nodup_append]
    refine ⟨h, List.pairwise_singleton _ label, ?_⟩
    rintro a ha b hb rfl
    rw [List.mem_singleton.1 hb] at ha
    exact hc (List.contains_iff_mem.2 ha)

/-! ## A whole list -/

theorem labels_ofList (pairs : List (String × Bool)) :
    (ofList pairs).labels = (pairs.map Prod.fst).eraseDups := by
  induction pairs using List.reverseRecOn with
  | nil => rfl
  | append_singleton pairs p ih =>
    rw [ofList_concat, labels_record, contains, ih, List.map_append, List.eraseDups_append,
      List.map_singleton, List.cons_removeAll, List.nil_removeAll]
    -- the last label is new exactly when no earlier pair has it
    by_cases hp : p.1 ∈ pairs.map Prod.fst
    · rw [if_pos (List.contains_iff_mem.2 (List.mem_eraseDups.2 hp)),
        if_neg (by rw [List.contains_iff_mem.2 hp]; decide), List.eraseDups_nil,
        List.append_nil]
    · rw [if_neg fun h => hp (List.mem_eraseDups.1 (List.contains_iff_mem.1 h)),
        if_pos (Bool.eq_false_iff.2 fun h => hp (List.contains_iff_mem.1 h))]
      rfl

theorem value?_ofList (pairs : List (String × Bool)) (label : String) :
    (ofList pairs).value? label = pairs.reverse.lookup label := by
  induction pairs using List.reverseRecOn with
  | nil => rfl
  | append_singleton pairs p ih =>
    rw [ofList_concat, value?_record, ih, List.reverse_append, List.reverse_singleton,
      List.singleton_append, lookup_cons_eq]

theorem nodup_labels_ofList (pairs : List (String × Bool)) : (ofList pairs).labels.Nodup := by
  induction pairs using List.reverseRecOn with
  | nil => exact List.nodup_nil
  | append_singleton pairs p ih =>
    rw [ofList_concat]
    exact nodup_labels_record ih p.1 p.2

-- Each entry is what its label is looked up to.
theorem value?_of_mem {v : Valuation} (h : v.labels.Nodup) {e : String × Bool}
    (he : e ∈ v.entries) : v.value? e.1 = some e.2 := by
  obtain ⟨front, back, hv⟩ := List.append_of_mem he
  rw [labels, hv, List.map_append, List.nodup_append] at h
  rw [value?, List.lookup_eq_some_iff]
  refine ⟨front, back, hv, fun p hp => ?_⟩
  rw [bne_iff_ne]
  exact (h.2.2 p.1 (List.mem_map_of_mem hp) e.1 List.mem_cons_self).symm

theorem mem_of_value? {v : Valuation} {label : String} {value : Bool}
    (h : v.value? label = some value) : (label, value) ∈ v.entries := by
  obtain ⟨front, back, hv, -⟩ := List.lookup_eq_some_iff.1 h
  rw [hv]
  exact List.mem_append_right front List.mem_cons_self

-- Each entry was recorded as it stands.
theorem mem_of_mem_ofList {pairs : List (String × Bool)} {e : String × Bool}
    (he : e ∈ (ofList pairs).entries) : e ∈ pairs := by
  have hv := value?_of_mem (nodup_labels_ofList pairs) he
  rw [value?_ofList] at hv
  exact List.mem_reverse.1 (mem_of_value? (v := ⟨pairs.reverse⟩) hv)

-- Where all records of a label agree, it does not matter which of them is the last.
theorem value?_ofList_of_mem {pairs : List (String × Bool)} {label : String} {value : Bool}
    (hmem : (label, value) ∈ pairs) (hval : ∀ w, (label, w) ∈ pairs → w = value) :
    (ofList pairs).value? label = some value := by
  rw [value?_ofList]
  have hsome : (pairs.reverse.lookup label).isSome :=
    List.lookup_isSome_iff.2 ⟨_, List.mem_reverse.2 hmem, beq_self_eq_true label⟩
  obtain ⟨w, hw⟩ := Option.isSome_iff_exists.1 hsome
  have hlast := List.mem_reverse.1 (mem_of_value? (v := ⟨pairs.reverse⟩) hw)
  rw [hw, hval w hlast]

-- A pair whose label is new when it is recorded last is the last entry.
theorem entries_ofList_concat {pairs : List (String × Bool)} {p : String × Bool}
    (h : p.1 ∉ pairs.map Prod.fst) :
    (ofList (pairs ++ [p])).entries = (ofList pairs).entries ++ [p] := by
  have hnew : ¬ (ofList pairs).contains p.1 = true := by
    rw [contains, labels_ofList, List.contains_iff_mem, List.mem_eraseDups]
    exact h
  rw [ofList_concat, record, if_neg hnew]

/-! ## Labels that are replaced -/

-- Labels that are kept apart may be replaced before or after they are recorded.
theorem record_map {g : String → String} {v : Valuation} {label : String}
    (hg : ∀ l ∈ v.labels, g l = g label → l = label) (value : Bool) :
    (record ⟨v.entries.map (Prod.map g id)⟩ (g label) value).entries =
      (v.record label value).entries.map (Prod.map g id) := by
  have hlabels : (labels ⟨v.entries.map (Prod.map g id)⟩) = v.labels.map g := by
    simp only [labels, List.map_map]
    rfl
  have hcontains : contains ⟨v.entries.map (Prod.map g id)⟩ (g label) = v.contains label := by
    rw [contains, contains, hlabels, Bool.eq_iff_iff, List.contains_iff_mem, List.contains_iff_mem]
    constructor
    · intro h
      obtain ⟨l, hl, heq⟩ := List.mem_map.1 h
      exact hg l hl heq ▸ hl
    · exact List.mem_map_of_mem
  unfold record
  rw [hcontains]
  split
  · simp only [List.map_map]
    apply List.map_congr_left
    intro e he
    by_cases hl : e.1 = label
    · simp [hl]
    · have hne : g e.1 ≠ g label := fun h => hl (hg e.1 (List.mem_map_of_mem he) h)
      simp [hl, hne]
  · simp

theorem entries_ofList_map {g : String → String} {pairs : List (String × Bool)}
    (hg : ∀ p ∈ pairs, ∀ q ∈ pairs, g p.1 = g q.1 → p.1 = q.1) :
    (ofList (pairs.map (Prod.map g id))).entries = (ofList pairs).entries.map (Prod.map g id) := by
  induction pairs using List.reverseRecOn with
  | nil => rfl
  | append_singleton pairs p ih =>
    have hfront := ih fun q hq r hr => hg q (List.mem_append_left _ hq) r (List.mem_append_left _ hr)
    have hlabels : ∀ l ∈ (ofList pairs).labels, g l = g p.1 → l = p.1 := by
      intro l hl heq
      obtain ⟨e, he, rfl⟩ := List.mem_map.1 hl
      have hmem := List.mem_append_left [p] (mem_of_mem_ofList he)
      exact hg e hmem p (List.mem_append_right _ (List.mem_singleton_self p)) heq
    have hv : ofList (pairs.map (Prod.map g id)) = ⟨(ofList pairs).entries.map (Prod.map g id)⟩ :=
      congrArg Valuation.mk hfront
    rw [List.map_append, List.map_singleton, ofList_concat, ofList_concat, hv]
    exact record_map hlabels p.2

end PropTable.Valuation
