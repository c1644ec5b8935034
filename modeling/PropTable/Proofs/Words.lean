import PropTable.Text.Blank

/-!
# The words of a text

The words of a text are its maximal runs of characters that are not blank (`runs_iff`). They do not
depend on how the lines end, and words that are written out with blanks between them are the words
of the result (`runs_spread`).
-/

namespace PropTable.Text

/-- Whether a text can be a word: it has a character, and none that is blank. -/
def IsWord (t : String) : Prop :=
  t ≠ "" ∧ ∀ c ∈ t.toList, isBlank c = false

/-- The maximal runs of characters that are not blank, in order. -/
inductive Runs : List Char → List String → Prop where
  | nil : Runs [] []
  | blank {c text ws} : isBlank c = true → Runs text ws → Runs (c :: text) ws
  /-- A run ends before a blank or with the text. -/
  | word {t text ws} : IsWord t → (∀ c ∈ text.head?, isBlank c = true) → Runs text ws →
      Runs (t.toList ++ text) (t :: ws)

variable {text : List Char} {ws : List String}

/-! ## Reading words -/

theorem wordsFrom_blank {c : Char} (h : isBlank c = true) (current text : List Char) :
    wordsFrom current (c :: text) = wordsFrom current [] ++ words text := by
  rw [wordsFrom.eq_2, if_pos h, wordsFrom.eq_1]
  by_cases hcurrent : current.isEmpty = true
  · rw [if_pos hcurrent, if_pos hcurrent]
    rfl
  · rw [if_neg hcurrent, if_neg hcurrent]
    rfl

theorem words_blank {c : Char} (h : isBlank c = true) (text : List Char) :
    words (c :: text) = words text :=
  wordsFrom_blank h [] text

theorem wordsFrom_append {w : List Char} (h : ∀ c ∈ w, isBlank c = false)
    (current text : List Char) :
    wordsFrom current (w ++ text) = wordsFrom (w.reverse ++ current) text := by
  induction w generalizing current with
  | nil => rfl
  | cons c w ih =>
    have hc : ¬ isBlank c = true := Bool.eq_false_iff.1 (h c List.mem_cons_self)
    rw [List.cons_append, wordsFrom, if_neg hc, ih fun d hd => h d (List.mem_cons_of_mem c hd),
      List.reverse_cons, List.append_assoc]
    rfl

theorem words_append {t : String} (ht : IsWord t) (h : ∀ c ∈ text.head?, isBlank c = true) :
    words (t.toList ++ text) = t :: words text := by
  have hclose : wordsFrom t.toList.reverse [] = [t] := by
    have hne : ¬ t.toList.reverse.isEmpty = true := by
      rw [List.isEmpty_iff, List.reverse_eq_nil_iff, String.toList_eq_nil_iff]
      exact ht.1
    rw [wordsFrom, if_neg hne, List.reverse_reverse, String.ofList_toList]
  rw [words, wordsFrom_append ht.2, List.append_nil]
  cases text with
  | nil => exact hclose
  | cons c text =>
    have hc : isBlank c = true := h c rfl
    rw [wordsFrom_blank hc, hclose, words_blank hc, List.singleton_append]

/-! ## The words are the runs -/

theorem Runs.words (h : Runs text ws) : words text = ws := by
  induction h with
  | nil => rfl
  | blank hc _ ih => rw [words_blank hc, ih]
  | word ht hend _ ih => rw [words_append ht hend, ih]

theorem isWord_ofList {w : List Char} (hne : w ≠ []) (hw : ∀ c ∈ w, isBlank c = false) :
    IsWord (String.ofList w) := by
  have htoList : (String.ofList w).toList = w := String.toList_ofList
  refine ⟨?_, htoList.symm ▸ hw⟩
  intro he
  rw [he] at htoList
  exact hne htoList.symm

theorem Runs.append {w : List Char} (hne : w ≠ []) (hw : ∀ c ∈ w, isBlank c = false)
    (hend : ∀ c ∈ text.head?, isBlank c = true) (h : Runs text ws) :
    Runs (w ++ text) (String.ofList w :: ws) := by
  have hruns := Runs.word (isWord_ofList hne hw) hend h
  rw [String.toList_ofList] at hruns
  exact hruns

-- A character that is not blank lengthens the run behind it, or is a run of its own.
theorem Runs.exists_cons {c : Char} (hc : isBlank c = false) (h : Runs text ws) :
    ∃ ws', Runs (c :: text) ws' := by
  have hsingle : ∀ d ∈ [c], isBlank d = false := fun d hd => List.mem_singleton.1 hd ▸ hc
  cases h with
  | nil => exact ⟨_, .append (w := [c]) nofun hsingle nofun .nil⟩
  | blank hd hrest =>
    exact ⟨_, .append (w := [c]) nofun hsingle (fun _ he => Option.some.inj he ▸ hd)
      (.blank hd hrest)⟩
  | @word t text ws ht hend hrest =>
    have hlonger : ∀ d ∈ c :: t.toList, isBlank d = false := by
      intro d hd
      cases List.mem_cons.1 hd with
      | inl he =>
        rw [he]
        exact hc
      | inr hd => exact ht.2 d hd
    exact ⟨_, .append (w := c :: t.toList) nofun hlonger hend hrest⟩

theorem exists_runs (text : List Char) : ∃ ws, Runs text ws := by
  induction text with
  | nil => exact ⟨[], .nil⟩
  | cons c text ih =>
    obtain ⟨ws, h⟩ := ih
    cases hc : isBlank c with
    | true => exact ⟨ws, .blank hc h⟩
    | false => exact h.exists_cons hc

theorem runs_iff : Runs text ws ↔ ws = Text.words text := by
  constructor
  · intro h
    exact h.words.symm
  · intro h
    obtain ⟨ws', h'⟩ := exists_runs text
    rw [h, h'.words]
    exact h'

/-! ## The ends of lines -/

/-- The text with a line feed wherever a line ends. -/
def foldLineEnds : List Char → List Char
  | [] => []
  | '\r' :: '\n' :: cs => '\n' :: foldLineEnds cs
  | '\r' :: cs => '\n' :: foldLineEnds cs
  | c :: cs => c :: foldLineEnds cs

theorem wordsFrom_foldLineEnds (current text : List Char) :
    wordsFrom current (foldLineEnds text) = wordsFrom current text := by
  have hfeed : isBlank '\n' = true := by decide
  have hreturn : isBlank '\r' = true := by decide
  fun_induction foldLineEnds text generalizing current with
  | case1 => rfl
  | case2 cs ih =>
    rw [wordsFrom_blank hfeed, wordsFrom_blank hreturn, words_blank hfeed]
    exact congrArg _ (ih [])
  | case3 cs _ ih =>
    rw [wordsFrom_blank hfeed, wordsFrom_blank hreturn]
    exact congrArg _ (ih [])
  | case4 c cs _ _ ih =>
    rw [wordsFrom.eq_2, wordsFrom.eq_2, ih, ih]

theorem words_foldLineEnds (text : List Char) : words (foldLineEnds text) = words text :=
  wordsFrom_foldLineEnds [] text

/-! ## Words with blanks between them -/

/-- A text of words, each with the blanks behind it, and the blanks in front of them all. -/
def spread (front : List Char) (parts : List (String × List Char)) : List Char :=
  front ++ parts.flatMap fun p => p.1.toList ++ p.2

theorem Runs.blanks {bs : List Char} (hbs : ∀ c ∈ bs, isBlank c = true) (h : Runs text ws) :
    Runs (bs ++ text) ws := by
  induction bs with
  | nil => exact h
  | cons c bs ih =>
    exact .blank (hbs c List.mem_cons_self) (ih fun d hd => hbs d (List.mem_cons_of_mem c hd))

theorem isBlank_of_head {bs : List Char} (hbs : ∀ c ∈ bs, isBlank c = true)
    (h : bs = [] → text = []) : ∀ c ∈ (bs ++ text).head?, isBlank c = true := by
  cases bs with
  | nil =>
    rw [h rfl]
    exact nofun
  | cons b bs =>
    intro c hc
    rw [← Option.some.inj hc]
    exact hbs b List.mem_cons_self

/-- Words that are kept apart by blanks are the runs of their text. -/
theorem runs_spread {front : List Char} {parts : List (String × List Char)}
    (hfront : ∀ c ∈ front, isBlank c = true)
    (hparts : ∀ p ∈ parts, IsWord p.1 ∧ ∀ c ∈ p.2, isBlank c = true)
    (hapart : ∀ p ∈ parts.dropLast, p.2 ≠ []) :
    Runs (spread front parts) (parts.map Prod.fst) := by
  apply Runs.blanks hfront
  clear hfront
  induction parts with
  | nil => exact .nil
  | cons p parts ih =>
    obtain ⟨hword, hblanks⟩ := hparts p List.mem_cons_self
    have hrest : Runs (parts.flatMap fun p => p.1.toList ++ p.2) (parts.map Prod.fst) := by
      apply ih fun q hq => hparts q (List.mem_cons_of_mem p hq)
      intro q hq
      cases parts with
      | nil => cases hq
      | cons r parts => exact hapart q (List.mem_cons_of_mem p hq)
    have hend : p.2 = [] → (parts.flatMap fun p => p.1.toList ++ p.2) = [] := by
      intro hnil
      cases parts with
      | nil => rfl
      | cons r parts => exact absurd hnil (hapart p List.mem_cons_self)
    rw [List.flatMap_cons, List.append_assoc]
    exact .word hword (isBlank_of_head hblanks hend) (.blanks hblanks hrest)

end PropTable.Text
