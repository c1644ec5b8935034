import PropTable.Text.Utf8

/-!
# UTF-8, read back

Bytes are decoded exactly if they are the encoding of a text, and then that text is what comes out
(`decode_eq_ok_iff`). The decoder reads one well-formed run of bytes after the other (`Form`); each
of them is the encoding of one character, and each character has one.
-/

namespace PropTable.Text.Utf8

/-- The bytes that encode a text. -/
def encode (text : List Char) : List UInt8 :=
  text.flatMap String.utf8EncodeChar

theorem encode_cons (c : Char) (text : List Char) :
    encode (c :: text) = String.utf8EncodeChar c ++ encode text := rfl

/-! ## Forms -/

/-- The bytes of one character, with its code point. -/
inductive Form : List UInt8 → Nat → Prop where
  | one {a : UInt8} : a.toNat < 0x80 → Form [a] a.toNat
  | two {a b : UInt8} : 0xc2 ≤ a.toNat → a.toNat < 0xe0 → isSecond a b = true →
      Form [a, b] (a.toNat % 0x20 * 0x40 + payload b)
  | three {a b c : UInt8} : 0xe0 ≤ a.toNat → a.toNat < 0xf0 → isSecond a b = true →
      isContinuation c = true →
      Form [a, b, c] ((a.toNat % 0x10 * 0x40 + payload b) * 0x40 + payload c)
  | four {a b c d : UInt8} : 0xf0 ≤ a.toNat → a.toNat ≤ 0xf4 → isSecond a b = true →
      isContinuation c = true → isContinuation d = true →
      Form [a, b, c, d]
        (((a.toNat % 0x08 * 0x40 + payload b) * 0x40 + payload c) * 0x40 + payload d)

theorem isContinuation_iff {b : UInt8} :
    isContinuation b = true ↔ 0x80 ≤ b.toNat ∧ b.toNat ≤ 0xbf := by
  rw [isContinuation, Bool.and_eq_true, decide_eq_true_eq, decide_eq_true_eq,
    UInt8.le_iff_toNat_le, UInt8.le_iff_toNat_le]
  rfl

-- Overlong forms, surrogates and what is above the last code point fail at the second byte.
theorem isSecond_iff {a b : UInt8} : isSecond a b = true ↔
    0x80 ≤ b.toNat ∧ b.toNat ≤ 0xbf ∧ (a.toNat = 0xe0 → 0xa0 ≤ b.toNat) ∧
    (a.toNat = 0xf0 → 0x90 ≤ b.toNat) ∧ (a.toNat = 0xed → b.toNat ≤ 0x9f) ∧
    (a.toNat = 0xf4 → b.toNat ≤ 0x8f) := by
  have hleast : (leastSecond a).toNat =
      if a.toNat = 0xe0 then 0xa0 else if a.toNat = 0xf0 then 0x90 else 0x80 := by
    simp only [leastSecond, ← UInt8.toNat_inj, apply_ite UInt8.toNat]
    rfl
  have hgreatest : (greatestSecond a).toNat =
      if a.toNat = 0xed then 0x9f else if a.toNat = 0xf4 then 0x8f else 0xbf := by
    simp only [greatestSecond, ← UInt8.toNat_inj, apply_ite UInt8.toNat]
    rfl
  rw [isSecond, Bool.and_eq_true, decide_eq_true_eq, decide_eq_true_eq, UInt8.le_iff_toNat_le,
    UInt8.le_iff_toNat_le, hleast, hgreatest]
  grind

/-- The bytes of a form are the encoding of its character. -/
theorem Form.encoding {bs : List UInt8} {n : Nat} (h : Form bs n) :
    n.isValidChar ∧ ∀ c : Char, c.toNat = n → String.utf8EncodeChar c = bs := by
  cases h with
  | @one a ha =>
    refine ⟨.inl (by omega), ?_⟩
    intro c hc
    have hv : c.val.toNat = a.toNat := hc
    simp only [String.utf8EncodeChar, hv]
    rw [if_pos (by omega), UInt8.ofNat_toNat]
  | @two a b ha ha' hb =>
    obtain ⟨hb, hb', -⟩ := isSecond_iff.1 hb
    unfold payload
    refine ⟨.inl (by omega), ?_⟩
    intro c hc
    have hv : c.val.toNat = a.toNat % 0x20 * 0x40 + b.toNat % 0x40 := hc
    have hfirst : c.val.toNat / 64 % 32 + 192 = a.toNat := by omega
    have hsecond : c.val.toNat % 64 + 128 = b.toNat := by omega
    simp only [String.utf8EncodeChar, hfirst, hsecond, UInt8.ofNat_toNat]
    rw [if_neg (by omega), if_pos (by omega)]
  | @three a b c ha ha' hb hc =>
    obtain ⟨hb, hb', he0, -, hed, -⟩ := isSecond_iff.1 hb
    obtain ⟨hc, hc'⟩ := isContinuation_iff.1 hc
    unfold payload
    refine ⟨?_, ?_⟩
    · unfold Nat.isValidChar
      omega
    · intro x hx
      have hv : x.val.toNat =
          (a.toNat % 0x10 * 0x40 + b.toNat % 0x40) * 0x40 + c.toNat % 0x40 := hx
      have hfirst : x.val.toNat / 4096 % 16 + 224 = a.toNat := by omega
      have hsecond : x.val.toNat / 64 % 64 + 128 = b.toNat := by omega
      have hthird : x.val.toNat % 64 + 128 = c.toNat := by omega
      simp only [String.utf8EncodeChar, hfirst, hsecond, hthird, UInt8.ofNat_toNat]
      rw [if_neg (by omega), if_neg (by omega), if_pos (by omega)]
  | @four a b c d ha ha' hb hc hd =>
    obtain ⟨hb, hb', -, hf0, -, hf4⟩ := isSecond_iff.1 hb
    obtain ⟨hc, hc'⟩ := isContinuation_iff.1 hc
    obtain ⟨hd, hd'⟩ := isContinuation_iff.1 hd
    unfold payload
    refine ⟨?_, ?_⟩
    · unfold Nat.isValidChar
      omega
    · intro x hx
      have hv : x.val.toNat =
          ((a.toNat % 0x08 * 0x40 + b.toNat % 0x40) * 0x40 + c.toNat % 0x40) * 0x40 +
            d.toNat % 0x40 := hx
      have hfirst : x.val.toNat / 262144 % 8 + 240 = a.toNat := by omega
      have hsecond : x.val.toNat / 4096 % 64 + 128 = b.toNat := by omega
      have hthird : x.val.toNat / 64 % 64 + 128 = c.toNat := by omega
      have hfourth : x.val.toNat % 64 + 128 = d.toNat := by omega
      simp only [String.utf8EncodeChar, hfirst, hsecond, hthird, hfourth, UInt8.ofNat_toNat]
      rw [if_neg (by omega), if_neg (by omega), if_neg (by omega)]

theorem exists_byte {n : Nat} (h : n < 256) : ∃ a : UInt8, UInt8.ofNat n = a ∧ a.toNat = n :=
  ⟨_, rfl, UInt8.toNat_ofNat_of_lt' h⟩

/-- The encoding of a character is a form of it. -/
theorem form_of_char (c : Char) : Form (String.utf8EncodeChar c) c.toNat := by
  have hvalid : c.toNat < 0xd800 ∨ (0xdfff < c.toNat ∧ c.toNat < 0x110000) := c.valid
  have hval : c.val.toNat = c.toNat := rfl
  simp only [String.utf8EncodeChar, hval]
  generalize c.toNat = n at hvalid
  by_cases hone : n ≤ 127
  · obtain ⟨a, ha, hn⟩ := exists_byte (n := n) (by omega)
    rw [if_pos hone, ha, ← hn]
    exact .one (by omega)
  · rw [if_neg hone]
    by_cases htwo : n ≤ 2047
    · obtain ⟨a, ha, hfirst⟩ := exists_byte (n := n / 64 % 32 + 192) (by omega)
      obtain ⟨b, hb, hsecond⟩ := exists_byte (n := n % 64 + 128) (by omega)
      have hn : n = a.toNat % 0x20 * 0x40 + payload b := by
        unfold payload
        omega
      rw [if_pos htwo, ha, hb, hn]
      exact .two (by omega) (by omega) (isSecond_iff.2 (by omega))
    · rw [if_neg htwo]
      by_cases hthree : n ≤ 65535
      · obtain ⟨a, ha, hfirst⟩ := exists_byte (n := n / 4096 % 16 + 224) (by omega)
        obtain ⟨b, hb, hsecond⟩ := exists_byte (n := n / 64 % 64 + 128) (by omega)
        obtain ⟨c, hc, hthird⟩ := exists_byte (n := n % 64 + 128) (by omega)
        have hn : n = (a.toNat % 0x10 * 0x40 + payload b) * 0x40 + payload c := by
          unfold payload
          omega
        rw [if_pos hthree, ha, hb, hc, hn]
        exact .three (by omega) (by omega) (isSecond_iff.2 (by omega))
          (isContinuation_iff.2 (by omega))
      · obtain ⟨a, ha, hfirst⟩ := exists_byte (n := n / 262144 % 8 + 240) (by omega)
        obtain ⟨b, hb, hsecond⟩ := exists_byte (n := n / 4096 % 64 + 128) (by omega)
        obtain ⟨c, hc, hthird⟩ := exists_byte (n := n / 64 % 64 + 128) (by omega)
        obtain ⟨d, hd, hfourth⟩ := exists_byte (n := n % 64 + 128) (by omega)
        have hn : n = ((a.toNat % 0x08 * 0x40 + payload b) * 0x40 + payload c) * 0x40 +
            payload d := by
          unfold payload
          omega
        rw [if_neg hthree, ha, hb, hc, hd, hn]
        exact .four (by omega) (by omega) (isSecond_iff.2 (by omega))
          (isContinuation_iff.2 (by omega)) (isContinuation_iff.2 (by omega))

/-! ## The decoder -/

variable {position : Nat} {before text : List Char} {bytes : List UInt8}

-- The tests that a first byte of two or more has to pass.
theorem first_iff {a : UInt8} :
    ¬ a < 0x80 ∧ ¬ (a < 0xc2 || 0xf4 < a) = true ↔ 0xc2 ≤ a.toNat ∧ a.toNat ≤ 0xf4 := by
  have h80 : a < 0x80 ↔ a.toNat < 0x80 := UInt8.lt_iff_toNat_lt
  have hc2 : a < 0xc2 ↔ a.toNat < 0xc2 := UInt8.lt_iff_toNat_lt
  have hf4 : 0xf4 < a ↔ 0xf4 < a.toNat := UInt8.lt_iff_toNat_lt
  rw [Bool.or_eq_true, decide_eq_true_eq, decide_eq_true_eq, h80, hc2, hf4]
  omega

theorem lt_e0_iff {a : UInt8} : a < 0xe0 ↔ a.toNat < 0xe0 := UInt8.lt_iff_toNat_lt

theorem lt_f0_iff {a : UInt8} : a < 0xf0 ↔ a.toNat < 0xf0 := UInt8.lt_iff_toNat_lt

/-- The decoder reads a form as its character. -/
theorem decodeFrom_form {bs : List UInt8} {n : Nat} (h : Form bs n) (rest : List UInt8) :
    decodeFrom position before (bs ++ rest) =
      decodeFrom (position + bs.length) (Char.ofNat n :: before) rest := by
  rw [decodeFrom.eq_def]
  cases h with
  | @one a ha => exact if_pos (UInt8.lt_iff_toNat_lt.2 ha)
  | @two a b ha ha' hb =>
    obtain ⟨h80, hfirst⟩ := first_iff.2 ⟨ha, by omega⟩
    simp only [List.cons_append, List.nil_append, if_neg h80, if_neg hfirst, hb, Bool.not_true,
      Bool.false_eq_true, if_false, if_pos (lt_e0_iff.2 ha')]
    rfl
  | @three a b c ha ha' hb hc =>
    obtain ⟨h80, hfirst⟩ := first_iff (a := a).2 ⟨by omega, by omega⟩
    have he0 : ¬ a < 0xe0 := fun h => by have := lt_e0_iff.1 h; omega
    simp only [List.cons_append, List.nil_append, if_neg h80, if_neg hfirst, hb, hc, Bool.not_true,
      Bool.false_eq_true, if_false, if_neg he0, if_pos (lt_f0_iff.2 ha')]
    rfl
  | @four a b c d ha ha' hb hc hd =>
    obtain ⟨h80, hfirst⟩ := first_iff.2 ⟨by omega, ha'⟩
    have he0 : ¬ a < 0xe0 := fun h => by have := lt_e0_iff.1 h; omega
    have hf0 : ¬ a < 0xf0 := fun h => by have := lt_f0_iff.1 h; omega
    simp only [List.cons_append, List.nil_append, if_neg h80, if_neg hfirst, hb, hc, hd,
      Bool.not_true, Bool.false_eq_true, if_false, if_neg he0, if_neg hf0]
    rfl

theorem Form.prepend {bs rest : List UInt8} {n : Nat} (h : Form bs n)
    (hrest : ∃ cs, text = (Char.ofNat n :: before).reverse ++ cs ∧ rest = encode cs) :
    ∃ cs, text = before.reverse ++ cs ∧ bs ++ rest = encode cs := by
  obtain ⟨cs, htext, rfl⟩ := hrest
  obtain ⟨hvalid, hencode⟩ := h.encoding
  have hchar : (Char.ofNat n).toNat = n := by
    rw [Char.ofNat, dif_pos hvalid]
    rfl
  refine ⟨Char.ofNat n :: cs, ?_, ?_⟩
  · rw [htext, List.reverse_cons, List.append_assoc]
    rfl
  · rw [encode_cons, hencode _ hchar]

-- Each way through the decoder that is not refused reads one form and goes on behind it.
theorem encode_of_decodeFrom (h : decodeFrom position before bytes = .ok text) :
    ∃ cs, text = before.reverse ++ cs ∧ bytes = encode cs := by
  fun_induction decodeFrom position before bytes with
  | case1 position before =>
    cases h
    exact ⟨[], (List.append_nil _).symm, rfl⟩
  | case2 position before a es h80 ih =>
    exact (Form.one (UInt8.lt_iff_toNat_lt.1 h80)).prepend (ih h)
  | case6 position before a h80 hfirst b es hb he0 ih =>
    have ha := first_iff.1 ⟨h80, hfirst⟩
    rw [Bool.not_eq_true, Bool.not_eq_false'] at hb
    exact (Form.two ha.1 (lt_e0_iff.1 he0) hb).prepend (ih h)
  | case9 position before a h80 hfirst b hb he0 c es hc hf0 ih =>
    rw [Bool.not_eq_true, Bool.not_eq_false'] at hb hc
    rw [lt_e0_iff, Nat.not_lt] at he0
    exact (Form.three he0 (lt_f0_iff.1 hf0) hb hc).prepend (ih h)
  | case12 position before a h80 hfirst b hb he0 c hc hf0 d es hd ih =>
    have ha := first_iff.1 ⟨h80, hfirst⟩
    rw [Bool.not_eq_true, Bool.not_eq_false'] at hb hc hd
    rw [lt_f0_iff, Nat.not_lt] at hf0
    exact (Form.four hf0 ha.2 hb hc hd).prepend (ih h)
  | _ => cases h

theorem decodeFrom_encode (position : Nat) (before text : List Char) :
    decodeFrom position before (encode text) = .ok (before.reverse ++ text) := by
  induction text generalizing position before with
  | nil =>
    rw [List.append_nil]
    rfl
  | cons c text ih =>
    rw [encode_cons, decodeFrom_form (form_of_char c), Char.ofNat_toNat, ih, List.reverse_cons,
      List.append_assoc]
    rfl

/-- A text is decoded from its own encoding and from nothing else. -/
theorem decode_eq_ok_iff : decode bytes = .ok text ↔ bytes = encode text := by
  constructor
  · intro h
    obtain ⟨cs, rfl, hbytes⟩ := encode_of_decodeFrom h
    exact hbytes
  · intro h
    rw [h]
    exact decodeFrom_encode 0 [] text

end PropTable.Text.Utf8
