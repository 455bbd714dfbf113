import StepAtlas.Text.Utf8

/-
UTF-8 read and written.  Bytes can be decoded exactly if they are the bytes of some characters, and
they decode to these.
-/

namespace StepAtlas
namespace Utf8

theorem toNat_ofNat {n : Nat} (h : n < 256) : (UInt8.ofNat n).toNat = n := by
  rw [UInt8.toNat_ofNat']
  omega

/-! ## First bytes -/

theorem lead?_of_lt_80 {b : Nat} (h : b < 0x80) : lead? b = some (0, b, 0, 0) := if_pos h

theorem lead?_of_lt_E0 {b : Nat} (h : 0xC2 ≤ b) (h' : b < 0xE0) :
    lead? b = some (1, b - 0xC0, 0x80, 0xBF) := by
  rw [lead?, if_neg (by omega), if_neg (by omega), if_pos h']

theorem lead?_of_lt_F0 {b : Nat} (h : 0xE0 ≤ b) (h' : b < 0xF0) :
    lead? b = some (2, b - 0xE0, if b = 0xE0 then 0xA0 else 0x80, if b = 0xED then 0x9F
      else 0xBF) := by
  rw [lead?, if_neg (by omega), if_neg (by omega), if_neg (by omega), if_pos h']

theorem lead?_of_lt_F5 {b : Nat} (h : 0xF0 ≤ b) (h' : b < 0xF5) :
    lead? b = some (3, b - 0xF0, if b = 0xF0 then 0x90 else 0x80, if b = 0xF4 then 0x8F
      else 0xBF) := by
  rw [lead?, if_neg (by omega), if_neg (by omega), if_neg (by omega), if_neg (by omega), if_pos h']

/-! ## Decoding what was encoded -/

section
variable (position : Nat) (rest : Bytes)

/-- A byte in its range brings six more bits. -/
theorem decodeFrom_next {p : Partial} {n : Nat} (hn : n < 256) (hlow : p.low ≤ n)
    (hhigh : n ≤ p.high) (howed : p.owed ≠ 1) :
    decodeFrom position (some p) (UInt8.ofNat n :: rest) =
      decodeFrom (position + 1)
        (some { p with
          read :=
  p.read + 1, owed := p.owed - 1, bits := p.bits * 64 + (n - 0x80), low := 0x80, high := 0xBF })
        rest := by
  rw [decodeFrom, toNat_ofNat hn]
  have hrange : (decide (n < p.low) || decide (p.high < n)) = false := by simp; omega
  simp only [hrange, howed, Bool.false_eq_true, if_false]

theorem decodeFrom_last {p : Partial} {n : Nat} (hn : n < 256) (hlow : p.low ≤ n)
    (hhigh : n ≤ p.high) (howed : p.owed = 1) :
    decodeFrom position (some p) (UInt8.ofNat n :: rest) = do
      return .scalar (Char.ofNat (p.bits * 64 + (n - 0x80))) ::
        (← decodeFrom (position + 1) none rest) := by
  rw [decodeFrom, toNat_ofNat hn]
  have hrange : (decide (n < p.low) || decide (p.high < n)) = false := by simp; omega
  simp only [hrange, howed, Bool.false_eq_true, if_false, if_true]

theorem decodeFrom_first {n owed bits low high : Nat} (hn : n < 256)
    (hlead : lead? n = some (owed + 1, bits, low, high)) :
    decodeFrom position none (UInt8.ofNat n :: rest) =
      decodeFrom (position + 1)
        (some { start := position, first := n, read := 1, owed := owed + 1, bits, low, high })
        rest := by
  rw [decodeFrom, toNat_ofNat hn]
  simp only [hlead]

/-- The bytes of a character are decoded to it. -/
theorem decodeFrom_utf8EncodeChar (c : Char) :
    ∃ position', decodeFrom position none (String.utf8EncodeChar c ++ rest) = do
      return .scalar c :: (← decodeFrom position' none rest) := by
  have hvalid : c.val.toNat < 0xD800 ∨ 0xDFFF < c.val.toNat ∧ c.val.toNat < 0x110000 := c.valid
  have hchar : Char.ofNat c.val.toNat = c := Char.ofNat_toNat c
  generalize hv : c.val.toNat = v at hvalid hchar
  rw [String.utf8EncodeChar]
  simp only [hv]
  split
  · rename_i h
    refine ⟨position + 1, ?_⟩
    rw [List.cons_append, List.nil_append, decodeFrom, toNat_ofNat (by omega)]
    simp only [lead?_of_lt_80 (show v < 0x80 by omega), hchar]
  · split
    · rename_i h₁ h₂
      refine ⟨position + 1 + 1, ?_⟩
      have hlead := lead?_of_lt_E0 (b := v / 64 % 32 + 192) (by omega) (by omega)
      rw [List.cons_append, List.cons_append, List.nil_append,
        decodeFrom_first _ _ (by omega) hlead, decodeFrom_last _ _ (by omega) (by dsimp only; omega)
          (by dsimp only; omega) rfl]
      rw [show (v / 64 % 32 + 192 - 0xC0) * 64 + (v % 64 + 128 - 0x80) = v by omega, hchar]
    · split
      · rename_i h₁ h₂ h₃
        refine ⟨position + 1 + 1 + 1, ?_⟩
        have hlead := lead?_of_lt_F0 (b := v / 4096 % 16 + 224) (by omega) (by omega)
        rw [List.cons_append, List.cons_append, List.cons_append, List.nil_append,
          decodeFrom_first _ _ (by omega) hlead,
          decodeFrom_next _ _ (by omega) (by dsimp only; split <;> omega)
            (by dsimp only; split <;> omega) (by simp),
          decodeFrom_last _ _ (by omega) (by dsimp only; omega) (by dsimp only; omega) rfl]
        rw [show ((v / 4096 % 16 + 224 - 0xE0) * 64 + (v / 64 % 64 + 128 - 0x80)) * 64 +
          (v % 64 + 128 - 0x80) = v by
          omega, hchar]
      · rename_i h₁ h₂ h₃
        refine ⟨position + 1 + 1 + 1 + 1, ?_⟩
        have hlead := lead?_of_lt_F5 (b := v / 262144 % 8 + 240) (by omega) (by omega)
        rw [List.cons_append, List.cons_append, List.cons_append, List.cons_append, List.nil_append,
          decodeFrom_first _ _ (by omega) hlead,
          decodeFrom_next _ _ (by omega) (by dsimp only; split <;> omega)
            (by dsimp only; split <;> omega) (by simp),
          decodeFrom_next _ _ (by omega) (by dsimp only; omega) (by dsimp only; omega) (by simp),
          decodeFrom_last _ _ (by omega) (by dsimp only; omega) (by dsimp only; omega) rfl]
        rw [show (((v / 262144 % 8 + 240 - 0xF0) * 64 + (v / 4096 % 64 + 128 - 0x80)) * 64 +
          (v / 64 % 64 + 128 - 0x80)) * 64 + (v % 64 + 128 - 0x80) = v by omega, hchar]

end

/-! ## Encoding what was decoded -/

/-- What a first byte can be. -/
theorem lead?_cases {b owed bits low high : Nat} (h : lead? b = some (owed, bits, low, high)) :
    (b < 0x80 ∧ owed = 0 ∧ bits = b) ∨
      (0xC2 ≤ b ∧ b < 0xE0 ∧ owed = 1 ∧ bits = b - 0xC0 ∧ low = 0x80 ∧ high = 0xBF) ∨
      (0xE0 ≤ b ∧ b < 0xF0 ∧ owed = 2 ∧ bits = b - 0xE0 ∧ low = (if b = 0xE0 then 0xA0 else 0x80) ∧
        high = if b = 0xED then 0x9F else 0xBF) ∨
      (0xF0 ≤ b ∧ b < 0xF5 ∧ owed = 3 ∧ bits = b - 0xF0 ∧ low = (if b = 0xF0 then 0x90 else 0x80) ∧
        high = if b = 0xF4 then 0x8F else 0xBF) := by
  by_cases h₁ : b < 0x80
  · rw [lead?_of_lt_80 h₁] at h
    cases h
    exact .inl ⟨h₁, rfl, rfl⟩
  · by_cases h₂ : b < 0xC2
    · rw [lead?, if_neg h₁, if_pos h₂] at h
      cases h
    · by_cases h₃ : b < 0xE0
      · rw [lead?_of_lt_E0 (by omega) h₃] at h
        simp only [Option.some.injEq, Prod.mk.injEq] at h
        obtain ⟨rfl, rfl, rfl, rfl⟩ := h
        exact .inr (.inl ⟨by omega, h₃, rfl, rfl, rfl, rfl⟩)
      · by_cases h₄ : b < 0xF0
        · rw [lead?_of_lt_F0 (by omega) h₄] at h
          simp only [Option.some.injEq, Prod.mk.injEq] at h
          obtain ⟨rfl, rfl, rfl, rfl⟩ := h
          exact .inr (.inr (.inl ⟨by omega, h₄, rfl, rfl, rfl, rfl⟩))
        · by_cases h₅ : b < 0xF5
          · rw [lead?_of_lt_F5 (by omega) h₅] at h
            simp only [Option.some.injEq, Prod.mk.injEq] at h
            obtain ⟨rfl, rfl, rfl, rfl⟩ := h
            exact .inr (.inr (.inr ⟨by omega, h₅, rfl, rfl, rfl, rfl⟩))
          · rw [lead?, if_neg h₁, if_neg h₂, if_neg h₃, if_neg h₄, if_neg h₅] at h
            cases h

/-- In the middle of a character a byte in its range has to come. -/
theorem of_decodeFrom_some {position : Nat} {p : Partial} {bytes : Bytes} {t : Text}
    (h : decodeFrom position (some p) bytes = .ok t) :
    ∃ n rest, n < 256 ∧ p.low ≤ n ∧ n ≤ p.high ∧ bytes = UInt8.ofNat n :: rest := by
  cases bytes with
  | nil => cases h
  | cons b rest =>
    refine ⟨b.toNat, rest, b.toNat_lt, ?_⟩
    rw [decodeFrom] at h
    dsimp only at h
    split at h
    · cases h
    · rename_i hrange
      simp only [Bool.or_eq_true, decide_eq_true_eq, not_or, Nat.not_lt] at hrange
      exact ⟨hrange.1, hrange.2, by rw [UInt8.ofNat_toNat]⟩

/-- After its last byte a character is at the head of the text. -/
theorem eq_cons_of_ok {point : CodePoint} {read : Except Text Text} {t : Text}
    (h : (do return point :: (← read)) = Except.ok t) : ∃ t', t = point :: t' ∧ read = .ok t' := by
  cases read with
  | error fault => cases h
  | ok t' =>
    cases h
    exact ⟨t', rfl, rfl⟩

theorem of_decodeFrom_next {position : Nat} {p : Partial} {bytes : Bytes} {t : Text}
    (h : decodeFrom position (some p) bytes = .ok t) (howed : p.owed ≠ 1) :
    ∃ n rest, p.low ≤ n ∧ n ≤ p.high ∧ bytes = UInt8.ofNat n :: rest ∧
      decodeFrom (position + 1)
        (some { p with
          read :=
  p.read + 1, owed := p.owed - 1, bits := p.bits * 64 + (n - 0x80), low := 0x80, high := 0xBF })
        rest = .ok t := by
  obtain ⟨n, rest, hn, hlow, hhigh, rfl⟩ := of_decodeFrom_some h
  rw [decodeFrom_next _ _ hn hlow hhigh howed] at h
  exact ⟨n, rest, hlow, hhigh, rfl, h⟩

theorem of_decodeFrom_last {position : Nat} {p : Partial} {bytes : Bytes} {t : Text}
    (h : decodeFrom position (some p) bytes = .ok t) (howed : p.owed = 1) :
    ∃ n rest t', p.low ≤ n ∧ n ≤ p.high ∧ bytes = UInt8.ofNat n :: rest ∧
      t = .scalar (Char.ofNat (p.bits * 64 + (n - 0x80))) :: t' ∧
      decodeFrom (position + 1) none rest = .ok t' := by
  obtain ⟨n, rest, hn, hlow, hhigh, rfl⟩ := of_decodeFrom_some h
  rw [decodeFrom_last _ _ hn hlow hhigh howed] at h
  obtain ⟨t', rfl, ht'⟩ := eq_cons_of_ok h
  exact ⟨n, rest, t', hlow, hhigh, rfl, rfl, ht'⟩

/-- A number that is no surrogate is that of its character. -/
theorem toNat_val_ofNat {n : Nat} (h : n < 0xD800 ∨ 0xDFFF < n ∧ n < 0x110000) :
    (Char.ofNat n).val.toNat = n := by
  rw [Char.ofNat, dif_pos h]
  rfl

theorem utf8EncodeChar_one {n : Nat} (h : n < 0x80) :
    String.utf8EncodeChar (Char.ofNat n) = [UInt8.ofNat n] := by
  rw [String.utf8EncodeChar]
  simp only [toNat_val_ofNat (n := n) (by omega)]
  rw [if_pos (by omega)]

theorem utf8EncodeChar_two {n m : Nat} (hn : 0xC2 ≤ n) (hn' : n < 0xE0) (hm : 0x80 ≤ m)
    (hm' : m ≤ 0xBF) :
    String.utf8EncodeChar (Char.ofNat ((n - 0xC0) * 64 + (m - 0x80))) =
      [UInt8.ofNat n, UInt8.ofNat m] := by
  generalize hv : (n - 0xC0) * 64 + (m - 0x80) = v
  rw [String.utf8EncodeChar]
  simp only [toNat_val_ofNat (n := v) (by omega)]
  rw [if_neg (by omega), if_pos (by omega), show v / 64 % 32 + 192 =
    n by omega, show v % 64 + 128 = m by omega]

/-- The ranges of the second byte keep out surrogates and forms that are too long. -/
theorem utf8EncodeChar_three {n m₁ m₂ : Nat} (hn : 0xE0 ≤ n) (hn' : n < 0xF0)
    (hm₁ : (if n = 0xE0 then 0xA0 else 0x80) ≤ m₁) (hm₁' : m₁ ≤ if n = 0xED then 0x9F else 0xBF)
    (hm₂ : 0x80 ≤ m₂) (hm₂' : m₂ ≤ 0xBF) :
    String.utf8EncodeChar (Char.ofNat (((n - 0xE0) * 64 + (m₁ - 0x80)) * 64 + (m₂ - 0x80))) =
      [UInt8.ofNat n, UInt8.ofNat m₁, UInt8.ofNat m₂] := by
  have hlow : 0x80 ≤ m₁ ∧ (n = 0xE0 → 0xA0 ≤ m₁) := by split at hm₁ <;> omega
  have hhigh : m₁ ≤ 0xBF ∧ (n = 0xED → m₁ ≤ 0x9F) := by split at hm₁' <;> omega
  generalize hv : ((n - 0xE0) * 64 + (m₁ - 0x80)) * 64 + (m₂ - 0x80) = v
  rw [String.utf8EncodeChar]
  simp only [toNat_val_ofNat (n := v) (by omega)]
  rw [if_neg (by omega), if_neg (by omega), if_pos (by omega), show v / 4096 % 16 + 224 =
    n by omega,
    show v / 64 % 64 + 128 = m₁ by omega, show v % 64 + 128 = m₂ by omega]

theorem utf8EncodeChar_four {n m₁ m₂ m₃ : Nat} (hn : 0xF0 ≤ n) (hn' : n < 0xF5)
    (hm₁ : (if n = 0xF0 then 0x90 else 0x80) ≤ m₁) (hm₁' : m₁ ≤ if n = 0xF4 then 0x8F else 0xBF)
    (hm₂ : 0x80 ≤ m₂) (hm₂' : m₂ ≤ 0xBF) (hm₃ : 0x80 ≤ m₃) (hm₃' : m₃ ≤ 0xBF) :
    String.utf8EncodeChar
        (Char.ofNat ((((n - 0xF0) * 64 + (m₁ - 0x80)) * 64 + (m₂ - 0x80)) * 64 + (m₃ - 0x80))) =
      [UInt8.ofNat n, UInt8.ofNat m₁, UInt8.ofNat m₂, UInt8.ofNat m₃] := by
  have hlow : 0x80 ≤ m₁ ∧ (n = 0xF0 → 0x90 ≤ m₁) := by split at hm₁ <;> omega
  have hhigh : m₁ ≤ 0xBF ∧ (n = 0xF4 → m₁ ≤ 0x8F) := by split at hm₁' <;> omega
  generalize hv : (((n - 0xF0) * 64 + (m₁ - 0x80)) * 64 + (m₂ - 0x80)) * 64 + (m₃ - 0x80) = v
  rw [String.utf8EncodeChar]
  simp only [toNat_val_ofNat (n := v) (by omega)]
  rw [if_neg (by omega), if_neg (by omega), if_neg (by omega), show v / 262144 % 8 + 240 =
    n by omega,
    show v / 4096 % 64 + 128 =
      m₁ by omega, show v / 64 % 64 + 128 = m₂ by omega, show v % 64 + 128 = m₃ by omega]

/-- Bytes that can be decoded begin with those of the first character. -/
theorem of_decodeFrom_none {position : Nat} {bytes : Bytes} {t : Text}
    (h : decodeFrom position none bytes = .ok t) :
    bytes = [] ∧ t = [] ∨
      ∃ c rest t' position', bytes = String.utf8EncodeChar c ++ rest ∧ t = .scalar c :: t' ∧
        decodeFrom position' none rest = .ok t' := by
  cases bytes with
  | nil =>
    cases h
    exact .inl ⟨rfl, rfl⟩
  | cons b rest =>
    refine .inr ?_
    have hb : b = UInt8.ofNat b.toNat := UInt8.ofNat_toNat.symm
    have hlt := b.toNat_lt
    rw [hb] at h ⊢
    generalize b.toNat = n at h hlt ⊢
    cases hlead : lead? n with
    | none =>
      rw [decodeFrom, toNat_ofNat hlt] at h
      simp only [hlead] at h
      cases h
    | some found =>
      obtain ⟨owed, bits, low, high⟩ := found
      rcases lead?_cases hlead with ⟨hn, ho, hbits⟩ | ⟨hn, hn', ho, hbits, hl, hh⟩
        | ⟨hn, hn', ho, hbits, hl, hh⟩ |
        ⟨hn, hn', ho, hbits, hl, hh⟩
      · rw [ho, hbits] at hlead
        rw [decodeFrom, toNat_ofNat hlt] at h
        simp only [hlead] at h
        obtain ⟨t', rfl, ht'⟩ := eq_cons_of_ok h
        refine ⟨_, rest, t', _, ?_, rfl, ht'⟩
        rw [utf8EncodeChar_one hn]
        rfl
      · rw [ho, hbits, hl, hh] at hlead
        rw [decodeFrom_first _ _ hlt hlead] at h
        obtain ⟨m, rest, t', hlow, hhigh, rfl, rfl, ht'⟩ := of_decodeFrom_last h rfl
        refine ⟨_, rest, t', _, ?_, rfl, ht'⟩
        rw [utf8EncodeChar_two hn hn' hlow hhigh]
        rfl
      · rw [ho, hbits, hl, hh] at hlead
        rw [decodeFrom_first _ _ hlt hlead] at h
        obtain ⟨m₁, rest, hlow₁, hhigh₁, rfl, h₁⟩ := of_decodeFrom_next h (by simp)
        obtain ⟨m₂, rest, t', hlow₂, hhigh₂, rfl, rfl, ht'⟩ := of_decodeFrom_last h₁ rfl
        refine ⟨_, rest, t', _, ?_, rfl, ht'⟩
        rw [utf8EncodeChar_three hn hn' hlow₁ hhigh₁ hlow₂ hhigh₂]
        rfl
      · rw [ho, hbits, hl, hh] at hlead
        rw [decodeFrom_first _ _ hlt hlead] at h
        obtain ⟨m₁, rest, hlow₁, hhigh₁, rfl, h₁⟩ := of_decodeFrom_next h (by simp)
        obtain ⟨m₂, rest, hlow₂, hhigh₂, rfl, h₂⟩ := of_decodeFrom_next h₁ (by simp)
        obtain ⟨m₃, rest, t', hlow₃, hhigh₃, rfl, rfl, ht'⟩ := of_decodeFrom_last h₂ rfl
        refine ⟨_, rest, t', _, ?_, rfl, ht'⟩
        rw [utf8EncodeChar_four hn hn' hlow₁ hhigh₁ hlow₂ hhigh₂ hlow₃ hhigh₃]
        rfl

/-- Bytes decode to a text exactly if they are the bytes of its characters, and it has no
surrogates. -/
theorem decode_eq_ok_iff {bytes : Bytes} {t : Text} :
    decode bytes = .ok t ↔ ∃ cs : List Char, t = Text.ofChars cs ∧
      bytes = cs.flatMap String.utf8EncodeChar := by
  constructor
  · intro h
    rw [decode] at h
    generalize 0 = position at h
    induction t generalizing position bytes with
    | nil =>
      rcases of_decodeFrom_none h with ⟨rfl, -⟩ | ⟨c, rest, t', position', -, ht, -⟩
      · exact ⟨[], rfl, rfl⟩
      · cases ht
    | cons p t ih =>
      rcases of_decodeFrom_none h with ⟨-, ht⟩ | ⟨c, rest, t', position', rfl, ht, hrest⟩
      · cases ht
      · cases ht
        obtain ⟨cs, rfl, rfl⟩ := ih position' hrest
        exact ⟨c :: cs, rfl, rfl⟩
  · rintro ⟨cs, rfl, rfl⟩
    rw [decode]
    generalize 0 = position
    induction cs generalizing position with
    | nil => rfl
    | cons c cs ih =>
      obtain ⟨position', hc⟩ :=
        decodeFrom_utf8EncodeChar position (cs.flatMap String.utf8EncodeChar) c
      rw [List.flatMap_cons, hc, ih position']
      rfl

/-- Bytes are those of one list of characters only. -/
theorem chars_unique {cs cs' : List Char}
    (h : cs.flatMap String.utf8EncodeChar = cs'.flatMap String.utf8EncodeChar) : cs = cs' := by
  have hcs : decode (cs.flatMap String.utf8EncodeChar) = .ok (.ofChars cs) :=
    decode_eq_ok_iff.mpr ⟨cs, rfl, rfl⟩
  have hcs' : decode (cs.flatMap String.utf8EncodeChar) = .ok (.ofChars cs') :=
    decode_eq_ok_iff.mpr ⟨cs', rfl, h⟩
  rw [hcs] at hcs'
  have hchars := congrArg Text.chars? (Except.ok.inj hcs')
  rw [Text.chars?_ofChars, Text.chars?_ofChars] at hchars
  exact Option.some.inj hchars

end Utf8
end StepAtlas
