import Mathlib.Data.Set.List
import StepAtlas.Proofs.Pattern.Meaning
import StepAtlas.Proofs.Script.Escapes

/-
Characters that are spelled by their code units.  An escape with four digits has room for one code
unit of UTF-16, and a character beyond the basic plane has two of them.  Each escape stands for a
code point of its own, so the two stay two lone surrogates: the spelling gives the text back exactly
when all of its characters are in the basic plane.  Otherwise an expression spelled in this way
matches no text that has characters only.
-/

namespace StepAtlas

/-! ## Literal code points of an expression -/

namespace Expression

def Token.spelling : Token → Text
  | .literal p => [p]
  | .hole h => h.spelling

theorem flatMap_spelling_tokensFrom (known : List Placeholder) (e : Text) :
    (tokensFrom known 0 e).flatMap Token.spelling = e := by
  -- a placeholder takes more than one code point, so the induction is on the length
  induction hn : e.length using Nat.strong_induction_on generalizing e with
  | _ n ih =>
    cases e with
    | nil => rfl
    | cons p r =>
      cases ha : Placeholder.at? known (p :: r) with
      | none =>
        rw [tokensFrom_of_none ha, List.flatMap_cons, ih r.length (by simp [← hn]) r rfl]
        rfl
      | some h =>
        obtain ⟨t, ht⟩ := Placeholder.at?_eq_some ha
        have hshort : t.length < n := by
          have hpos := List.length_pos_iff.mpr h.spelling_ne_nil
          rw [← hn, ← ht, List.length_append]
          omega
        rw [← ht] at ha ⊢
        rw [tokensFrom_of_some ha, List.flatMap_cons, ih t.length hshort t rfl]
        rfl

theorem mem_iff_exists_token {e : Text} {p : CodePoint} :
    p ∈ e ↔ ∃ tok ∈ tokens e, p ∈ tok.spelling := by
  conv_lhs => rw [← flatMap_spelling_tokensFrom Placeholder.all e]
  exact List.mem_flatMap

/-- A placeholder is spelled with characters, so a surrogate is always literal. -/
theorem surrogate_mem_tokens {e : Text} {k : Fin 2048} (h : .surrogate k ∈ e) :
    .literal (.surrogate k) ∈ tokens e := by
  obtain ⟨tok, htok, hmem⟩ := mem_iff_exists_token.mp h
  cases tok with
  | literal p =>
    rw [List.mem_singleton.mp hmem]
    exact htok
  | hole hole =>
    have hscalar : ∃ cs, hole.spelling = Text.ofChars cs := by cases hole <;> exact ⟨_, rfl⟩
    obtain ⟨cs, hcs⟩ := hscalar
    rw [Token.spelling, hcs] at hmem
    obtain ⟨c, -, hc⟩ := List.mem_map.mp hmem
    exact absurd hc (by simp)

/-- What is literal in an expression has to be in the text. -/
theorem Covers.mem_of_literal {ts : List Token} {t : Text} (h : Covers ts t) {p : CodePoint}
    (hp : .literal p ∈ ts) :
    p ∈ t := by
  obtain ⟨pieces, rfl, hpieces⟩ := h
  induction hpieces with
  | nil => exact absurd hp List.not_mem_nil
  | cons hfits _ ih =>
    rw [List.flatten_cons, List.mem_append]
    rcases List.mem_cons.mp hp with rfl | hp
    · exact .inl (hfits ▸ List.mem_singleton_self p)
    · exact .inr (ih hp)

theorem not_covers_ofChars {e : Text} {k : Fin 2048} (h : .surrogate k ∈ e) (cs : List Char) :
    ¬ Covers (tokens e) (.ofChars cs) := by
  intro hcovers
  obtain ⟨c, -, hc⟩ := List.mem_map.mp (hcovers.mem_of_literal (surrogate_mem_tokens h))
  exact absurd hc (by simp)

def Token.sample : Token → Text
  | .literal p => [p]
  | .hole _ => "1"

theorem Token.fits_sample (tok : Token) : tok.Fits tok.sample := by
  have hdigits : Digits "1" := ⟨by decide, by decide⟩
  have hwhole : Whole "1" := ⟨_, hdigits, .inl rfl⟩
  have hword : Word "1" := ⟨by decide, by decide⟩
  cases tok with
  | literal p => rfl
  | hole h =>
    cases h with
    | int => exact hwhole
    | float => exact ⟨_, hwhole, .inl rfl⟩
    | word => exact hword
    | string => exact .inr (.inr hword)
    | anything => exact ⟨by decide, by decide⟩

theorem covers_samples (ts : List Token) : Covers ts (ts.flatMap Token.sample) :=
  ⟨ts.map Token.sample, List.flatMap_def,
    by simp [List.forall₂_map_right_iff, List.forall₂_same, Token.fits_sample]⟩

/-- An expression of characters matches some text of characters. -/
theorem exists_covers_ofChars (t : List Char) :
    ∃ cs, Covers (tokens (.ofChars t)) (.ofChars cs) := by
  suffices h : (tokens (.ofChars t)).flatMap Token.sample ∈ Set.range (List.map CodePoint.scalar) by
    obtain ⟨cs, hcs⟩ := h
    refine ⟨cs, ?_⟩
    rw [show Text.ofChars cs = _ from hcs]
    exact covers_samples _
  rw [Set.range_list_map]
  intro p hp
  obtain ⟨tok, htok, hmem⟩ := List.mem_flatMap.mp hp
  cases tok with
  | literal q =>
    have hq : q ∈ Text.ofChars t := mem_iff_exists_token.mpr ⟨_, htok, List.mem_singleton_self q⟩
    obtain ⟨c, -, hc⟩ := List.mem_map.mp hq
    exact ⟨c, hc.trans (List.mem_singleton.mp hmem).symm⟩
  | hole h => exact ⟨'1', (List.mem_singleton.mp hmem).symm⟩

end Expression

/-! ## Code units -/

namespace Script

/-- The code units of a character in UTF-16: the character's own number in the basic plane, and two
surrogates beyond it. -/
def codeUnits (c : Char) : List Nat :=
  if c.toNat < 0x10000 then [c.toNat]
  else [0xD800 + (c.toNat - 0x10000) / 0x400, 0xDC00 + (c.toNat - 0x10000) % 0x400]

/-- All the characters of a text are in the basic plane, so that each is one code unit. -/
def Basic (t : List Char) : Prop := ∀ c ∈ t, c.toNat < 0x10000

theorem codeUnits_lt (c : Char) : ∀ n ∈ codeUnits c, n < 0x10000 := by
  have hvalid : c.toNat < 0xD800 ∨ 0xDFFF < c.toNat ∧ c.toNat < 0x110000 := c.valid
  intro n hn
  rw [codeUnits] at hn
  split at hn
  · rw [List.mem_singleton.mp hn]
    assumption
  · simp only [List.mem_cons, List.not_mem_nil, or_false] at hn
    omega

theorem flatMap_codeUnits_of_basic {t : List Char} (h : Basic t) :
    t.flatMap codeUnits = t.map Char.toNat := by
  rw [List.map_eq_flatMap]
  exact List.flatMap_congr fun c hc => if_pos (h c hc)

/-- Beyond the basic plane there is a surrogate among the code units. -/
theorem exists_surrogate_of_codeUnits {t : List Char} {pattern : Text}
    (h : pattern.map CodePoint.toNat = t.flatMap codeUnits) (hbasic : ¬ Basic t) :
    ∃ k, .surrogate k ∈ pattern := by
  simp only [Basic, not_forall] at hbasic
  obtain ⟨c, hc, hbeyond⟩ := hbasic
  have hvalid : c.toNat < 0xD800 ∨ 0xDFFF < c.toNat ∧ c.toNat < 0x110000 := c.valid
  have hunit : 0xD800 + (c.toNat - 0x10000) / 0x400 ∈ pattern.map CodePoint.toNat := by
    rw [h]
    refine List.mem_flatMap.mpr ⟨c, hc, ?_⟩
    rw [codeUnits, if_neg hbeyond]
    exact List.mem_cons_self
  obtain ⟨p, hp, hnumber⟩ := List.mem_map.mp hunit
  cases p with
  | surrogate k => exact ⟨k, hp⟩
  | scalar d =>
    have hvalid : d.toNat < 0xD800 ∨ 0xDFFF < d.toNat ∧ d.toNat < 0x110000 := d.valid
    rw [CodePoint.toNat] at hnumber
    omega

theorem FourDigits.exists_number_eq {n : Nat} (h : n < 0x10000) :
    ∃ q : FourDigits, number q.digits = n := by
  have hdigit : ∀ k : Nat, k % 16 < 16 := fun k => Nat.mod_lt k (by decide)
  refine ⟨⟨⟨⟨n / 4096 % 16, hdigit _⟩, false⟩, ⟨⟨n / 256 % 16, hdigit _⟩, false⟩,
    ⟨⟨n / 16 % 16, hdigit _⟩, false⟩, ⟨⟨n % 16, hdigit _⟩, false⟩⟩, ?_⟩
  simp only [number, digits, List.reverse_cons, List.reverse_nil, List.nil_append, List.cons_append,
    List.map_cons, List.map_nil, Nat.ofDigits_cons, Nat.ofDigits_nil]
  omega

/-- Escapes with four digits, one for each code unit of a text. -/
structure UnitSpelling (t : List Char) where
  escapes : List FourDigits
  spells : (escapes.map fun q => number q.digits) = t.flatMap codeUnits

namespace UnitSpelling

theorem nonempty (t : List Char) : Nonempty (UnitSpelling t) := by
  have hunits : t.flatMap codeUnits ∈
      Set.range (List.map fun q : FourDigits => number q.digits) := by
    rw [Set.range_list_map]
    intro n hn
    obtain ⟨c, -, hn⟩ := List.mem_flatMap.mp hn
    exact FourDigits.exists_number_eq (codeUnits_lt c n hn)
  obtain ⟨escapes, hescapes⟩ := hunits
  exact ⟨⟨escapes, hescapes⟩⟩

variable {t : List Char}

def written (s : UnitSpelling t) : Text := s.escapes.flatMap fun q => (Piece.short q).written

def value (s : UnitSpelling t) : Text := s.escapes.map fun q => .ofNat (number q.digits) q.number_le

theorem unescape_written (s : UnitSpelling t) : unescape s.written = .ok s.value := by
  rw [written, value, List.map_eq_flatMap]
  exact unescape_flatMap_written (fun q => by simp [Piece.written]) s.escapes

theorem toNat_value (s : UnitSpelling t) : s.value.map CodePoint.toNat = t.flatMap codeUnits := by
  rw [value, List.map_map, ← s.spells]
  exact List.map_congr_left fun q _ => CodePoint.toNat_ofNat _ q.number_le

theorem value_eq_iff (s : UnitSpelling t) : s.value = .ofChars t ↔ Basic t := by
  constructor
  · intro hvalue
    by_contra hbasic
    obtain ⟨k, hk⟩ := exists_surrogate_of_codeUnits s.toNat_value hbasic
    rw [hvalue, Text.ofChars] at hk
    simp at hk
  · intro hbasic
    refine List.map_injective_iff.mpr (fun _ _ => CodePoint.toNat_injective) ?_
    rw [s.toNat_value, flatMap_codeUnits_of_basic hbasic, Text.ofChars, List.map_map]
    rfl

end UnitSpelling

section Matching

open Expression

variable {t : List Char} {matcher : Matcher} {d : Definition}

theorem isMatch_of_not_basic (hmode : matcher.mode.allows .expression = true)
    (hkind : d.kind = .expression) {s : UnitSpelling t} (hd : d.pattern = s.value)
    (hbasic : ¬ Basic t) (cs : List Char) :
    d.isMatch matcher (.ofChars cs) = .ok false := by
  obtain ⟨k, hk⟩ := exists_surrogate_of_codeUnits s.toNat_value hbasic
  rw [isMatch_eq hmode hkind, hd, Except.ok.injEq, ← Bool.not_eq_true, isSome_fullMatch]
  exact not_covers_ofChars hk cs

theorem isMatch_congr_iff (hmode : matcher.mode.allows .expression = true)
    (hkind : d.kind = .expression) {s : UnitSpelling t} (hd : d.pattern = s.value) :
    (∀ text, d.isMatch matcher text = { d with pattern := .ofChars t }.isMatch matcher text) ↔
      Basic t := by
  constructor
  · intro hsame
    by_contra hbasic
    obtain ⟨cs, hcs⟩ := exists_covers_ofChars t
    have hmatch : { d with pattern := .ofChars t }.isMatch matcher (.ofChars cs) = .ok true := by
      rw [isMatch_eq (d := { d with pattern := .ofChars t }) hmode hkind, Except.ok.injEq,
        isSome_fullMatch]
      exact hcs
    rw [← hsame, isMatch_of_not_basic hmode hkind hd hbasic] at hmatch
    exact absurd hmatch (by decide)
  · intro hbasic text
    rw [← s.value_eq_iff.mpr hbasic, ← hd]

/-- A text spelled by its code units, which is possible for every text, is read back if and only if
it has no character beyond the basic plane.  The same holds for an expression: spelled by its code
units it matches the texts that it matches otherwise, or else no text of characters at all. -/
theorem codeUnits_read_back_iff (t : List Char) :
    Nonempty (UnitSpelling t) ∧ ∀ s : UnitSpelling t, ∃ pattern, unescape s.written = .ok pattern ∧
      pattern.map CodePoint.toNat = t.flatMap codeUnits ∧ (pattern = .ofChars t ↔ Basic t) ∧
      ∀ (matcher : Matcher) (d : Definition), matcher.mode.allows .expression = true →
        d.kind = .expression → d.pattern = pattern →
          ((∀ text, d.isMatch matcher text =
            { d with pattern := .ofChars t }.isMatch matcher text) ↔ Basic t) ∧
          (¬ Basic t → ∀ cs, d.isMatch matcher (.ofChars cs) = .ok false) := by
  refine ⟨UnitSpelling.nonempty t, fun s =>
    ⟨s.value, s.unescape_written, s.toNat_value, s.value_eq_iff, ?_⟩⟩
  intro matcher d hmode hkind hd
  exact ⟨isMatch_congr_iff hmode hkind hd, isMatch_of_not_basic hmode hkind hd⟩

def accent : FourDigits := ⟨⟨0, false⟩, ⟨0, false⟩, ⟨14, false⟩, ⟨9, false⟩⟩

def highHalf : FourDigits := ⟨⟨13, true⟩, ⟨8, false⟩, ⟨3, false⟩, ⟨13, true⟩⟩

def lowHalf : FourDigits := ⟨⟨13, true⟩, ⟨14, true⟩, ⟨0, false⟩, ⟨0, false⟩⟩

def mixed : UnitSpelling ['é', '😀'] := ⟨[accent, highHalf, lowHalf], by decide⟩

theorem codeUnits_read_back_iff_mixed :
    mixed.written = "\\u00e9\\uD83D\\uDE00" ∧ unescape mixed.written ≠ .ok "é😀" ∧
      ∀ cs, (ofExpression [.scalar 'é', .surrogate 0x3D, .surrogate 0x600]).isMatch
        ⟨.both, .boundless⟩ (.ofChars cs) = .ok false := by
  have hbasic : ¬ Basic ['é', '😀'] := fun h => absurd (h '😀' (by decide)) (by decide)
  obtain ⟨-, hmixed⟩ := codeUnits_read_back_iff ['é', '😀']
  obtain ⟨pattern, hpattern, -, hback, hmatches⟩ := hmixed mixed
  refine ⟨by decide, fun h => hbasic (hback.mp ?_), ?_⟩
  · exact Except.ok.inj (hpattern.symm.trans h)
  · have hrun : unescape mixed.written = .ok [.scalar 'é', .surrogate 0x3D, .surrogate 0x600] := by
      decide
    exact (hmatches ⟨.both, .boundless⟩ (ofExpression _) rfl rfl
      (Except.ok.inj (hrun.symm.trans hpattern))).2 hbasic

/-- The two halves of a character stay apart, and the step that it stands in is not found. -/
theorem halves_stay_apart :
    unescape "\\uD83D\\uDE00" = .ok [.surrogate 0x3D, .surrogate 0x600] ∧
      unescape "\\uD83D\\uDE00" ≠ .ok "😀" ∧
      (ofExpression "😀").isMatch ⟨.both, .boundless⟩ "😀" = .ok true ∧
      (ofExpression [.surrogate 0x3D, .surrogate 0x600]).isMatch ⟨.both, .boundless⟩ "😀" =
        .ok false := by
  decide +kernel

end Matching

end Script
end StepAtlas
