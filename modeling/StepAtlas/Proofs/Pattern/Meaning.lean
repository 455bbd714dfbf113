import StepAtlas.Matching
import StepAtlas.Proofs.Pattern.Compiled
import StepAtlas.Proofs.Regex.Language

/-
The meaning of an expression.  A text matches when it can be cut into pieces, one for each token of
the expression: a literal stands for itself, and a placeholder for the texts of its kind.  The
regular expression in between, the tree that is read from it and the search through the ways to
match are not part of the meaning.
-/

namespace StepAtlas
namespace Expression

open Regex Regex.Node

/-! ## Pieces -/

def asciiDigits : Text := "0123456789"

def asciiBlanks : Text := " \t\n\x0b\x0c\r"

def Digits (t : Text) : Prop := t ≠ [] ∧ ∀ p ∈ t, p ∈ asciiDigits

/-- Digits, perhaps behind a minus sign. -/
def Whole (t : Text) : Prop := ∃ ds, Digits ds ∧ (t = ds ∨ t = .scalar '-' :: ds)

def Decimal (t : Text) : Prop :=
  ∃ w, Whole w ∧ (t = w ∨ ∃ ds, Digits ds ∧ t = w ++ .scalar '.' :: ds)

def Word (t : Text) : Prop := t ≠ [] ∧ ∀ p ∈ t, p ∉ asciiBlanks

/-- A text between two equal quotes, without that quote inside. -/
def Quoted (quote : Char) (t : Text) : Prop :=
  ∃ u : Text, .scalar quote ∉ u ∧ t = .scalar quote :: (u ++ [.scalar quote])

def Placeholder.Fits : Placeholder → Text → Prop
  | .int, t => Whole t
  | .float, t => Decimal t
  | .word, t => Word t
  | .string, t => Quoted '"' t ∨ Quoted '\'' t ∨ Word t
  | .anything, t => t ≠ [] ∧ ∀ p ∈ t, p ≠ .scalar '\n'

def Token.Fits : Token → Text → Prop
  | .literal p, t => t = [p]
  | .hole h, t => h.Fits t

/-- A text can be cut into consecutive pieces, one for each token. -/
def Covers (ts : List Token) (t : Text) : Prop :=
  ∃ pieces : List Text, t = pieces.flatten ∧ List.Forall₂ Token.Fits ts pieces

/-! ## Digits and blanks -/

theorem mem_of_test {f : Char → Bool} {t : Text} (most : Nat)
    (hmost : ∀ c, f c = true → c.toNat ≤ most)
    (hall : ∀ n ≤ most, f (Char.ofNat n) = true → .scalar (Char.ofNat n) ∈ t) {p : CodePoint}
    (hp : p.test f = true) :
    p ∈ t := by
  cases p with
  | surrogate k => exact absurd hp Bool.false_ne_true
  | scalar c =>
    have h := hall c.toNat (hmost c hp)
    rw [Char.ofNat_toNat] at h
    exact h hp

theorem holds_digit (p : CodePoint) : Category.digit.holds true p = true ↔ p ∈ asciiDigits := by
  constructor
  · refine mem_of_test (f := Char.isDigit) 57 (fun c hc => ?_) (by decide)
    have h : 48 ≤ c.toNat ∧ c.toNat ≤ 57 := by simpa [Char.isDigit, UInt32.le_iff_toNat_le] using hc
    exact h.2
  · have hall : ∀ p ∈ asciiDigits, Category.digit.holds true p = true := by decide
    exact hall p

theorem holds_space (p : CodePoint) : Category.space.holds true p = true ↔ p ∈ asciiBlanks := by
  constructor
  · refine mem_of_test (f := fun c => c = ' ' || ('\t' ≤ c && c ≤ '\r')) 32 (fun c hc => ?_)
      (by decide)
    have h : c = ' ' ∨ 9 ≤ c.toNat ∧ c.toNat ≤ 13 := by
      simpa [Char.le_def, UInt32.le_iff_toNat_le] using hc
    rcases h with rfl | h
    · decide
    · omega
  · have hall : ∀ p ∈ asciiBlanks, Category.space.holds true p = true := by decide
    exact hall p

/-! ## Rules -/

/-- Expressions know ASCII digits and blanks only. -/
def options : Options := { ascii := true }

def texts (P : Text → Prop) : Language CodePoint := {t | P t}

theorem mem_texts {P : Text → Prop} {t : Text} : t ∈ texts P ↔ P t := Iff.rfl

theorem accepts_digit (p : CodePoint) :
    (Atom.set false [.category .digit false]).accepts options p = true ↔ p ∈ asciiDigits := by
  rw [Atom.accepts_category rfl, Bool.bne_false]
  exact holds_digit p

theorem accepts_nonBlank (p : CodePoint) :
    (Atom.set false [.category .space true]).accepts options p = true ↔ p ∉ asciiBlanks := by
  rw [Atom.accepts_category rfl, Bool.bne_true, Bool.not_eq_true', ← Bool.not_eq_true, not_iff_not]
  exact holds_space p

theorem matches_row {a : Atom} {p : CodePoint → Prop} (h : ∀ c, a.accepts options c = true ↔ p c)
    (lo : Nat) (hi : Option Nat) : Matches options (.repeatAtom .greedy lo hi a) (row p lo hi) := by
  have hp : p = fun c => a.accepts options c = true := funext fun c => propext (h c).symm
  rw [hp]
  exact matches_repeatAtom options a lo hi

theorem matches_literal (p : CodePoint) :
    Matches options (.atom (.literal p.toNat)) (texts (· = [p])) := by
  have hsingle : texts (· = [p]) = single fun c => (Atom.literal p.toNat).accepts options c =
      true := by
    ext t
    rw [mem_texts, mem_single]
    constructor
    · rintro rfl
      exact ⟨p, (Atom.accepts_literal rfl p p).mpr rfl, rfl⟩
    · rintro ⟨c, hc, rfl⟩
      rw [(Atom.accepts_literal rfl c p).mp hc]
  rw [hsingle]
  exact matches_atom options _

theorem row_one (p : CodePoint → Prop) : row p 1 none = texts fun t => t ≠ [] ∧ ∀ c ∈ t, p c := by
  ext t
  rw [mem_row, mem_texts]
  constructor
  · rintro ⟨hall, hlen, -⟩
    exact ⟨List.length_pos_iff.mp hlen, hall⟩
  · rintro ⟨hne, hall⟩
    exact ⟨hall, List.length_pos_iff.mpr hne, nofun⟩

theorem matches_digits : Matches options digits (texts Digits) := by
  rw [← show row (· ∈ asciiDigits) 1 none = texts Digits from row_one _]
  exact matches_row accepts_digit 1 none

theorem matches_nonBlanks : Matches options nonBlanks (texts Word) := by
  rw [← show row (· ∉ asciiBlanks) 1 none = texts Word from row_one _]
  exact matches_row accepts_nonBlank 1 none

theorem sign_mul_digits : row (· = .scalar '-') 0 (some 1) * texts Digits = texts Whole := by
  ext t
  rw [Language.mem_mul, mem_texts]
  constructor
  · rintro ⟨x, ⟨hx, -, hlen⟩, ds, hds, rfl⟩
    match x, hx, hlen 1 rfl with
    | [], _, _ => exact ⟨ds, hds, .inl rfl⟩
    | [c], hx, _ =>
      rw [hx c List.mem_cons_self]
      exact ⟨ds, hds, .inr rfl⟩
  · rintro ⟨ds, hds, rfl | rfl⟩
    · exact ⟨[], ⟨nofun, Nat.le_refl 0, fun m _ => Nat.zero_le m⟩, t, hds, rfl⟩
    · exact ⟨[.scalar '-'], ⟨by simp, Nat.zero_le 1, by simp⟩, ds, hds, rfl⟩

theorem whole_mul_fraction :
    texts Whole * (texts (· = [.scalar '.']) * texts Digits + 1) = texts Decimal := by
  ext t
  simp only [Language.mem_mul, Language.mem_add, Language.mem_one, mem_texts]
  constructor
  · rintro ⟨w, hw, y, ⟨-, rfl, ds, hds, rfl⟩ | rfl, rfl⟩
    · exact ⟨w, hw, .inr ⟨ds, hds, rfl⟩⟩
    · exact ⟨w, hw, .inl (List.append_nil w)⟩
  · rintro ⟨w, hw, rfl | ⟨ds, hds, rfl⟩⟩
    · exact ⟨t, hw, [], .inr rfl, List.append_nil t⟩
    · exact ⟨w, hw, _, .inl ⟨_, rfl, ds, hds, rfl⟩, rfl⟩

theorem quotes_mul_inside (quote : Char) :
    texts (· = [.scalar quote]) * (row (· ≠ .scalar quote) 0 none * texts (· = [.scalar quote])) =
      texts (Quoted quote) := by
  ext t
  simp only [Language.mem_mul, mem_texts]
  constructor
  · rintro ⟨-, rfl, -, ⟨u, ⟨hu, -, -⟩, -, rfl, rfl⟩, rfl⟩
    exact ⟨u, fun hmem => hu _ hmem rfl, rfl⟩
  · rintro ⟨u, hu, rfl⟩
    exact ⟨_, rfl, _, ⟨u, ⟨fun c hc he => hu (he ▸ hc), Nat.zero_le _, nofun⟩, _, rfl, rfl⟩, rfl⟩

theorem matches_sign : Matches options sign (row (· = .scalar '-') 0 (some 1)) :=
  matches_row (fun p => Atom.accepts_literal rfl p (.scalar '-')) 0 (some 1)

theorem matches_quotedText (quote : Char) (g : Nat) :
    Matches options (quotedText quote g) (texts (Quoted quote)) := by
  have hquote : Matches options (.atom (.literal quote.toNat)) (texts (· = [.scalar quote])) :=
    matches_literal (.scalar quote)
  have hinside : Matches options (.repeatAtom .greedy 0 none (.notLiteral quote.toNat))
      (row (· ≠ .scalar quote) 0 none) :=
    matches_row (fun p => Atom.accepts_notLiteral rfl p (.scalar quote)) 0 none
  rw [← quotes_mul_inside]
  exact hquote.seq ((hinside.group g).seq hquote)

theorem Placeholder.matches_node (h : Placeholder) (g : Nat) :
    Matches options (h.node g) (texts h.Fits) := by
  cases h with
  | int =>
    rw [← show row (· = .scalar '-') 0 (some 1) * texts Digits = texts (Placeholder.Fits .int) from
      sign_mul_digits]
    exact (matches_sign.seq matches_digits).group g
  | float =>
    have hfraction := (matches_literal (.scalar '.')).seq matches_digits
    have h := matches_sign.seq (matches_digits.seq hfraction.scoped.optional)
    rw [← mul_assoc, sign_mul_digits, whole_mul_fraction] at h
    exact h.group g
  | word => exact matches_nonBlanks.group g
  | string =>
    have hsingle := (matches_quotedText '\'' (g + 1)).alt (matches_nonBlanks.group (g + 2))
    exact ((matches_quotedText '"' g).alt hsingle).scoped
  | anything =>
    rw [← show row (· ≠ .scalar '\n') 1 none = texts (Placeholder.Fits .anything) from row_one _]
    exact (matches_row (Atom.accepts_any rfl) 1 none).group g

theorem Token.matches_node (tok : Token) (g : Nat) :
    Matches options (tok.node g) (texts tok.Fits) := by
  cases tok with
  | literal p => exact matches_literal p
  | hole h => exact h.matches_node g

/-! ## Expressions -/

theorem covers_nil {t : Text} : Covers [] t ↔ t = [] := by
  constructor
  · rintro ⟨pieces, rfl, h⟩
    rw [List.forall₂_nil_left_iff.mp h]
    rfl
  · rintro rfl
    exact ⟨[], rfl, .nil⟩

theorem texts_covers_cons (tok : Token) (ts : List Token) :
    texts (Covers (tok :: ts)) = texts tok.Fits * texts (Covers ts) := by
  ext t
  rw [Language.mem_mul, mem_texts]
  constructor
  · rintro ⟨pieces, rfl, h⟩
    obtain ⟨x, xs, hx, hxs, rfl⟩ := List.forall₂_cons_left_iff.mp h
    exact ⟨x, hx, xs.flatten, ⟨xs, rfl, hxs⟩, rfl⟩
  · rintro ⟨x, hx, y, ⟨pieces, rfl, h⟩, rfl⟩
    exact ⟨x :: pieces, rfl, .cons hx h⟩

theorem ofList_cons {n : Node} {ns : List Node} (h : ns ≠ []) :
    Node.ofList (n :: ns) = .seq n (Node.ofList ns) := by
  cases ns with
  | nil => exact absurd rfl h
  | cons m ns => rfl

theorem isOk_atEnd (s : Spot) : (Pattern.atEnd s).isOk = true ↔ s.ahead = [] := by
  rw [Pattern.atEnd]
  cases hs : s.ahead <;> simp

/-- The tokens' nodes and the line end succeed before exactly the texts that the tokens cover. -/
theorem takes_nodesFrom (ts : List Token) (g : Nat) :
    Takes (fun s => (Node.ofList (nodesFrom g ts ++ [.anchor .lineEnd])).run options s
      Pattern.atEnd)
      (texts (Covers ts)) := by
  induction ts generalizing g with
  | nil =>
    intro s
    rw [mem_texts, covers_nil, ← isOk_atEnd]
    show (if s.holds options .lineEnd then Pattern.atEnd s else .error s.entered : Outcome).isOk =
      true ↔ _
    cases hline : s.holds options .lineEnd with
    | true => rfl
    | false =>
      refine iff_of_false Bool.false_ne_true fun hend => ?_
      rw [Spot.holds, (isOk_atEnd s).mp hend] at hline
      exact absurd hline (by decide)
  | cons tok ts ih =>
    rw [nodesFrom, List.cons_append, ofList_cons (by simp), texts_covers_cons]
    exact tok.matches_node g _ _ (ih (g + tok.groups))

/-- At the start of a text its beginning is no condition. -/
theorem run_root_start (e t : Text) :
    (pattern e).root.run (pattern e).options (Spot.start t) Pattern.atEnd =
      (Node.ofList (nodesFrom 1 (tokens e) ++ [.anchor .lineEnd])).run options (Spot.start t)
      Pattern.atEnd := by
  rw [pattern, ofList_cons (by simp)]
  rfl

theorem isSome_fullMatch (e t : Text) :
    ((pattern e).fullMatch t).isSome = true ↔ Covers (tokens e) t := by
  have hsome : ∀ x : Outcome, x.toOption.isSome = x.isOk := by
    intro x
    cases x <;> rfl
  rw [Pattern.fullMatch, Option.isSome_map, hsome, run_root_start]
  exact takes_nodesFrom (tokens e) 1 (Spot.start t)

theorem search_eq {matcher : Matcher} {d : Definition}
    (hmode : matcher.mode.allows .expression = true) (hkind : d.kind = .expression) (t : Text) :
    d.search matcher t = .ok ((pattern d.pattern).fullMatch t) := by
  rw [Definition.search, hkind, hmode, compile_eq]
  rfl

theorem isMatch_eq {matcher : Matcher} {d : Definition}
    (hmode : matcher.mode.allows .expression = true) (hkind : d.kind = .expression) (t : Text) :
    d.isMatch matcher t = .ok ((pattern d.pattern).fullMatch t).isSome := by
  rw [Definition.isMatch, search_eq hmode hkind]
  rfl

theorem tokens_of_literal {e : Text} (h : ∀ hole : Placeholder, ¬ hole.spelling <:+: e) :
    tokens e = e.map .literal := by
  rw [tokens]
  induction e with
  | nil => rfl
  | cons p r ih =>
    have hnone : Placeholder.at? Placeholder.all (p :: r) = none := by
      refine List.find?_eq_none.mpr fun hole _ hstart => ?_
      exact h hole (Text.startsWith_iff.mp hstart).isInfix
    rw [tokensFrom_of_none hnone,
      ih (fun hole hr => h hole (hr.trans (List.suffix_cons p r).isInfix))]
    rfl

theorem covers_literals {e t : Text} : Covers (e.map .literal) t ↔ t = e := by
  induction e generalizing t with
  | nil => exact covers_nil
  | cons p r ih =>
    rw [List.map_cons, ← mem_texts (P := Covers _), texts_covers_cons, Language.mem_mul]
    constructor
    · rintro ⟨-, rfl, y, hy, rfl⟩
      rw [ih.mp hy]
      rfl
    · rintro rfl
      exact ⟨[p], rfl, r, ih.mpr rfl, rfl⟩

/-- A definition by an expression matches a text if and only if the text can be cut into pieces, one
for each token of the expression and of its kind.  Looking for a match always gives an answer,
because every expression compiles, and an expression without placeholders matches itself only. -/
theorem isMatch_iff_covers {matcher : Matcher} {d : Definition}
    (hmode : matcher.mode.allows .expression = true) (hkind : d.kind = .expression) (t : Text) :
    (∃ p, compile matcher.machine d.pattern = .ok (some p)) ∧
      (∃ b, d.isMatch matcher t = .ok b ∧ (b = true ↔ Covers (tokens d.pattern) t)) ∧
      ((∀ hole : Placeholder, ¬ hole.spelling <:+: d.pattern) →
        (d.isMatch matcher t = .ok true ↔ t = d.pattern)) := by
  refine ⟨⟨_, compile_eq matcher.machine d.pattern⟩,
    ⟨_, isMatch_eq hmode hkind t, isSome_fullMatch d.pattern t⟩, fun hliteral => ?_⟩
  rw [isMatch_eq hmode hkind t, Except.ok.injEq, isSome_fullMatch, tokens_of_literal hliteral,
    covers_literals]

/-! A placeholder in braces, one behind a backslash, and an expression that is no more than text. -/

def ofExpression (e : Text) : Definition where
  pattern := e
  kind := .expression
  keyword := .any
  source := Path.ofText "steps.js"
  span := ⟨1, 1, 1, 9⟩
  function := "Step"
  flags := none

def nested : Definition := ofExpression "\x7b\x7bint\x7d\x7d\\\x7b\x7d (\x7bstring\x7d)+"

def unbalanced : Definition := ofExpression "1+1=\x7b"

theorem isMatch_iff_covers_nested :
    nested.isMatch ⟨.both, .boundless⟩ "\x7b-12\x7d\\? ('a b')+" = .ok true ∧
      Covers (tokens nested.pattern) "\x7b-12\x7d\\? ('a b')+" ∧
      (∀ hole : Placeholder, ¬ hole.spelling <:+: unbalanced.pattern) ∧
      ∀ t, unbalanced.isMatch ⟨.expressionOnly, .boundless⟩ t = .ok true ↔ t = "1+1=\x7b" := by
  have hboth : (Matcher.mk .both .boundless).mode.allows .expression = true := rfl
  have honly : (Matcher.mk .expressionOnly .boundless).mode.allows .expression = true := rfl
  have hrun : nested.isMatch ⟨.both, .boundless⟩ "\x7b-12\x7d\\? ('a b')+" = .ok true := by
    decide +kernel
  have hliteral : ∀ hole : Placeholder, ¬ hole.spelling <:+: unbalanced.pattern := by
    intro hole
    cases hole <;> decide
  refine ⟨hrun, ?_, hliteral, fun t => (isMatch_iff_covers honly rfl t).2.2 hliteral⟩
  obtain ⟨-, ⟨b, hb, hcovers⟩, -⟩ :=
    isMatch_iff_covers (d := nested) hboth rfl "\x7b-12\x7d\\? ('a b')+"
  exact hcovers.mp (Except.ok.inj (hb.symm.trans hrun))

end Expression
end StepAtlas
