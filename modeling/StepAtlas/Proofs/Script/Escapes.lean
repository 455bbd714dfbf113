import Mathlib.Data.Nat.Digits.Defs
import Mathlib.Data.Nat.Digits.Lemmas
import StepAtlas.Script.Registration

/-
What the raw text of a literal stands for.  A raw text is put together from pieces: plain code
points, escapes for control characters, escapes with digits, code points that are escaped for
nothing, and line breaks behind a backslash.  However the pieces follow each other, each keeps its
own meaning.  There is one exception, since a line break of two code points is one line break: a
carriage return behind a backslash takes a line feed with it.
-/

namespace StepAtlas

def CodePoint.ofNat (n : Nat) (h : n ≤ 0x10FFFF) : CodePoint :=
  if hs : 0xD800 ≤ n ∧ n < 0xE000 then .surrogate ⟨n - 0xD800, by omega⟩
  else .scalar ⟨n.toUInt32, by
    have hn : n.toUInt32.toNat = n := UInt32.toNat_ofNat_of_lt' (by simp only [UInt32.size]; omega)
    simp only [UInt32.isValidChar, hn, Nat.isValidChar]
    omega⟩

theorem CodePoint.toNat_ofNat (n : Nat) (h : n ≤ 0x10FFFF) : (ofNat n h).toNat = n := by
  rw [ofNat]
  split
  · simp only [toNat]
    omega
  · exact UInt32.toNat_ofNat_of_lt' (by simp only [UInt32.size]; omega)

theorem CodePoint.ofNat?_toNat (p : CodePoint) : ofNat? p.toNat = some p := by
  cases p with
  | scalar c =>
    have hvalid : c.toNat < 0xD800 ∨ 0xDFFF < c.toNat ∧ c.toNat < 0x110000 := c.valid
    rw [toNat, ofNat?, dif_neg (by omega), if_pos (by omega), Char.ofNat_toNat]
  | surrogate k =>
    have hk := k.isLt
    rw [toNat, ofNat?, dif_pos (by omega)]
    simp

theorem CodePoint.ofNat?_eq_some (n : Nat) (h : n ≤ 0x10FFFF) : ofNat? n = some (ofNat n h) := by
  have hp := ofNat?_toNat (ofNat n h)
  rwa [toNat_ofNat] at hp

theorem CodePoint.ofNat_eq {p : CodePoint} {n : Nat} (h : n ≤ 0x10FFFF) (hn : n = p.toNat) :
    ofNat n h = p := by
  subst hn
  exact Option.some.inj ((ofNat?_eq_some _ h).symm.trans p.ofNat?_toNat)

namespace Script

/-! ## Digits -/

def hexDigit (capital : Bool) (n : Nat) : Char :=
  if capital then (Nat.digitChar n).toUpper else Nat.digitChar n

theorem isHexDigit_hexDigit (capital : Bool) :
    ∀ n < 16, isHexDigit (.scalar (hexDigit capital n)) = true := by
  cases capital <;> decide

theorem hexValue_hexDigit (capital : Bool) :
    ∀ n < 16, hexValue [.scalar (hexDigit capital n)] = n := by
  cases capital <;> decide

structure HexDigit where
  value : Fin 16
  capital : Bool

def HexDigit.char (d : HexDigit) : CodePoint := .scalar (hexDigit d.capital d.value)

def number (ds : List HexDigit) : Nat := Nat.ofDigits 16 (ds.reverse.map fun d => d.value.val)

theorem number_append_singleton (ds : List HexDigit) (d : HexDigit) :
    number (ds ++ [d]) = number ds * 16 + d.value := by
  rw [number, List.reverse_append, List.reverse_singleton, List.singleton_append, List.map_cons,
    Nat.ofDigits_cons, Nat.add_comm, Nat.mul_comm]
  rfl

theorem number_lt (ds : List HexDigit) : number ds < 16 ^ ds.length := by
  have h : number ds < 16 ^ (ds.reverse.map fun d => d.value.val).length := by
    refine Nat.ofDigits_lt_base_pow_length (by decide) fun n hn => ?_
    obtain ⟨d, -, rfl⟩ := List.mem_map.mp hn
    exact d.value.isLt
  simpa using h

theorem HexDigit.isHexDigit_char (d : HexDigit) : isHexDigit d.char = true :=
  isHexDigit_hexDigit d.capital d.value d.value.isLt

theorem hexValue_append_singleton (t : Text) (p : CodePoint) :
    hexValue (t ++ [p]) = hexValue t * 16 + hexValue [p] := by
  simp only [hexValue, List.foldl_append, List.foldl_cons, List.foldl_nil, Nat.zero_mul,
    Nat.zero_add]

theorem hexValue_map_char (ds : List HexDigit) : hexValue (ds.map HexDigit.char) = number ds := by
  induction ds using List.reverseRecOn with
  | nil => rfl
  | append_singleton ds d ih =>
    have hd : hexValue [d.char] = d.value := hexValue_hexDigit d.capital d.value d.value.isLt
    rw [List.map_append, List.map_singleton, hexValue_append_singleton, ih, hd,
      number_append_singleton]

/-- Four digits, as in `\u00e9`. -/
structure FourDigits where
  a : HexDigit
  b : HexDigit
  c : HexDigit
  d : HexDigit

def FourDigits.digits (q : FourDigits) : List HexDigit := [q.a, q.b, q.c, q.d]

theorem FourDigits.number_le (q : FourDigits) : number q.digits ≤ 0x10FFFF := by
  have h : number q.digits < 16 ^ 4 := number_lt q.digits
  omega

/-! ## Pieces -/

/-- The letters that stand for control characters behind a backslash, each with the character. -/
def controls : List (Char × Char) :=
  [('n', '\n'), ('t', '\t'), ('r', '\r'), ('b', '\x08'), ('f', '\x0c'), ('v', '\x0b'),
    ('0', '\x00')]

/-- The ends of lines, as they stand behind a backslash. -/
def lineBreaks : List Text :=
  [[.scalar '\n'], [.scalar '\r', .scalar '\n'], [.scalar '\r'], [.scalar '\u2028'],
    [.scalar '\u2029']]

/-- The code points that do not stand for themselves behind a backslash, or not always. -/
def reserved : Text :=
  ['n', 't', 'r', 'b', 'f', 'v', '0', 'u', 'x', '\n', '\r', '\u2028', '\u2029'].map .scalar

def inBraces (ds : List HexDigit) : Text :=
  .scalar '\\' :: .scalar 'u' :: .scalar '\x7b' :: (ds.map HexDigit.char ++ [.scalar '\x7d'])

inductive Piece where
  | plain (p : CodePoint) (h : p ≠ .scalar '\\')
  | control (letter meaning : Char) (h : (letter, meaning) ∈ controls)
  /-- Two digits, as in `\xe9`. -/
  | byte (a b : HexDigit)
  | short (q : FourDigits)
  /-- Digits in braces, as many as one likes. -/
  | braced (ds : List HexDigit) (hne : ds ≠ []) (h : number ds ≤ 0x10FFFF)
  /-- A code point that is escaped for nothing. -/
  | itself (p : CodePoint) (h : p ∉ reserved)
  | continuation (lineBreak : Text) (h : lineBreak ∈ lineBreaks)

namespace Piece

def written : Piece → Text
  | plain p _ => [p]
  | control letter _ _ => [.scalar '\\', .scalar letter]
  | byte a b => [.scalar '\\', .scalar 'x', a.char, b.char]
  | short q => .scalar '\\' :: .scalar 'u' :: q.digits.map HexDigit.char
  | braced ds _ _ => inBraces ds
  | itself p _ => [.scalar '\\', p]
  | continuation lineBreak _ => .scalar '\\' :: lineBreak

def value : Piece → Text
  | plain p _ | itself p _ => [p]
  | control _ meaning _ => [.scalar meaning]
  | byte a b => [.ofNat (number [a, b]) (by have h : number [a, b] < 16 ^ 2 := number_lt _; omega)]
  | short q => [.ofNat (number q.digits) q.number_le]
  | braced ds _ h => [.ofNat (number ds) h]
  | continuation _ _ => []

/-- A line feed would become part of the line break before it. -/
def Merges (x y : Piece) : Prop :=
  x.written = [.scalar '\\', .scalar '\r'] ∧ y.written = [.scalar '\n']

end Piece

/-! ## Escapes one by one -/

theorem unescapeFrom_of_ne {q : CodePoint} (hq : q ≠ .scalar '\\') (t : Text) :
    unescapeFrom 0 (q :: t) = (q :: ·) <$> unescapeFrom 0 t := by
  rw [unescapeFrom.eq_def]
  exact if_neg hq

theorem unescapeFrom_of_longEscape? {w t v : Text}
    (h : longEscape? (w ++ t) = some (.ok v, w.length)) :
    unescapeFrom 0 (.scalar '\\' :: (w ++ t)) = (v ++ ·) <$> unescapeFrom 0 t := by
  have hskip : unescapeFrom w.length (w ++ t) = unescapeFrom 0 t := by
    clear h
    induction w with
    | nil => rfl
    | cons q w ih => exact ih
  rw [unescapeFrom.eq_def]
  dsimp only
  rw [if_pos rfl, h, ← hskip]
  rfl

/-- Only a few code points start an escape that is longer than one of them. -/
theorem longEscape?_eq_none {p : CodePoint} {t : Text} (hu : p ≠ .scalar 'u') (hx : p ≠ .scalar 'x')
    (hreturn : p = .scalar '\r' → t.head? ≠ some (.scalar '\n')) : longEscape? (p :: t) = none := by
  rw [longEscape?.eq_def]
  split <;> simp_all

theorem unescapeFrom_simple {p : CodePoint} {t : Text} (h : longEscape? (p :: t) = none) :
    unescapeFrom 0 (.scalar '\\' :: p :: t) = (simpleEscape p ++ ·) <$> unescapeFrom 0 t := by
  rw [unescapeFrom.eq_def]
  dsimp only
  rw [if_pos rfl, h]
  rfl

theorem isHexDigit_of_mem_map_char (ds : List HexDigit) :
    ∀ p ∈ ds.map HexDigit.char, isHexDigit p = true := by
  simp only [List.mem_map, forall_exists_index, and_imp, forall_apply_eq_imp_iff₂]
  exact fun d _ => d.isHexDigit_char

theorem takeWhile_digits (ds : List HexDigit) (t : Text) :
    (ds.map HexDigit.char ++ .scalar '\x7d' :: t).takeWhile isHexDigit = ds.map HexDigit.char := by
  rw [List.takeWhile_append_of_pos (isHexDigit_of_mem_map_char ds),
    List.takeWhile_cons_of_neg (by decide), List.append_nil]

theorem longEscape?_byte (a b : HexDigit) (t : Text) :
    longEscape? (.scalar 'x' :: a.char :: b.char :: t) = some (.ok (Piece.byte a b).value, 3) := by
  have hdigits : (isHexDigit a.char && isHexDigit b.char) = true := by
    rw [a.isHexDigit_char, b.isHexDigit_char]
    rfl
  have hvalue : hexValue [a.char, b.char] = number [a, b] := hexValue_map_char [a, b]
  refine (if_pos hdigits).trans ?_
  rw [hvalue, CodePoint.ofNat?_eq_some]
  rfl

theorem longEscape?_fourDigits (q : FourDigits) (t : Text) :
    longEscape? (.scalar 'u' :: (q.digits.map HexDigit.char ++ t)) =
      some (.ok (Piece.short q).value, 5) := by
  have hbrace : q.a.char ≠ .scalar '\x7b' := by
    intro he
    have h := q.a.isHexDigit_char
    rw [he] at h
    exact absurd h (by decide)
  have hdigits : [q.a.char, q.b.char, q.c.char, q.d.char].all isHexDigit = true := by
    simp [HexDigit.isHexDigit_char]
  have hvalue : hexValue [q.a.char, q.b.char, q.c.char, q.d.char] = number q.digits :=
    hexValue_map_char q.digits
  refine (longEscape?.eq_2 _ _ _ _ t hbrace).trans ((if_pos hdigits).trans ?_)
  rw [hvalue, CodePoint.ofNat?_eq_some]
  rfl

/-- A number in braces, whatever its size. -/
theorem longEscape?_braces {ds : List HexDigit} (hne : ds ≠ []) (t : Text) :
    longEscape? (.scalar 'u' :: .scalar '\x7b' :: (ds.map HexDigit.char ++ .scalar '\x7d' :: t)) =
      some (if 0x80000000 ≤ number ds then .error .codePointTooLarge
        else .ok ((CodePoint.ofNat? (number ds)).elim (inBraces ds) fun p => [p]), ds.length +
        3) := by
  have hclosed : ds.map HexDigit.char ≠ [] ∧
      ((ds.map HexDigit.char ++ .scalar '\x7d' :: t).drop (ds.map HexDigit.char).length).head? =
        some (.scalar '\x7d') := by
    rw [List.drop_left]
    exact ⟨by simpa using hne, rfl⟩
  rw [longEscape?.eq_1, takeWhile_digits, if_pos hclosed, hexValue_map_char, List.length_map]
  dsimp only
  cases CodePoint.ofNat? (number ds) <;> rfl

namespace Piece

theorem written_ne_nil (x : Piece) : x.written ≠ [] := by
  cases x <;> exact List.cons_ne_nil _ _

/-- A piece that starts with a line feed is one. -/
theorem written_of_head? {x : Piece} (h : x.written.head? = some (.scalar '\n')) :
    x.written = [.scalar '\n'] := by
  cases x with
  | plain p _ => exact congrArg (fun p => [p]) (Option.some.inj h)
  | control | byte | short | braced | itself | continuation =>
    exact absurd (Option.some.inj h) (by decide)

/-- A carriage return behind a backslash stands for nothing. -/
theorem value_ne_of_return {x : Piece} (h : x.written = [.scalar '\\', .scalar '\r']) (c : Char) :
    x.value ≠ [.scalar c] := by
  cases x with
  | continuation => exact nofun
  | control letter meaning hcontrol =>
    obtain rfl : letter = '\r' := by simpa [written] using h
    exact absurd hcontrol (by simp [controls])
  | itself p hp =>
    obtain rfl : p = .scalar '\r' := by simpa [written] using h
    exact absurd (by decide) hp
  | plain | byte | short | braced => simp [written, inBraces, FourDigits.digits] at h

theorem simpleEscape_control {letter meaning : Char} (h : (letter, meaning) ∈ controls) (t : Text) :
    longEscape? (.scalar letter :: t) = none ∧
      simpleEscape (.scalar letter) = [.scalar meaning] := by
  have hall : ∀ x ∈ controls, x.1 ≠ 'u' ∧ x.1 ≠ 'x' ∧ x.1 ≠ '\r' ∧
      simpleEscape (.scalar x.1) = [.scalar x.2] := by
    decide
  obtain ⟨hu, hx, hreturn, hmeaning⟩ := hall _ h
  refine ⟨longEscape?_eq_none ?_ ?_ ?_, hmeaning⟩
  · simpa using hu
  · simpa using hx
  · simp [hreturn]

theorem simpleEscape_itself {p : CodePoint} (h : p ∉ reserved) (t : Text) :
    longEscape? (p :: t) = none ∧ simpleEscape p = [p] := by
  have hne : ∀ c, .scalar c ∈ reserved → p ≠ .scalar c := fun c hc he => h (he ▸ hc)
  refine ⟨longEscape?_eq_none (hne 'u' (by decide)) (hne 'x' (by decide)) ?_, ?_⟩
  · exact fun he => absurd he (hne '\r' (by decide))
  · rw [simpleEscape.eq_def]
    split <;> first | rfl | exact absurd rfl (hne _ (by decide))

/-- Behind a piece the text goes on as it would alone. -/
theorem unescapeFrom_written (x : Piece) {t : Text}
    (ht : x.written = [.scalar '\\', .scalar '\r'] → t.head? ≠ some (.scalar '\n')) :
    unescapeFrom 0 (x.written ++ t) = (x.value ++ ·) <$> unescapeFrom 0 t := by
  cases x with
  | plain p h => exact unescapeFrom_of_ne h t
  | control letter meaning h =>
    obtain ⟨hlong, hmeaning⟩ := simpleEscape_control h t
    exact (unescapeFrom_simple hlong).trans (by rw [hmeaning]; rfl)
  | byte a b =>
    exact unescapeFrom_of_longEscape? (w := [.scalar 'x', a.char, b.char]) (longEscape?_byte a b t)
  | short q =>
    exact unescapeFrom_of_longEscape? (w := .scalar 'u' :: q.digits.map HexDigit.char)
      (longEscape?_fourDigits q t)
  | braced ds hne h =>
    have hlong := longEscape?_braces hne t
    rw [if_neg (by omega), CodePoint.ofNat?_eq_some _ h] at hlong
    refine unescapeFrom_of_longEscape?
      (w := .scalar 'u' :: .scalar '\x7b' :: (ds.map HexDigit.char ++ [.scalar '\x7d'])) ?_
    simpa [value, Nat.add_assoc] using hlong
  | itself p h =>
    obtain ⟨hlong, hitself⟩ := simpleEscape_itself h t
    exact (unescapeFrom_simple hlong).trans (by rw [hitself]; rfl)
  | continuation lineBreak h =>
    have hbreaks : lineBreak = [.scalar '\r', .scalar '\n'] ∨
        ∃ c, lineBreak = [.scalar c] ∧ simpleEscape (.scalar c) = [] ∧ c ≠ 'u' ∧ c ≠ 'x' := by
      simp only [lineBreaks, List.mem_cons, List.not_mem_nil, or_false] at h
      rcases h with rfl | rfl | rfl | rfl | rfl
      all_goals first | exact .inl rfl | exact .inr ⟨_, rfl, rfl, by decide, by decide⟩
    rcases hbreaks with rfl | ⟨c, rfl, hvalue, hu, hx⟩
    · exact unescapeFrom_of_longEscape? (w := [.scalar '\r', .scalar '\n']) (longEscape?.eq_4 t)
    · refine (unescapeFrom_simple
        (longEscape?_eq_none (by simpa using hu) (by simpa using hx) fun he => ?_)).trans ?_
      · exact ht (by rw [written, he])
      · rw [hvalue]
        rfl

end Piece

/-! ## Raw texts -/

structure Body where
  pieces : List Piece
  /-- No line feed follows that would become part of the line break before it. -/
  apart : pieces.IsChain fun x y => ¬ x.Merges y

namespace Body

def written (b : Body) : Text := b.pieces.flatMap Piece.written

def value (b : Body) : Text := b.pieces.flatMap Piece.value

theorem unescape_written (b : Body) : unescape b.written = .ok b.value := by
  obtain ⟨pieces, apart⟩ := b
  rw [unescape, written, value]
  induction pieces with
  | nil => rfl
  | cons x pieces ih =>
    have hnext : x.written = [.scalar '\\', .scalar '\r'] →
        (pieces.flatMap Piece.written).head? ≠ some (.scalar '\n') := by
      intro hx hfeed
      cases pieces with
      | nil => exact absurd hfeed (by decide)
      | cons y pieces =>
        rw [List.flatMap_cons, List.head?_append_of_ne_nil _ y.written_ne_nil] at hfeed
        exact (List.isChain_cons_cons.mp apart).1 ⟨hx, Piece.written_of_head? hfeed⟩
    have hpieces := ih apart.tail
    dsimp only at hpieces ⊢
    rw [List.flatMap_cons, List.flatMap_cons, x.unescapeFrom_written hnext, hpieces]
    rfl

end Body

/-- Pieces among which there is no carriage return behind a backslash follow each other in any
way. -/
theorem unescape_flatMap_written {α : Type} {f : α → Piece}
    (h : ∀ a, (f a).written ≠ [.scalar '\\', .scalar '\r']) (xs : List α) :
    unescape (xs.flatMap fun a => (f a).written) = .ok (xs.flatMap fun a => (f a).value) := by
  have hapart : (xs.map f).IsChain fun x y => ¬ x.Merges y := by
    rw [List.isChain_map]
    exact (List.pairwise_of_forall fun a _ hmerges => h a hmerges.1).isChain
  have hbody := (Body.mk (xs.map f) hapart).unescape_written
  rw [Body.written, Body.value, List.flatMap_map, List.flatMap_map] at hbody
  exact hbody

def doubled (t : Text) : Text := t.flatMap fun p => if p = .scalar '\\' then [p, p] else [p]

/-- The piece for a code point: a backslash is escaped for nothing, so that it stands for itself. -/
def Piece.ofCodePoint (p : CodePoint) : Piece :=
  if h : p = .scalar '\\' then .itself p (by rw [h]; decide) else .plain p h

theorem unescape_doubled (t : Text) : unescape (doubled t) = .ok t := by
  have hwritten : ∀ p, (Piece.ofCodePoint p).written = if p = .scalar '\\' then [p, p]
      else [p] := by
    intro p
    rw [Piece.ofCodePoint]
    split
    · next h =>
      subst h
      rfl
    · rfl
  have hvalue : ∀ p, (Piece.ofCodePoint p).value = [p] := by
    intro p
    rw [Piece.ofCodePoint]
    split <;> rfl
  have hreturn : ∀ p, (Piece.ofCodePoint p).written ≠ [.scalar '\\', .scalar '\r'] := by
    intro p
    rw [hwritten]
    split
    · next h =>
      rw [h]
      decide
    · simp
  have hpieces := unescape_flatMap_written hreturn t
  simp only [hwritten, hvalue, List.flatMap_singleton'] at hpieces
  exact hpieces

/-- A raw text stands for what its pieces stand for, in their order.  A text whose backslashes are
written twice stands for the text. -/
theorem unescape_by_pieces (b : Body) (t : Text) :
    unescape b.written = .ok b.value ∧ unescape (doubled t) = .ok t :=
  ⟨b.unescape_written, unescape_doubled t⟩

/-! A backslash before an `n`, digits behind an escape that is complete, and a line feed behind
another line break. -/

example :
    unescape "\\\\n\\x4a4a\\u00e94\\u\x7b000041\x7d1\\\r\n\n" = .ok "\\nJ4aé4A1\n" := by decide

end Script
end StepAtlas
