import StepAtlas.Proofs.Script.Escapes

/-
The canonical layout of step-definition files.  A registration is one line with the name of a
registering function, the text in a string literal and an empty function.  The text may be any
characters: in the literal a backslash and the quote are escaped by a backslash, and a control
character is spelled with digits, in either of two lengths.

A literal that is written so ends where it was ended, and its escapes give the text back.
-/

namespace StepAtlas
namespace Script

inductive Registrar where
  | given | when | then | defineStep | step
deriving DecidableEq, Repr

namespace Registrar

def name : Registrar → String
  | .given => "Given"
  | .when => "When"
  | .then => "Then"
  | .defineStep => "defineStep"
  | .step => "Step"

def keyword : Registrar → DefinitionKeyword
  | .given => .given
  | .when => .when
  | .then => .then
  | .defineStep | .step => .any

theorem lookup_standard (f : Registrar) :
    Registry.standard.lookup (Text.ofString f.name) = some f.keyword := by
  cases f <;> decide

end Registrar

def isControl (c : Char) : Bool := c.toNat < 0x20 || (0x7F ≤ c.toNat && c.toNat < 0xA0)

def hexPair (capital : Bool) (c : Char) : List Char :=
  [hexDigit capital (c.toNat / 16), hexDigit capital (c.toNat % 16)]

/-- A character of a text.  Should it be a control character, then `long` says that it is spelled
with four digits and not with two, and `capital` that its digits are in capitals. -/
structure Letter where
  char : Char
  long : Bool
  capital : Bool

def Letter.written (l : Letter) : List Char :=
  if l.char = '\\' ∨ l.char = '\'' then ['\\', l.char]
  else if isControl l.char then
    (if l.long then ['\\', 'u', '0', '0'] else ['\\', 'x']) ++ hexPair l.capital l.char
  else [l.char]

def quoted (body : List Char) : List Char := '\'' :: body ++ ['\'']

def emptyFunction : List Char := ['(', ')', ' ', '=', '>', ' ', '\x7b', '\x7d']

/-- The arguments of a registration, with the string literal by its raw text. -/
def argumentsOf (body : List Char) : List Char :=
  '(' :: (quoted body ++ ',' :: ' ' :: (emptyFunction ++ [')']))

structure Registration where
  function : Registrar
  letters : List Letter

namespace Registration

def text (r : Registration) : Text := Text.ofChars (r.letters.map Letter.char)

def body (r : Registration) : List Char := r.letters.flatMap Letter.written

def call (r : Registration) : List Char := r.function.name.toList ++ argumentsOf r.body

/-- The definition of a registration that is written on a line.  It spans the call, from the start
of the line to the byte behind the closing parenthesis. -/
def definition (source : Path) (line : Nat) (r : Registration) : Definition :=
  { pattern := r.text
    kind := .expression
    keyword := r.function.keyword
    source
    span := ⟨line, 0, line, (Text.ofChars r.call).utf8Size⟩
    function := Text.ofString r.function.name
    flags := none }

end Registration

/-- The script of some registrations, one on each line; `ended` says whether the last line is ended
too. -/
def scriptOf (ended : Bool) : List Registration → List Char
  | [] => []
  | r :: rs => r.call ++ ';' :: (if rs.isEmpty && !ended then [] else '\n' :: scriptOf ended rs)

/-! ## The ways to spell a character -/

def isPlain (c : Char) : Bool := c ≠ '\\' && c ≠ '\'' && c ≠ '\n' && c ≠ '\r'

inductive Spelling : Char → List Char → Prop
  | plain {c : Char} (h : isPlain c = true) : Spelling c [c]
  | escaped {c : Char} (h : c = '\\' ∨ c = '\'') : Spelling c ['\\', c]
  | short {c : Char} (h : c.toNat < 160) (capital : Bool) :
      Spelling c ('\\' :: 'x' :: hexPair capital c)
  | long {c : Char} (h : c.toNat < 160) (capital : Bool) :
      Spelling c ('\\' :: 'u' :: '0' :: '0' :: hexPair capital c)

theorem Letter.spelling (l : Letter) : Spelling l.char l.written := by
  rw [written]
  split
  · next h => exact .escaped h
  · next hne =>
    split
    · next h =>
      have hlt : l.char.toNat < 160 := by
        simp only [isControl, Bool.or_eq_true, Bool.and_eq_true, decide_eq_true_eq] at h
        omega
      split
      · exact .long hlt l.capital
      · exact .short hlt l.capital
    · next h =>
      have hcontrol : isControl '\n' = true ∧ isControl '\r' = true := by decide
      refine .plain ?_
      simp only [isPlain, Bool.and_eq_true, decide_eq_true_eq]
      refine ⟨⟨⟨fun e => hne (.inl e), fun e => hne (.inr e)⟩, fun e => h ?_⟩, fun e => h ?_⟩
      · exact e ▸ hcontrol.1
      · exact e ▸ hcontrol.2

/-! ## Where a literal ends -/

def prepend (w : List Char) (v : Option (List Char × List Char)) : Option (List Char × List Char) :=
  v.map fun (body, r) => (w ++ body, r)

/-- Characters that a string literal can hold in a row, whatever comes behind them. -/
def Quotable (w : List Char) : Prop :=
  ∀ t, stringBody? '\'' (w ++ t) = prepend w (stringBody? '\'' t)

namespace Quotable

theorem nil : Quotable [] := by
  intro t
  simp [prepend]

theorem append {w v : List Char} (hw : Quotable w) (hv : Quotable v) : Quotable (w ++ v) := by
  intro t
  rw [List.append_assoc, hw, hv]
  simp [prepend, Function.comp_def]

theorem plain {c : Char} (hc : isPlain c = true) : Quotable [c] := by
  intro t
  simp only [isPlain, Bool.and_eq_true, decide_eq_true_eq] at hc
  obtain ⟨⟨⟨hslash, hquote⟩, hfeed⟩, hreturn⟩ := hc
  rw [List.singleton_append, stringBody?.eq_def]
  split <;> simp_all [prepend]

/-- Where the quote comes, the literal ends. -/
theorem stringBody? {w : List Char} (hw : Quotable w) (t : List Char) :
    stringBody? '\'' (w ++ '\'' :: t) = some (w, t) := by
  rw [hw]
  simp [Script.stringBody?, prepend]

theorem flatMap {α : Type} {f : α → List Char} (h : ∀ a, Quotable (f a)) (l : List α) :
    Quotable (l.flatMap f) := by
  induction l with
  | nil => exact nil
  | cons a l ih => exact (h a).append ih

end Quotable

theorem isPlain_hexDigit (capital : Bool) : ∀ n < 16, isPlain (hexDigit capital n) = true := by
  cases capital <;> decide

theorem isPlain_of_mem_hexPair {c : Char} (h : c.toNat < 160) (capital : Bool) :
    ∀ x ∈ hexPair capital c, isPlain x = true := by
  simp only [hexPair, List.forall_mem_cons]
  exact ⟨isPlain_hexDigit _ _ (by omega), isPlain_hexDigit _ _ (by omega), nofun⟩

theorem Quotable.hexPair {c : Char} (h : c.toNat < 160) (capital : Bool) :
    Quotable (hexPair capital c) := by
  have hplain := isPlain_of_mem_hexPair h capital
  exact (plain (hplain _ (.head _))).append (plain (hplain _ (.tail _ (.head _))))

theorem Spelling.quotable {c : Char} {w : List Char} (h : Spelling c w) : Quotable w := by
  cases h with
  | plain h => exact .plain h
  | escaped h => rcases h with rfl | rfl <;> exact fun _ => rfl
  | short h capital =>
    have hx : Quotable ['\\', 'x'] := fun _ => rfl
    exact hx.append (.hexPair h capital)
  | long h capital =>
    have hu : Quotable ['\\', 'u'] := fun _ => rfl
    have hzero : Quotable ['0'] := .plain (by decide)
    exact hu.append (hzero.append (hzero.append (.hexPair h capital)))

theorem Registration.quotable_body (r : Registration) : Quotable r.body :=
  Quotable.flatMap (fun l => l.spelling.quotable) r.letters

/-! ## What a literal stands for -/

/-- However a character is spelled, it is a piece that stands for it. -/
theorem Spelling.exists_piece {c : Char} {w : List Char} (h : Spelling c w) :
    ∃ x : Piece, x.written = Text.ofChars w ∧ x.value = [.scalar c] := by
  cases h with
  | plain h =>
    refine ⟨.plain (.scalar c) fun e => ?_, rfl, rfl⟩
    cases e
    exact absurd h (by decide)
  | escaped h => rcases h with rfl | rfl <;> exact ⟨.itself _ (by decide), rfl, rfl⟩
  | short h capital =>
    let a : HexDigit := ⟨⟨c.toNat / 16, by omega⟩, capital⟩
    let b : HexDigit := ⟨⟨c.toNat % 16, by omega⟩, capital⟩
    have hnumber : number [a, b] = c.toNat := by
      simp [number, Nat.ofDigits_cons, a, b]
      omega
    exact ⟨.byte a b, rfl, congrArg (fun p => [p]) (CodePoint.ofNat_eq _ hnumber)⟩
  | long h capital =>
    let zero : HexDigit := ⟨0, false⟩
    let a : HexDigit := ⟨⟨c.toNat / 16, by omega⟩, capital⟩
    let b : HexDigit := ⟨⟨c.toNat % 16, by omega⟩, capital⟩
    have hnumber : number [zero, zero, a, b] = c.toNat := by
      simp [number, Nat.ofDigits_cons, zero, a, b]
      omega
    exact ⟨.short ⟨zero, zero, a, b⟩, rfl, congrArg (fun p => [p]) (CodePoint.ofNat_eq _ hnumber)⟩

theorem Spelling.unescapeFrom {c : Char} {w : List Char} (h : Spelling c w) (t : Text) :
    unescapeFrom 0 (Text.ofChars w ++ t) = (.scalar c :: ·) <$> unescapeFrom 0 t := by
  obtain ⟨x, hwritten, hvalue⟩ := h.exists_piece
  rw [← hwritten, x.unescapeFrom_written, hvalue]
  · rfl
  · -- a line break would stand for nothing
    intro hreturn
    exact absurd hvalue (Piece.value_ne_of_return hreturn c)

theorem Registration.unescape_body (r : Registration) :
    unescape (Text.ofChars r.body) = .ok r.text := by
  rw [unescape, body, text]
  induction r.letters with
  | nil => rfl
  | cons l letters ih =>
    have hl := l.spelling.unescapeFrom (Text.ofChars (letters.flatMap Letter.written))
    rw [ih] at hl
    rw [List.flatMap_cons, Text.ofChars, List.map_append]
    exact hl

/-! ## Where a call ends -/

theorem Place.afterAll_of_not_mem {cs : List Char} (h : '\n' ∉ cs) (p : Place) :
    p.afterAll cs = { p with column := p.column + (Text.ofChars cs).utf8Size } := by
  induction cs generalizing p with
  | nil => rfl
  | cons c cs ih =>
    obtain ⟨hc, hcs⟩ : '\n' ≠ c ∧ '\n' ∉ cs := by simpa using h
    rw [show p.afterAll (c :: cs) = (p.after c).afterAll cs from rfl, ih hcs, Place.after,
      if_neg hc.symm]
    simp only [Text.ofChars, List.map_cons, Text.utf8Size, List.foldr_cons, CodePoint.utf8Size,
      Nat.add_assoc]

theorem Spelling.not_mem {c : Char} {w : List Char} (h : Spelling c w) : '\n' ∉ w := by
  have hplain : ¬isPlain '\n' = true := by decide
  cases h with
  | plain h => exact fun hm => hplain (List.mem_singleton.mp hm ▸ h)
  | escaped h => rcases h with rfl | rfl <;> decide
  | short h capital =>
    have hpair : '\n' ∉ hexPair capital c :=
      fun hm => hplain (isPlain_of_mem_hexPair h capital _ hm)
    simp [hpair]
  | long h capital =>
    have hpair : '\n' ∉ hexPair capital c :=
      fun hm => hplain (isPlain_of_mem_hexPair h capital _ hm)
    simp [hpair]

theorem Registration.not_mem_call (r : Registration) : '\n' ∉ r.call := by
  have hname : '\n' ∉ r.function.name.toList := by cases r.function <;> decide
  have hbody : '\n' ∉ r.body := by
    simp only [body, List.mem_flatMap, not_exists, not_and]
    exact fun l _ => l.spelling.not_mem
  have hfunction : '\n' ∉ emptyFunction := by decide
  simp [call, argumentsOf, quoted, hname, hbody, hfunction]

end Script
end StepAtlas
