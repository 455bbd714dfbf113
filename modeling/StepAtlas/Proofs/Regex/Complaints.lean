import Mathlib.Algebra.Group.Nat.Defs
import Mathlib.Data.List.Induction
import Mathlib.Data.List.Infix
import Mathlib.Data.Option.Basic
import StepAtlas.Proofs.Regex.Reading
import StepAtlas.Proofs.Text

/-
What reading a pattern complains about.

Three failures to read a pattern are no complaints about it: a count that is too large or too long,
and two repertoires at once.  A count has to be spelled out and a repertoire has to be chosen by
inline flags, so a pattern of moderate form has neither.  What a complaint repeats comes from the
pattern, and a complaint about a pattern without brackets has no bracket in it.  Each reader gets
one specification, which says that it keeps its place in the pattern and fails with such a complaint
only.
-/

open Std.Do

set_option mvcgen.warning false

namespace StepAtlas

/-! ## Brackets -/

/-- The second text holds a bracket only if the first one does. -/
def BracketsFrom (t e : Text) : Prop := .scalar '[' ∈ e → .scalar '[' ∈ t

namespace BracketsFrom

variable {t : Text}

theorem self (t : Text) : BracketsFrom t t := id

theorem of_subset {e : Text} (h : ∀ p ∈ e, p ∈ t) : BracketsFrom t e := h _

theorem of_string {cs : List Char} (h : '[' ∉ cs) :
    BracketsFrom t (Text.ofString (String.ofList cs)) := by
  rw [Text.ofString, String.toList_ofList]
  intro hmem
  obtain ⟨c, hc, heq⟩ := List.mem_map.mp hmem
  cases heq
  exact absurd hc h

@[simp, grind =]
theorem append_iff {a b : Text} :
    BracketsFrom t (a ++ b) ↔ BracketsFrom t a ∧ BracketsFrom t b := by
  simp only [BracketsFrom, List.mem_append, or_imp]

@[simp, grind =]
theorem cons_iff {p : CodePoint} {e : Text} :
    BracketsFrom t (p :: e) ↔ (p = .scalar '[' → .scalar '[' ∈ t) ∧ BracketsFrom t e := by
  simp only [BracketsFrom, List.mem_cons, eq_comm (a := CodePoint.scalar '['), or_imp]

theorem append {a b : Text} (ha : BracketsFrom t a) (hb : BracketsFrom t b) :
    BracketsFrom t (a ++ b) :=
  append_iff.mpr ⟨ha, hb⟩

@[simp, grind .]
theorem nil : BracketsFrom t [] := nofun

theorem hex (width n : Nat) : BracketsFrom t (Text.hex width n) := by
  induction width generalizing n with
  | zero => exact nil
  | succ width ih =>
    have hdigit : ∀ k < 16, Text.hexDigit k ≠ '[' := by decide
    rw [Text.hex, append_iff]
    refine ⟨ih _, cons_iff.mpr ⟨fun h => ?_, nil⟩⟩
    exact absurd (CodePoint.scalar.inj h) (hdigit _ (Nat.mod_lt _ (by decide)))

theorem quotedPoint {p : CodePoint} (h : BracketsFrom t [p]) (quote : Char) :
    BracketsFrom t (Text.quotedPoint quote p) := by
  unfold Text.quotedPoint
  split
  · simpa using h
  · split
    case h_5 =>
      split
      · exact h
      · -- The escapes are made of a letter and hexadecimal digits.
        dsimp only
        split
        · exact append (of_string (by decide)) (hex _ _)
        · split
          · exact append (of_string (by decide)) (hex _ _)
          · exact append (of_string (by decide)) (hex _ _)
    all_goals exact of_string (by decide)

theorem quoted {e : Text} (h : BracketsFrom t e) : BracketsFrom t (Text.quoted e) := by
  have hquote : BracketsFrom t [.scalar (Text.quoteFor e)] := by
    unfold Text.quoteFor
    split <;> simp
  have hpoints : BracketsFrom t (e.flatMap (Text.quotedPoint (Text.quoteFor e))) := by
    intro hmem
    obtain ⟨p, hp, hmem⟩ := List.mem_flatMap.mp hmem
    exact quotedPoint (fun hq => h (List.mem_singleton.mp hq ▸ hp)) _ hmem
  exact append (append hquote hpoints) hquote

theorem ofNat (n : Nat) : BracketsFrom t (Text.ofNat n) := by
  intro hmem
  obtain ⟨c, hc, heq⟩ := Text.mem_ofNat hmem
  cases heq
  exact absurd hc (by decide)

end BracketsFrom

namespace Regex

/-! ## Complaints -/

@[grind]
def Complaint.quotes : Complaint → List Text
  | .missing what => [what]
  | .unterminatedName p => [[p]]
  | .badGroupName name | .unknownCharacterName name | .unknownGroup name | .nameTaken name _ _ =>
    [name]
  | .incompleteEscape e | .octalTooLarge e | .badEscape e | .unknownExtension e => [e]
  | .badRange lo hi => [lo, hi]
  | _ => []

theorem Complaint.bracketsFrom_message {t : Text} {c : Complaint}
    (h : ∀ e ∈ c.quotes, BracketsFrom t e) :
    BracketsFrom t c.message := by
  cases c
  case missing what | incompleteEscape e | badEscape e | unknownExtension e =>
    exact .append (.of_string (by decide)) (h _ (List.mem_singleton_self _))
  case badGroupName name | unknownCharacterName name | unknownGroup name =>
    exact .append (.of_string (by decide)) (h _ (List.mem_singleton_self _)).quoted
  case unterminatedName p =>
    exact .append (.append (.of_string (by decide)) (h _ (List.mem_singleton_self _)))
      (.of_string (by decide))
  case octalTooLarge e =>
    exact .append (.append (.of_string (by decide)) (h _ (List.mem_singleton_self _)))
      (.of_string (by decide))
  case noSuchGroup n => exact .append (.of_string (by decide)) (.ofNat n)
  case badRange lo hi =>
    have hlo : BracketsFrom t lo := h _ List.mem_cons_self
    have hhi : BracketsFrom t hi := h _ (List.mem_cons_of_mem _ (List.mem_singleton_self _))
    exact .append (.append (.append (.of_string (by decide)) hlo) (.of_string (by decide))) hhi
  case nameTaken name n m =>
    have hname : BracketsFrom t name := h _ (List.mem_singleton_self _)
    exact .append
      (.append (.append (.append (.append (.of_string (by decide)) hname.quoted)
        (.of_string (by decide)))
      (.ofNat n)) (.of_string (by decide))) (.ofNat m)
  all_goals exact .of_string (by decide)

theorem bracketsFrom_placedMessage {t pattern : Text} {c : Complaint}
    (h : ∀ e ∈ c.quotes, BracketsFrom t e) (place : Option Nat) :
    BracketsFrom t (placedMessage pattern c place) := by
  have hmessage := Complaint.bracketsFrom_message h
  cases place with
  | none => exact hmessage
  | some pos =>
    have htold : BracketsFrom t (c.message ++ " at position " ++ Text.ofNat pos) :=
      .append (.append hmessage (.of_string (by decide))) (.ofNat pos)
    rw [placedMessage]
    dsimp only
    split
    · exact .append (.append (.append (.append (.append htold (.of_string (by decide))) (.ofNat _))
        (.of_string (by decide))) (.ofNat _)) (.of_string (by decide))
    · exact htold

/-- A failure to read a pattern is a complaint, and what it repeats has brackets from the pattern
only. -/
def Failure.Told (t : Text) : Failure → Prop
  | .complaint c _ => ∀ e ∈ c.quotes, BracketsFrom t e
  | _ => False

/-! ## Patterns of moderate form -/

def opensFlags (t : Text) : Bool :=
  match t.take 3 with
  | [.scalar '(', .scalar '?', .scalar c] => c = '-' || (Flag.ofLetter? c).isSome
  | _ => false

/-- Nowhere in the text are there ten digits in a row or a group with inline flags. -/
def Moderate (t : Text) : Prop :=
  ∀ s, s <:+ t → (s.takeWhile (·.test Char.isDigit)).length < 10 ∧ opensFlags s = false

instance (t : Text) : Decidable (Moderate t) :=
  decidable_of_iff (∀ s ∈ t.tails, (s.takeWhile (·.test Char.isDigit)).length < 10 ∧
    opensFlags s = false)
    (by simp only [Moderate, List.mem_tails])

theorem moderate_cons_iff {p : CodePoint} {t : Text} :
    Moderate (p :: t) ↔
      (((p :: t).takeWhile (·.test Char.isDigit)).length < 10 ∧ opensFlags (p :: t) = false) ∧
      Moderate t := by
  simp only [Moderate, List.suffix_cons_iff, forall_eq_or_imp]

theorem Moderate.tail {p : CodePoint} {t : Text} (h : Moderate (p :: t)) : Moderate t :=
  (moderate_cons_iff.mp h).2

theorem Moderate.cons {p : CodePoint} {t : Text} (hp : p.test Char.isDigit = false)
    (hopens : opensFlags (p :: t) = false) (h : Moderate t) : Moderate (p :: t) := by
  refine moderate_cons_iff.mpr ⟨⟨?_, hopens⟩, h⟩
  rw [List.takeWhile_cons, hp]
  exact Nat.zero_lt_succ 9

theorem opensFlags_congr {s t : Text} (h : s.take 3 = t.take 3) : opensFlags s = opensFlags t := by
  rw [opensFlags, h, ← opensFlags]

namespace Reader

/-! ## Readers -/

/-- What the readers keep: they are at a place in the pattern, and the flags do not name two
repertoires. -/
structure Within (t : Text) (s : ReadState) : Prop where
  rest : s.rest <:+ t
  repertoire : (s.flags.contains .ascii && s.flags.contains .unicode) = false

def token? : Text → Option Text
  | [] => none
  | .scalar '\\' :: p :: _ => some [.scalar '\\', p]
  | p :: _ => some [p]

theorem token?_append_drop (u : Text) :
    (token? u).getD [] ++ u.drop ((token? u).getD []).length = u := by
  unfold token?
  split <;> rfl

@[grind =]
theorem isOne_eq_true_iff {p : Char → Bool} {token : Option Text} :
    isOne p token = true ↔ ∃ c, token = some [.scalar c] ∧ p c = true := by
  unfold isOne
  split
  · simp
  · rename_i hne
    refine iff_of_false Bool.false_ne_true ?_
    rintro ⟨c, rfl, -⟩
    exact hne c rfl

theorem Within.congr {t : Text} {s s' : ReadState} (h : Within t s) (hrest : s'.rest = s.rest)
    (hflags : s'.flags = s.flags) : Within t s' :=
  ⟨hrest ▸ h.rest, hflags ▸ h.repertoire⟩

theorem Within.bracketsFrom {t : Text} {s : ReadState} (h : Within t s) {e r : Text}
    (hs : s.rest = e ++ r) :
    BracketsFrom t e :=
  .of_subset fun _ hp => h.rest.subset (hs ▸ List.mem_append_left r hp)

theorem value_concat {c : Char} (hc : c.isDigit = true) (a : Text) :
    value 10 (a ++ [.scalar c]) = value 10 a * 10 + (c.toNat - '0'.toNat) := by
  simp only [value, List.foldl_append, List.foldl_cons, List.foldl_nil, hc, if_true]

theorem digit_le_nine {c : Char} (hc : c.isDigit = true) : c.toNat - '0'.toNat ≤ 9 := by
  rw [Char.isDigit, Bool.and_eq_true, decide_eq_true_eq, decide_eq_true_eq] at hc
  have hle : c.toNat ≤ '9'.toNat := UInt32.le_iff_toNat_le.mp hc.2
  exact Nat.sub_le_of_le_add hle

theorem value_lt_pow {a : Text} (h : ∀ q ∈ a, q.test Char.isDigit = true) :
    value 10 a < 10 ^ a.length := by
  induction a using List.reverseRecOn with
  | nil => decide
  | append_singleton a q ih =>
    have ha := ih fun p hp => h p (List.mem_append_left _ hp)
    cases q with
    | surrogate k => cases h _ (List.mem_append_right a List.mem_cons_self)
    | scalar c =>
      have hc : c.isDigit = true := h _ (List.mem_append_right a List.mem_cons_self)
      have hle := digit_le_nine hc
      rw [value_concat hc, List.length_append, List.length_singleton, Nat.pow_succ]
      omega

/-- A number in a pattern of moderate form is neither too long nor too large for a count. -/
theorem Within.count_ok {t : Text} (ht : Moderate t) {s : ReadState} (h : Within t s) {a r : Text}
    (hs : s.rest = a ++ r) (ha : ∀ q ∈ a, q.test Char.isDigit = true) :
    a.length ≤ Text.digitLimit ∧ value 10 a < 4294967295 := by
  have hlength : a.length < 10 := by
    have hprefix : a <+: s.rest.takeWhile (·.test Char.isDigit) := by
      rw [hs, List.takeWhile_append_of_pos ha]
      exact List.prefix_append a _
    exact hprefix.length_le.trans_lt (ht s.rest h.rest).1
  refine ⟨hlength.le.trans (by decide), ?_⟩
  calc value 10 a < 10 ^ a.length := value_lt_pow ha
    _ ≤ 10 ^ 9 := Nat.pow_le_pow_right (by decide) (by omega)
    _ < 4294967295 := by decide

section Specifications

variable {α : Type} {t : Text} {s₀ : ReadState}

/-- The reader keeps its place in the pattern and brings a result with a property, or it
complains. -/
abbrev Reads (t : Text) (r : Reader α) (A : α → Prop) : Prop :=
  ⦃fun s => ⌜Within t s⌝⦄ r ⦃post⟨fun a s => ⌜A a ∧ Within t s⌝, fun failure => ⌜failure.Told t⌝⟩⦄

theorem wp_iff {r : Reader α} {A : α → ReadState → Prop} {s : ReadState} :
    (wp⟦r⟧ post⟨fun a s => ⌜A a s⌝, fun failure => ⌜failure.Told t⌝⟩ s).down ↔
      match r.run s with
      | .ok (a, s') => A a s'
      | .error failure => failure.Told t := by
  show (wp⟦r.run s⟧ (fun x => ⌜A x.1 x.2⌝, fun failure => ⌜failure.Told t⌝, ())).down ↔ _
  cases r.run s <;> rfl

/-- What such a specification says of a run. -/
theorem triple_iff {r : Reader α} {P : ReadState → Prop} {A : α → ReadState → Prop} :
    ⦃fun s => ⌜P s⌝⦄ r ⦃post⟨fun a s => ⌜A a s⌝, fun failure => ⌜failure.Told t⌝⟩⦄ ↔
      ∀ s, P s → match r.run s with
        | .ok (a, s') => A a s'
        | .error failure => failure.Told t :=
  forall_congr' fun _ => imp_congr Iff.rfl wp_iff

@[spec]
theorem throw_spec {failure : Failure} (h : failure.Told t) :
    Reads t (throw failure : Reader α) fun _ => False :=
  triple_iff.mpr fun _ _ => h

@[spec]
theorem complain_spec {c : Complaint} {back : Nat} (h : ∀ e ∈ c.quotes, BracketsFrom t e) :
    Reads t (complain (α := α) c back) fun _ => False :=
  triple_iff.mpr fun _ _ => h

/-! ### Tokens and names -/

@[spec]
theorem peek_spec :
    ⦃fun s => ⌜s = s₀⌝⦄ peek
      ⦃post⟨fun a s => ⌜s = s₀ ∧ a = token? s₀.rest⌝, fun failure => ⌜failure.Told t⌝⟩⦄ := by
  mvcgen [peek]
  all_goals
    subst s₀
    simp_all [token?]

@[spec]
theorem checkNext_spec :
    ⦃fun s => ⌜s = s₀⌝⦄ checkNext ⦃post⟨fun _ s => ⌜s = s₀⌝, fun failure => ⌜failure.Told t⌝⟩⦄ := by
  refine triple_iff.mpr ?_
  rintro s rfl
  rw [checkNext, run_get_bind]
  by_cases h : s.rest = [.scalar '\\']
  · rw [if_pos h]
    intro e he
    cases he
  · rw [if_neg h]
    rfl

@[spec]
theorem next_spec (h : Within t s₀) :
    ⦃fun s => ⌜s = s₀⌝⦄ next
    ⦃post⟨fun a s => ⌜a = token? s₀.rest ∧ s₀.rest = a.getD [] ++ s.rest ∧
      BracketsFrom t (a.getD []) ∧ Within t s⌝,
      fun failure => ⌜failure.Told t⌝⟩⦄ := by
  mvcgen [next]
  rename_i s hs token n s' hpeek _ _ s'' hs''
  obtain ⟨rfl, rfl⟩ := hpeek
  subst hs hs''
  have hrest := (token?_append_drop s'.rest).symm
  refine ⟨rfl, hrest, h.bracketsFrom hrest, ?_⟩
  exact ⟨(List.drop_suffix _ _).trans h.rest, h.repertoire⟩

@[spec]
theorem accept_spec (h : Within t s₀) (c : Char) :
    ⦃fun s => ⌜s = s₀⌝⦄ accept c
    ⦃post⟨fun a s => ⌜s₀.rest = (if a then [.scalar c] else []) ++ s.rest ∧ Within t s⌝,
      fun failure => ⌜failure.Told t⌝⟩⦄ := by
  mvcgen [accept]
  all_goals grind

@[spec]
theorem takeUpTo_spec (h : Within t s₀) (p : Char → Bool) (n : Nat) :
    ⦃fun s => ⌜s = s₀⌝⦄ takeUpTo p n
    ⦃post⟨fun a s => ⌜s₀.rest = a ++ s.rest ∧ (∀ q ∈ a, q.test p = true) ∧ BracketsFrom t a ∧
      Within t s⌝,
      fun failure => ⌜failure.Told t⌝⟩⦄ := by
  induction n generalizing s₀ with
  | zero =>
    mvcgen [takeUpTo]
    grind
  | succ n ih =>
    mvcgen [takeUpTo, ih]
    all_goals grind [CodePoint.test]

@[spec]
theorem nameUntil_spec {terminator : Char} (hterm : terminator ≠ '[') {what : Text}
    (hwhat : BracketsFrom t what) {sofar : Text} (h : BracketsFrom t sofar) (fuel : Nat) :
    Reads t (nameUntil terminator what fuel sofar) (BracketsFrom t) := by
  induction fuel generalizing sofar with
  | zero => mvcgen [nameUntil]
  | succ n ih =>
    mvcgen [nameUntil, ih]
    all_goals grind

@[spec]
theorem readName_spec {terminator : Char} (hterm : terminator ≠ '[') {what : Text}
    (hwhat : BracketsFrom t what) :
    Reads t (readName terminator what) (BracketsFrom t) := by
  mvcgen [readName]
  all_goals grind

/-! ### Escapes and sets -/

@[spec]
theorem hexEscape_spec {escape : Text} (h : BracketsFrom t escape) (n : Nat) :
    Reads t (hexEscape escape n) fun _ => True := by
  mvcgen [hexEscape]
  all_goals grind

@[spec]
theorem namedEscape_spec : Reads t namedEscape fun _ => True := by
  have hbrace : BracketsFrom t (Text.ofString "\x7b") := .of_string (by decide)
  have hescape : BracketsFrom t (Text.ofString "\\N") := .of_string (by decide)
  have hname : BracketsFrom t (Text.ofString "character name") := .of_string (by decide)
  mvcgen [namedEscape]
  all_goals grind

@[spec]
theorem setEscape_spec {p : CodePoint} (hp : BracketsFrom t [p]) :
    Reads t (setEscape p) fun _ => True := by
  mvcgen [setEscape]
  all_goals grind

@[spec]
theorem checkLookbehind_spec (group : Nat) : Reads t (checkLookbehind group) fun _ => True := by
  mvcgen [checkLookbehind]
  all_goals grind

@[spec]
theorem numberedEscape_spec {c : Char} (hc : BracketsFrom t [.scalar c]) :
    Reads t (numberedEscape c) fun _ => True := by
  mvcgen [numberedEscape]
  all_goals grind

@[spec]
theorem escape_spec {p : CodePoint} (hp : BracketsFrom t [p]) :
    Reads t (escape p) fun _ => True := by
  mvcgen [escape]
  all_goals grind

@[spec]
theorem setMember_spec {token : Text} (h : BracketsFrom t token) :
    Reads t (setMember token) fun _ => True := by
  mvcgen [setMember]
  all_goals grind

@[spec]
theorem setMembers_spec (here fuel : Nat) (items : List SetItem) :
    Reads t (setMembers here fuel items) fun _ => True := by
  induction fuel generalizing items with
  | zero => mvcgen [setMembers]
  | succ n ih =>
    mvcgen [setMembers, ih]
    all_goals grind

@[spec]
theorem characterSet_spec : Reads t characterSet fun _ => True := by
  mvcgen [characterSet]
  all_goals grind

/-! ### Repetitions -/

@[spec]
theorem takeAll_spec (ht : Moderate t) :
    Reads t (takeAll Char.isDigit) fun a => a.length ≤ Text.digitLimit ∧
      value 10 a < 4294967295 := by
  mvcgen [takeAll]
  all_goals grind [Within.count_ok]

@[spec]
theorem counts_spec (ht : Moderate t) : Reads t counts fun _ => True := by
  -- A failure is no complaint here, and `throw_spec` asks to show that it does not happen.
  mvcgen [counts, -Spec.throw_MonadExcept]
  all_goals grind

@[spec]
theorem repetition_spec (here lo : Nat) (hi : Option Nat) (items : List Node) :
    Reads t (repetition here lo hi items) fun _ => True := by
  mvcgen [repetition]
  all_goals grind

/-! ### Groups -/

@[spec]
theorem skipComment_spec (start fuel : Nat) : Reads t (skipComment start fuel) fun _ => True := by
  induction fuel with
  | zero => mvcgen [skipComment]
  | succ n ih =>
    mvcgen [skipComment, ih]
    all_goals grind

@[spec]
theorem skipLine_spec (fuel : Nat) : Reads t (skipLine fuel) fun _ => True := by
  induction fuel with
  | zero => mvcgen [skipLine]
  | succ n ih =>
    mvcgen [skipLine, ih]
    all_goals grind

@[spec]
theorem checkGroupName_spec {name : Text} (h : BracketsFrom t name) :
    Reads t (checkGroupName name) fun _ => True := by
  mvcgen [checkGroupName]
  all_goals grind

@[spec]
theorem openGroup_spec {name : Option Text} (h : BracketsFrom t (name.getD [])) :
    Reads t (openGroup name) fun _ => True := by
  mvcgen [openGroup]
  all_goals grind [Within]

@[spec]
theorem closeParenthesis_spec (start : Nat) : Reads t (closeParenthesis start) fun _ => True := by
  mvcgen [closeParenthesis]
  all_goals grind

@[spec]
theorem groupWidths_spec : Reads t groupWidths fun _ => True := by
  mvcgen [groupWidths]

/-! ### Items -/

@[spec]
theorem itemsAfterSign_spec (ht : Moderate t) (here : Nat) (c : Char) (items : List Node) :
    Reads t (itemsAfterSign here c items) fun _ => True := by
  mvcgen [itemsAfterSign]
  all_goals grind

@[spec]
theorem itemsAfter_spec (ht : Moderate t) (verbose : Bool) (here : Nat) {token : Text}
    (h : BracketsFrom t token) (items : List Node) :
    Reads t (itemsAfter verbose here token items) fun _ => True := by
  mvcgen [itemsAfter]
  all_goals grind

/-- What is asked of the name that a group is opened with. -/
def Opening.From (t : Text) : Opening → Prop
  | .capture name => BracketsFrom t (name.getD [])
  | _ => True

@[spec]
theorem opening_spec (ht : Moderate t) (h : Within t s₀) (hs : .scalar '(' :: s₀.rest <:+ t)
    (start : Nat) (early : Bool) :
    ⦃fun s => ⌜s = s₀⌝⦄ opening start early
    ⦃post⟨fun a s => ⌜a.From t ∧ Within t s⌝, fun failure => ⌜failure.Told t⌝⟩⦄ := by
  have hgroup : BracketsFrom t (Text.ofString "group name") := .of_string (by decide)
  mvcgen -trivial [opening]
  case vc66 =>
    -- The sign behind `(?` is no flag, so that no inline flags are read.
    rename_i s hs₀ question hquestion s' hs' _ sign _ _ _ _ _ _ _ _ _ isFlag
    intro s'' _ hsign hbrackets _
    have hrest : s₀.rest = .scalar '?' :: (sign ++ s''.rest) := by grind
    have hflag : isFlag = false := by
      dsimp only [isFlag]
      split
      · exact (ht _ (hrest ▸ hs)).2
      · rfl
    rw [hflag]
    exact wp_iff.mpr fun e he => List.mem_singleton.mp he ▸ hbrackets
  all_goals grind [Opening.From, Within.congr]

theorem alternatives_sequence_spec (ht : Moderate t) (fuel : Nat) :
    (∀ verbose top done, Reads t (alternatives verbose top fuel done) fun _ => True) ∧
      ∀ verbose first items, Reads t (sequence verbose first fuel items) fun _ => True := by
  induction fuel with
  | zero =>
    constructor
    · intro verbose top done
      mvcgen [alternatives]
    · intro verbose first items
      mvcgen [sequence]
  | succ fuel ih =>
    obtain ⟨ihAlternatives, ihSequence⟩ := ih
    constructor
    · intro verbose top done
      mvcgen -trivial [alternatives, ihAlternatives, ihSequence]
      all_goals grind
    · intro verbose first items
      mvcgen -trivial [sequence, ihAlternatives, ihSequence]
      case vc6.hs =>
        rename_i s hs _ token _ _ s' hpeek _ s'' hnext _ hopen _
        have hrest : s.rest = .scalar '(' :: s''.rest := by
          grind [show Text.ofString "(" = [.scalar '('] from rfl]
        exact hrest ▸ hs.rest
      all_goals grind [Opening.From, Within.congr]

theorem whole_spec (ht : Moderate t) : Reads t whole fun _ => True := by
  have halternatives :=
    fun verbose top fuel done => (alternatives_sequence_spec ht fuel).1 verbose top done
  mvcgen [whole, halternatives, -Spec.throw_MonadExcept]
  all_goals grind [Within.repertoire]

end Specifications
end Reader

theorem quotes_of_complaint? {template : Bool} {n : Node} {c : Complaint}
    (h : n.complaint? template = some c) :
    c.quotes = [] := by
  induction n with
  | empty | atom | anchor | backreference => cases h
  | seq a b iha ihb | alt a b iha ihb | conditional g a b iha ihb =>
    rw [Node.complaint?] at h
    rcases (Option.orElse_eq_some ..).mp h with h | ⟨-, h⟩
    · exact iha h
    · exact ihb h
  | repeatAtom =>
    rw [Node.complaint?] at h
    split at h <;> cases h
    rfl
  | loop m lo hi body ih =>
    rw [Node.complaint?] at h
    split at h
    · cases h
      rfl
    · exact ih h
  | group n body ih | «scoped» on off body ih | atomic body ih | lookahead negated body ih =>
    exact ih h
  | lookbehind negated width body ih =>
    rw [Node.complaint?] at h
    split at h
    · cases h
      rfl
    · split at h
      · cases h
        rfl
      · exact ih h

/-- Reading a pattern of moderate form fails with a complaint only, and what the complaint repeats
has brackets from the pattern only. -/
theorem Pattern.told_of_parse {t : Text} (ht : Moderate t) {named? : String → Option Char}
    {flags : List Flag} (hflags : (flags.contains .ascii && flags.contains .unicode) = false)
    {failure : Failure} (h : Pattern.parse named? t flags = .error failure) : failure.Told t := by
  have hwhole :=
    Reader.triple_iff.mp (Reader.whole_spec ht) (.start named? t flags) ⟨List.suffix_refl t, hflags⟩
  rw [Pattern.parse] at h
  cases hrun : Reader.whole.run (.start named? t flags) with
  | error failure' =>
    rw [hrun] at hwhole h
    cases h
    exact hwhole
  | ok result =>
    obtain ⟨root, s⟩ := result
    rw [hrun] at h
    simp only [bind, Except.bind] at h
    split at h
    · cases h
      intro e he
      cases he
    · split at h
      · rename_i hc
        cases h
        show ∀ e ∈ Complaint.quotes _, _
        rw [quotes_of_complaint? hc]
        intro e he
        cases he
      · cases h

end Regex
end StepAtlas
