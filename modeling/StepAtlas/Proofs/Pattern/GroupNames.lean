import Mathlib.Control.Monad.Basic
import StepAtlas.Matching

/-
How named groups are spelled anew.  A regular expression literal writes `(?<name>` where the matcher
wants `(?P<name>`, and the new spelling is put in for every `(?<` that starts no lookbehind,
wherever it stands.  The same three code points open no group behind a backslash or inside of a
character class.  So the body is changed where it should be and nowhere else exactly when no `(?<`
of it is hidden in that way.
-/

namespace StepAtlas
namespace RegexLiteral

open Regex

/-! ## Contexts -/

/-- How the next code point of a body is read.  A backslash and the code point behind it are one
token, and so is everything from a bracket that is no part of an escape to the next closing bracket
that is none. -/
structure Context where
  inClass : Bool
  escaped : Bool
deriving DecidableEq

namespace Context

def plain : Context := { inClass := false, escaped := false }

def next (c : Context) (p : CodePoint) : Context :=
  if c.escaped then { c with escaped := false }
  else if p = .scalar '\\' then { c with escaped := true }
  else if p = .scalar '[' then { c with inClass := true }
  else if p = .scalar ']' then { c with inClass := false }
  else c

def behind (c : Context) (t : Text) : Context := t.foldl next c

end Context

/-! ## Openers -/

/-- Behind `(?<`, what makes it a lookbehind. -/
def LooksBehind (rest : Text) : Prop :=
  rest.head? = some (.scalar '=') ∨ rest.head? = some (.scalar '!')

instance (rest : Text) : Decidable (LooksBehind rest) :=
  inferInstanceAs (Decidable (rest.head? = some (.scalar '=') ∨ rest.head? = some (.scalar '!')))

/-- A `(?<` that starts no lookbehind, with what stands before and behind it. -/
structure Opener (body before rest : Text) : Prop where
  body_eq : body = before ++ (.scalar '(' :: .scalar '?' :: .scalar '<' :: rest)
  not_looksBehind : ¬ LooksBehind rest

/-- How a `(?<` is spelled when it is to be renamed or not. -/
def spelled (rename : Bool) (rest : Text) : Text :=
  if LooksBehind rest then "(?<" else if rename then "(?P<" else "(?<"

/-- The body with `(?P<` in place of every opener whose context passes a test. -/
def renamed (test : Context → Bool) : Context → Text → Text
  | c, .scalar '(' :: .scalar '?' :: .scalar '<' :: r =>
    spelled (test c) r ++ renamed test (c.behind [.scalar '(', .scalar '?', .scalar '<']) r
  | c, p :: r => p :: renamed test (c.next p) r
  | _, [] => []

theorem spelled_append_eq_iff {b b' : Bool} {r s s' : Text} :
    spelled b r ++ s = spelled b' r ++ s' ↔ (¬ LooksBehind r → b = b') ∧ s = s' := by
  have hold : Text.ofString "(?<" = [.scalar '(', .scalar '?', .scalar '<'] := rfl
  have hnew : Text.ofString "(?P<" = [.scalar '(', .scalar '?', .scalar 'P', .scalar '<'] := rfl
  by_cases hlook : LooksBehind r
  · simp [spelled, hlook]
  · cases b <;> cases b' <;> simp [spelled, hlook, hold, hnew]

/-- The openers of a text are one at its start, if there is one, and those behind the first code
points. -/
theorem forall_opener_of_opening {r : Text} {P : Text → Prop} :
    (∀ before rest, Opener (.scalar '(' :: .scalar '?' :: .scalar '<' :: r) before rest →
        P before) ↔
      (¬ LooksBehind r → P []) ∧
        ∀ before rest, Opener r before rest →
        P (.scalar '(' :: .scalar '?' :: .scalar '<' :: before) := by
  constructor
  · intro h
    constructor
    · intro hlook
      exact h [] r ⟨rfl, hlook⟩
    · rintro before rest ⟨rfl, hlook⟩
      exact h _ rest ⟨rfl, hlook⟩
  · rintro ⟨hfirst, hrest⟩ before rest ⟨hbody, hlook⟩
    match before, hbody with
    | [], hbody =>
      simp only [List.nil_append, List.cons.injEq, true_and] at hbody
      subst hbody
      exact hfirst hlook
    | [a], hbody => simp at hbody
    | [a, b], hbody => simp at hbody
    | a :: b :: c :: before', hbody =>
      simp only [List.cons_append, List.cons.injEq] at hbody
      obtain ⟨rfl, rfl, rfl, hbody⟩ := hbody
      exact hrest before' rest ⟨hbody, hlook⟩

theorem forall_opener_of_not_opening {p : CodePoint} {r : Text} {P : Text → Prop}
    (hp : ∀ r', p = .scalar '(' → r = .scalar '?' :: .scalar '<' :: r' → False) :
    (∀ before rest, Opener (p :: r) before rest → P before) ↔
      ∀ before rest, Opener r before rest → P (p :: before) := by
  constructor
  · rintro h before rest ⟨rfl, hlook⟩
    exact h _ rest ⟨rfl, hlook⟩
  · rintro hrest before rest ⟨hbody, hlook⟩
    match before, hbody with
    | [], hbody =>
      obtain ⟨hhead, htail⟩ := List.cons.inj hbody
      exact (hp rest hhead htail).elim
    | a :: before', hbody =>
      obtain ⟨rfl, htail⟩ := List.cons.inj hbody
      exact hrest before' rest ⟨htail, hlook⟩

/-- Two tests give the same text if and only if they agree on the openers. -/
theorem renamed_eq_iff (test test' : Context → Bool) (c : Context) (t : Text) :
    renamed test c t = renamed test' c t ↔
      ∀ before rest, Opener t before rest → test (c.behind before) = test' (c.behind before) := by
  fun_induction renamed test c t with
  | case1 c r ih =>
    rw [renamed, forall_opener_of_opening, spelled_append_eq_iff, ih]
    rfl
  | case2 c p r hp ih =>
    rw [forall_opener_of_not_opening hp, renamed, List.cons.injEq, ih]
    · simp only [true_and]
      rfl
    · exact hp
  | case3 c =>
    refine iff_of_true rfl ?_
    rintro before rest ⟨hbody, -⟩
    simp at hbody

theorem renamed_false (c : Context) (t : Text) : renamed (fun _ => false) c t = t := by
  fun_induction renamed (fun _ => false) c t with
  | case1 c r ih =>
    rw [ih, spelled]
    simp only [Bool.false_eq_true, if_false, ite_self]
    rfl
  | case2 c p r hp ih => rw [ih]
  | case3 c => rfl

/-- Every opener is spelled anew, whatever its context. -/
theorem nameGroups_eq_renamed (c : Context) (t : Text) :
    nameGroups t = renamed (fun _ => true) c t := by
  fun_induction renamed (fun _ => true) c t with
  | case1 c r ih =>
    rw [← ih, spelled]
    by_cases hlook : LooksBehind r
    · rw [if_pos hlook]
      rcases hlook with hhead | hhead <;> obtain ⟨r', rfl⟩ :=
        List.head?_eq_some_iff.mp hhead <;> rw [nameGroups]
    · rw [if_neg hlook, if_pos rfl, nameGroups]
      · rintro r' rfl
        exact hlook (.inl rfl)
      · rintro r' rfl
        exact hlook (.inr rfl)
  | case2 c p r hp ih =>
    rw [nameGroups, ih]
    exact hp
  | case3 c => rfl

/-! ## Bodies -/

theorem compile_of_flags {flags : Option Text} (h : ∀ p ∈ flags.getD [], (flag? p).isSome)
    (m : Machine) (body : Text) :
    compile m body flags =
      Pattern.compile m ("Invalid regex pattern /" ++ body ++ "/") (nameGroups body)
        ((flags.getD []).filterMap fun p => (flag? p).getD none) := by
  have hnone : (flags.getD []).find? (fun p => (flag? p).isNone) = none := by
    refine List.find?_eq_none.mpr fun p hp => ?_
    rw [Option.isNone_iff_eq_none, ← ne_eq, ← Option.isSome_iff_ne_none]
    exact h p hp
  rw [compile, hnone]

/-- The body is changed at the openers that stand outside of all escapes and classes, and nowhere
else, if and only if it has no other openers.  It is handed to the compiler as it is if and only if
it has no openers at all. -/
theorem nameGroups_eq_iff (body : Text) :
    (nameGroups body = renamed (· = .plain) .plain body ↔
        ∀ before rest, Opener body before rest → Context.plain.behind before = .plain) ∧
      (nameGroups body = body ↔ ∀ before rest, ¬ Opener body before rest) ∧
      ∀ (m : Machine) (flags : Option Text), (∀ p ∈ flags.getD [], (flag? p).isSome) →
        compile m body flags =
          Pattern.compile m ("Invalid regex pattern /" ++ body ++ "/") (nameGroups body)
            ((flags.getD []).filterMap fun p => (flag? p).getD none) := by
  refine ⟨?_, ?_, fun m flags hflags => compile_of_flags hflags m body⟩
  · rw [nameGroups_eq_renamed .plain, renamed_eq_iff]
    simp only [eq_comm (a := true), decide_eq_true_eq]
  · have hiff := renamed_eq_iff (fun _ => true) (fun _ => false) .plain body
    rw [renamed_false, ← nameGroups_eq_renamed] at hiff
    simpa using hiff

/-- A named group with a class in it, and a lookbehind for an escaped parenthesis. -/
theorem nameGroups_eq_iff_classed :
    nameGroups "(?<n>[<(]+)(?<!\\()" = "(?P<n>[<(]+)(?<!\\()" ∧
      (∀ before rest, Opener "(?<n>[<(]+)(?<!\\()" before rest →
        Context.plain.behind before = .plain) ∧
      compile .boundless "(?<n>[<(]+)(?<!\\()" (some "im") =
        Pattern.compile .boundless
          ("Invalid regex pattern /" ++ Text.ofString "(?<n>[<(]+)(?<!\\()" ++ "/")
          "(?P<n>[<(]+)(?<!\\()" [.ignoreCase, .multiline] := by
  obtain ⟨hplain, -, hcompile⟩ := nameGroups_eq_iff "(?<n>[<(]+)(?<!\\()"
  have hname : nameGroups "(?<n>[<(]+)(?<!\\()" = "(?P<n>[<(]+)(?<!\\()" := by decide
  refine ⟨hname, hplain.mp (by decide), ?_⟩
  rw [hcompile .boundless (some "im") (by decide +kernel), hname]
  exact congrArg (Pattern.compile _ _ _) (by decide +kernel)

/-- Behind a backslash, `(?<n>` is an optional parenthesis and three code points more, and in
brackets it is a class.  Both are changed all the same: the one loses a text that it should match,
and the other wins one. -/
theorem nameGroups_hidden :
    nameGroups "\\(?<n>" = "\\(?P<n>" ∧ renamed (· = .plain) .plain "\\(?<n>" = "\\(?<n>" ∧
      (compile .boundless "\\(?<n>" none).map (·.map fun p => (p.search "<n>").isSome) =
        .ok (some false) ∧
      (Pattern.parse Machine.boundless.named? "\\(?<n>" []).map (fun p => (p.search "<n>").isSome) =
        .ok true ∧
      nameGroups "[(?<n>]" = "[(?P<n>]" ∧ renamed (· = .plain) .plain "[(?<n>]" = "[(?<n>]" ∧
      (compile .boundless "[(?<n>]" none).map (·.map fun p => (p.search "P").isSome) =
        .ok (some true) ∧
      (Pattern.parse Machine.boundless.named? "[(?<n>]" []).map (fun p => (p.search "P").isSome) =
        .ok false := by
  decide +kernel

end RegexLiteral
end StepAtlas
