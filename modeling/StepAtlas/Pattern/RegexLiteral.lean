import StepAtlas.Regex.Syntax

/-
The body and the flags of a regular expression literal of a script.  A named group is written
`(?<name>` there and `(?P<name>` in the dialect that is matched here.  Three flags change how a
literal matches, five say nothing about a single test, and any other flag makes the literal match
nothing.
-/

namespace StepAtlas
namespace RegexLiteral

open Regex

/-- Spell named groups in the dialect of the matcher: every `(?<` that does not start a
lookbehind. -/
def nameGroups : Text → Text
  | .scalar '(' :: .scalar '?' :: .scalar '<' :: r =>
    match r with
    | .scalar '=' :: _ | .scalar '!' :: _ => "(?<" ++ nameGroups r
    | _ => "(?P<" ++ nameGroups r
  | p :: r => p :: nameGroups r
  | [] => []

/-- What a flag letter means: a matching flag, nothing, or an error. -/
def flag? : CodePoint → Option (Option Flag)
  | .scalar 'i' => some (some .ignoreCase)
  | .scalar 'm' => some (some .multiline)
  | .scalar 's' => some (some .dotAll)
  | .scalar c => if "gyudv".contains c then some none else none
  | .surrogate _ => none

end RegexLiteral
end StepAtlas
