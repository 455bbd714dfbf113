import StepAtlas.Definition
import StepAtlas.Pattern.Compile
import StepAtlas.Regex.Matcher

/-
Matching steps against definitions.  A step may be served by every definition whose keyword it
accepts and whose pattern matches its text; the number of those decides whether it is undefined,
matched or ambiguous.
-/

namespace StepAtlas

inductive MatchMode where
  | both | regexOnly | expressionOnly
deriving DecidableEq, Repr

namespace MatchMode

def word : MatchMode → Text
  | .both => "both"
  | .regexOnly => "regex"
  | .expressionOnly => "expression"

def ofWord? (t : Text) : Option MatchMode :=
  [MatchMode.both, .regexOnly, .expressionOnly].find? (·.word = t)

def allows : MatchMode → PatternKind → Bool
  | .both, _ => true
  | .regexOnly, kind => kind = .regex
  | .expressionOnly, kind => kind = .expression

end MatchMode

/-- What steps are matched with: a mode, and the machine that compiles the patterns. -/
@[ext] structure Matcher where
  mode : MatchMode
  machine : Machine

namespace Matcher

def inMode (matcher : Matcher) (mode : MatchMode) : Matcher := { matcher with mode }

end Matcher

/-- The groups of a definition's match in a text, or none if it does not match.  A regular
expression is searched anywhere in the text, and an expression has to cover it. -/
def Definition.search (matcher : Matcher) (d : Definition) (t : Text) :
    Except Fault (Option (List (Option Text))) :=
  if !matcher.mode.allows d.kind then .ok none
  else match d.kind with
    | .expression => do return (← Expression.compile matcher.machine d.pattern).bind (·.fullMatch t)
    | .regex =>
      do return (← RegexLiteral.compile matcher.machine d.pattern d.flags).bind (·.search t)

/-- The arguments that a definition takes from a text, or none if it does not match.  A regular
expression gives the groups that caught something, and an expression one argument for each
placeholder. -/
def Definition.arguments (matcher : Matcher) (d : Definition) (t : Text) :
    Except Fault (Option (List Text)) := do
  match ← d.search matcher t with
  | none => return none
  | some groups =>
    match d.kind with
    | .expression => return some (← Expression.argumentsOf (Expression.tokens d.pattern) groups)
    | .regex => return some (groups.filterMap id)

def Definition.isMatch (matcher : Matcher) (d : Definition) (t : Text) : Except Fault Bool := do
  return (← d.search matcher t).isSome

/-- Whether a definition serves a step: its pattern is looked at only when the keyword fits. -/
def Definition.serves (matcher : Matcher) (s : Step) (d : Definition) : Except Fault Bool :=
  if s.keyword.accepts d.keyword then d.isMatch matcher s.text else .ok false

inductive MatchStatus where
  | matched | undefined | ambiguous
deriving DecidableEq, Repr

/-- A step and the definitions that serve it, in their order. -/
structure MatchResult where
  step : Step
  found : List Definition
deriving DecidableEq, Repr

def MatchResult.status (r : MatchResult) : MatchStatus :=
  match r.found with
  | [] => .undefined
  | [_] => .matched
  | _ => .ambiguous

def matchStep (matcher : Matcher) (definitions : List Definition) (s : Step) :
    Except Fault MatchResult := do
  return { step := s, found := ← definitions.filterM (Definition.serves matcher s) }

def matchSteps (matcher : Matcher) (steps : List Step) (definitions : List Definition) :
    Except Fault (List MatchResult) :=
  steps.mapM (matchStep matcher definitions)

end StepAtlas
