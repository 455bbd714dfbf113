import StepAtlas.Log
import StepAtlas.Script.Parser
import StepAtlas.Text.Encoding

/-
Registrations: the calls in a script that define steps.  A call counts when the function it calls
is a registering one, by a bare name or as a property, and its first argument is a literal: a
string, a template without substitutions or a regular expression.
-/

namespace StepAtlas

/-- The names of the registering functions, each with the keyword it registers for. -/
abbrev Registry := List (Text × DefinitionKeyword)

def Registry.standard : Registry :=
  [("Given", .given), ("When", .when), ("Then", .then), ("defineStep", .any), ("Step", .any)]

namespace Script
namespace Tree

def calleeName? (t : Tree) : Option Text :=
  match t.kind with
  | .identifier => some t.text
  | .member => ((t.child? .property).filter (·.kind = .property)).map text
  | _ => none

/-- The first argument of a call, which may stand behind comments. -/
def firstArgument? (t : Tree) : Option Tree :=
  match t.kind with
  | .arguments => t.parts.find? fun a => a.kind ≠ .sign && a.kind ≠ .comment
  | _ => none

/-- What stands between the quotes of a literal. -/
def unquoted (t : Tree) : Text := (t.text.drop 1).dropLast

def raw? (t : Tree) : Option Text :=
  match t.kind with
  | .string => some t.unquoted
  | .template => if t.parts.any (·.kind = .substitution) then none else some t.unquoted
  | _ => none

/-- The pattern that a literal stands for, with its kind and its flags; none for anything else. -/
def pattern? (t : Tree) : Except Fault (Option (Text × PatternKind × Option Text)) :=
  match t.raw?, t.kind with
  | some raw, _ => do return some (← unescape raw, .expression, none)
  | none, .regex =>
    let body := ((t.child? .pattern).map text).getD []
    let flags := ((t.child? .flags).map text).filter (· ≠ [])
    .ok (some (body, .regex, flags))
  | none, _ => .ok none

/-- The function, the keyword and the first argument of a registering call; none for any other
node. -/
def registration? (functions : Registry) (t : Tree) : Option (Text × DefinitionKeyword × Tree) :=
  match t.kind with
  | .call => do
    let function ← (t.child? .function).bind calleeName?
    let keyword ← functions.lookup function
    let argument ← (t.child? .arguments).bind firstArgument?
    return (function, keyword, argument)
  | _ => none

def definition? (functions : Registry) (source : Path) (t : Tree) :
    Except Fault (Option Definition) :=
  match t.registration? functions with
  | none => .ok none
  | some (function, keyword, argument) => do
    match ← argument.pattern? with
    | none => return none
    | some (pattern, kind, flags) =>
      return some { pattern, kind, keyword, source, span := t.span, function, flags }

/-- The definitions that a tree registers, in the order of their calls; an outer call comes before
those inside. -/
def definitions (functions : Registry) (source : Path) (t : Tree) :
    Except Fault (List Definition) :=
  t.walk.filterMapM (definition? functions source)

end Tree

/-- The definitions in a script.  A script that has no bytes has none; in a damaged one what can be
read counts. -/
def definitions (functions : Registry) (source : Path) (content : Text) :
    Except Fault (List Definition) := do
  match content.chars? with
  | none =>
    log (warning ++ "Failed to parse step definition file " ++ source.toText ++ ": " ++
      content.encodingComplaint?.getD [])
    return []
  | some chars =>
    let (tree, damaged) := parse (Dialect.ofPath source) chars
    if damaged then
      log ("[dim]" ++ source.toText ++ ": syntax errors, extracting what parses[/dim]")
    tree.definitions functions source

end Script
end StepAtlas
