import StepAtlas.Feature

/-
Step definitions: a pattern registered by a call in a script, with the place of the call.
-/

namespace StepAtlas

/-- The keyword that a definition is registered for; `any` serves every step. -/
inductive DefinitionKeyword where
  | given | when | then | any
deriving DecidableEq, Repr

namespace DefinitionKeyword

def all : List DefinitionKeyword := [.given, .when, .then, .any]

def word : DefinitionKeyword → Text
  | .given => "Given"
  | .when => "When"
  | .then => "Then"
  | .any => "any"

def ofWord? (t : Text) : Option DefinitionKeyword := all.find? (·.word = t)

end DefinitionKeyword

/-- Whether a pattern is a step expression or the body of a regular expression. -/
inductive PatternKind where
  | expression | regex
deriving DecidableEq, Repr

/-- A stretch of a file.  Lines and columns count from zero, columns in bytes. -/
structure Span where
  startLine : Nat
  startColumn : Nat
  endLine : Nat
  endColumn : Nat
deriving DecidableEq, Repr

/-- A registered pattern.  Two definitions are equal only when they stand at the same place. -/
structure Definition where
  pattern : Text
  kind : PatternKind
  keyword : DefinitionKeyword
  source : Path
  span : Span
  /-- The name of the registering function. -/
  function : Text
  /-- The flags of a regular expression that has some. -/
  flags : Option Text
deriving DecidableEq, Repr

/-- The pattern as it is shown: a regular expression between slashes, an expression as it is. -/
def Definition.display (d : Definition) : Text :=
  match d.kind with
  | .regex => "/" ++ d.pattern ++ "/" ++ d.flags.getD []
  | .expression => d.pattern

/-- Whether a definition registered for one keyword may serve a step.  A step that continues the one
before accepts every definition, because the keyword it stands for is not resolved. -/
def StepKeyword.accepts (step : StepKeyword) (definition : DefinitionKeyword) : Bool :=
  definition = .any || step.continues || step.word = definition.word

end StepAtlas
