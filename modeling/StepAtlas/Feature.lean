import StepAtlas.Path

/-
Features, scenarios and steps as they are indexed.
-/

namespace StepAtlas

inductive StepKeyword where
  | given | when | then | and | but | star
deriving DecidableEq, Repr

namespace StepKeyword

def all : List StepKeyword := [.given, .when, .then, .and, .but, .star]

def word : StepKeyword → Text
  | .given => "Given"
  | .when => "When"
  | .then => "Then"
  | .and => "And"
  | .but => "But"
  | .star => "*"

def ofWord? (t : Text) : Option StepKeyword := all.find? (·.word = t)

def continues : StepKeyword → Bool
  | .and | .but | .star => true
  | _ => false

end StepKeyword

/-- A step of a scenario.  Lines count from one. -/
structure Step where
  keyword : StepKeyword
  text : Text
  line : Nat
  source : Path
  scenario : Text
  feature : Text
deriving DecidableEq, Repr

structure Scenario where
  name : Text
  steps : List Step
  line : Nat
  tags : List Text
deriving DecidableEq, Repr

structure Feature where
  name : Text
  source : Path
  scenarios : List Scenario
  tags : List Text
deriving DecidableEq, Repr

def Feature.steps (f : Feature) : List Step := f.scenarios.flatMap (·.steps)

end StepAtlas
