import StepAtlas.Matching
import StepAtlas.PathMap

/-
The catalog of a workspace: the features and the definitions of every file, and the result of
matching each step.

The results are stored and not computed on demand, so a catalog whose files were changed shows old
results until the steps are matched again.  The questions below are answered from what is stored.
-/

namespace StepAtlas

structure Catalog where
  features : PathMap Feature
  definitions : PathMap (List Definition)
  results : List MatchResult
deriving DecidableEq, Repr

structure Stats where
  features : Nat
  scenarios : Nat
  steps : Nat
  undefinedSteps : Nat
  ambiguousSteps : Nat
  unusedDefinitions : Nat
deriving DecidableEq, Repr

namespace Catalog

def empty : Catalog := { features := .empty, definitions := .empty, results := [] }

def setFeature (c : Catalog) (p : Path) (f : Feature) : Catalog :=
  { c with features := c.features.set p f }

def removeFeature (c : Catalog) (p : Path) : Catalog := { c with features := c.features.remove p }

def setDefinitions (c : Catalog) (p : Path) (ds : List Definition) : Catalog :=
  { c with definitions := c.definitions.set p ds }

def removeDefinitions (c : Catalog) (p : Path) : Catalog :=
  { c with definitions := c.definitions.remove p }

def steps (c : Catalog) : List Step := c.features.values.flatMap Feature.steps

def allDefinitions (c : Catalog) : List Definition := c.definitions.values.flatten

/-- Replace the results of the steps of one file; the new ones come last. -/
def updateResults (c : Catalog) (p : Path) (rs : List MatchResult) : Catalog :=
  { c with results := c.results.filter (·.step.source ≠ p) ++ rs }

def rematch (matcher : Matcher) (c : Catalog) : Except Fault Catalog := do
  return { c with results := ← matchSteps matcher c.steps c.allDefinitions }

def stepsAt (c : Catalog) (p : Path) : List Step := ((c.features.get? p).map Feature.steps).getD []

def rematchFile (matcher : Matcher) (c : Catalog) (p : Path) : Except Fault Catalog := do
  return c.updateResults p (← matchSteps matcher (c.stepsAt p) c.allDefinitions)

def resultsWith (status : MatchStatus) (c : Catalog) : List MatchResult :=
  c.results.filter (·.status = status)

def undefinedSteps (c : Catalog) : List MatchResult := c.resultsWith .undefined

def ambiguousSteps (c : Catalog) : List MatchResult := c.resultsWith .ambiguous

def unusedDefinitions (c : Catalog) : List Definition :=
  let used := c.results.flatMap (·.found)
  c.allDefinitions.filter fun d => !used.contains d

def stats (c : Catalog) : Stats :=
  let scenarios := c.features.values.flatMap (·.scenarios)
  { features := c.features.size
    scenarios := scenarios.length
    steps := (scenarios.flatMap (·.steps)).length
    undefinedSteps := c.undefinedSteps.length
    ambiguousSteps := c.ambiguousSteps.length
    unusedDefinitions := c.unusedDefinitions.length }

end Catalog
end StepAtlas
