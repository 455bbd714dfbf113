import StepAtlas.Gherkin.Reader

/-
The canonical layout of feature files.  A feature source is what a feature file is to say: tags, a
name, a background, scenarios and rules, with doc strings under steps.  It is written with one token
on each line, in English.  Names and step texts may be anything that stands on one line without
blanks at its ends; they may look like tags, steps or titles.

The feature of a source is given beside its text, with each scenario and step at the line on which
it is written.
-/

namespace StepAtlas
namespace Gherkin

/-- A text on one line, without blanks at its ends. -/
structure Label where
  text : Text
  oneLine : .scalar '\n' ∉ text
  trimmed : text.trim = text

/-- A tag: an at sign and a word without blanks, at signs and number signs. -/
structure Tag where
  word : Text
  nonempty : word ≠ []
  plain : ∀ p ∈ word, p.isBlank = false ∧ p ≠ .scalar '@' ∧ p ≠ .scalar '#'

def Tag.text (t : Tag) : Text := .scalar '@' :: t.word

/-- A doc string, whose lines must not begin with the mark that closes it. -/
structure DocString where
  mark : Mark
  lines : List Text
  oneLine : ∀ t ∈ lines, .scalar '\n' ∉ t
  inside : ∀ t ∈ lines, t.trimLeft.startsWith mark.text = false

structure StepSource where
  keyword : StepKeyword
  label : Label
  doc : Option DocString

structure ScenarioSource where
  tags : List Tag
  label : Label
  steps : List StepSource

structure RuleSource where
  label : Label
  background : Option (List StepSource)
  scenarios : List ScenarioSource

structure FeatureSource where
  tags : List Tag
  label : Label
  background : Option (List StepSource)
  scenarios : List ScenarioSource
  rules : List RuleSource

/-! ## Writing -/

def DocString.written (d : DocString) : List Text := d.mark.text :: (d.lines ++ [d.mark.text])

def StepSource.written (s : StepSource) : List Text :=
  (s.keyword.word ++ " " ++ s.label.text) :: (s.doc.map DocString.written).getD []

/-- Tags stand on a line of their own, unless there are none. -/
def tagLine : List Tag → List Text
  | [] => []
  | t :: tags => [Text.join " " ((t :: tags).map Tag.text)]

def ScenarioSource.written (s : ScenarioSource) : List Text :=
  tagLine s.tags ++ ("Scenario: " ++ s.label.text) :: s.steps.flatMap StepSource.written

def writtenBackground : Option (List StepSource) → List Text
  | none => []
  | some steps => "Background:" :: steps.flatMap StepSource.written

def RuleSource.written (r : RuleSource) : List Text :=
  ("Rule: " ++ r.label.text) ::
    (writtenBackground r.background ++ r.scenarios.flatMap ScenarioSource.written)

def FeatureSource.written (f : FeatureSource) : List Text :=
  tagLine f.tags ++ ("Feature: " ++ f.label.text) ::
    (writtenBackground f.background ++
      (f.scenarios.flatMap ScenarioSource.written ++ f.rules.flatMap RuleSource.written))

def FeatureSource.text (f : FeatureSource) : Text :=
  f.written.flatMap fun line => line ++ [.scalar '\n']

/-! ## What is written -/

section
variable (source : Path) (feature : Text)

def placeSteps (scenario : Text) (line : Nat) : List StepSource → List Step
  | [] => []
  | s :: steps =>
    { keyword := s.keyword, text := s.label.text, line, source, scenario, feature } ::
      placeSteps scenario (line + s.written.length) steps

def placeBackground (line : Nat) : Option (List StepSource) → List Scenario
  | none => []
  | some steps =>
    [{ name := backgroundName, steps := placeSteps source feature backgroundName (line + 1) steps,
       line, tags := [] }]

def ScenarioSource.placed (line : Nat) (s : ScenarioSource) : Scenario :=
  let title := line + (tagLine s.tags).length
  { name := s.label.text, steps := placeSteps source feature s.label.text (title + 1) s.steps,
    line := title, tags := s.tags.map Tag.text }

def placeScenarios (line : Nat) : List ScenarioSource → List Scenario
  | [] => []
  | s :: scenarios =>
    s.placed source feature line :: placeScenarios (line + s.written.length) scenarios

def placeRules (line : Nat) : List RuleSource → List Scenario
  | [] => []
  | r :: rules =>
    placeBackground source feature (line + 1) r.background ++
      (placeScenarios source feature (line + 1 + (writtenBackground r.background).length)
        r.scenarios ++ placeRules (line + r.written.length) rules)

end

def FeatureSource.feature (source : Path) (f : FeatureSource) : Feature :=
  let background := (tagLine f.tags).length + 2
  let scenarios := background + (writtenBackground f.background).length
  let rules := scenarios + (f.scenarios.flatMap ScenarioSource.written).length
  { name := f.label.text
    source
    scenarios :=
      placeBackground source f.label.text background f.background ++
        (placeScenarios source f.label.text scenarios f.scenarios ++
          placeRules source f.label.text rules f.rules)
    tags := f.tags.map Tag.text }

end Gherkin
end StepAtlas
