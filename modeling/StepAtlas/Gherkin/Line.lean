import StepAtlas.Gherkin.Language
import StepAtlas.Text.Blank

/-
Lines of feature files.  A line can be read as several kinds of token; which one counts depends on
what the grammar allows at its place.  Only the blanks in front of a line are dropped before its
first words are looked at.
-/

namespace StepAtlas
namespace Gherkin

inductive Block where
  | feature | rule | background | scenario | examples
deriving DecidableEq, Repr

/-- The two marks that open and close a doc string. -/
inductive Mark where
  | quotes | backticks
deriving DecidableEq, Repr

def Mark.text : Mark → Text
  | .quotes => "\"\"\""
  | .backticks => "```"

inductive Kind where
  | ending | language | tags | title (block : Block) | step | mark | row | comment | empty | other
deriving DecidableEq, Repr

def Kind.text : Kind → Text
  | .ending => "#EOF"
  | .language => "#Language"
  | .tags => "#TagLine"
  | .title .feature => "#FeatureLine"
  | .title .rule => "#RuleLine"
  | .title .background => "#BackgroundLine"
  | .title .scenario => "#ScenarioLine"
  | .title .examples => "#ExamplesLine"
  | .step => "#StepLine"
  | .mark => "#DocStringSeparator"
  | .row => "#TableRow"
  | .comment => "#Comment"
  | .empty => "#Empty"
  | .other => "#Other"

def Language.titles (l : Language) : Block → List Text
  | .feature => l.feature
  | .rule => l.rule
  | .background => l.background
  | .scenario => l.scenario
  | .examples => l.examples

/-- A line of a file, counted from one. -/
structure Line where
  number : Nat
  text : Text
deriving DecidableEq, Repr

namespace Line

/-- The lines of a file.  Only a line feed ends a line, and one at the end of the file starts no
further line. -/
def ofText (content : Text) : List Line :=
  let pieces := Text.splitAt (.scalar '\n') content
  let pieces := if pieces.getLast? = some [] then pieces.dropLast else pieces
  pieces.mapIdx fun i text => { number := i + 1, text }

def body (l : Line) : Text := l.text.trimLeft

/-- The column of the first code point that is not blank, counted from one. -/
def column (l : Line) : Nat := l.text.length - l.body.length + 1

def isEmpty (l : Line) : Bool := l.body = []

def isComment (l : Line) : Bool := l.body.startsWith "#"

def title? (language : Language) (block : Block) (l : Line) : Option Text :=
  (language.titles block).findSome? fun word => (Text.after? (word ++ ":") l.body).map Text.trim

def longer (a b : Option (Text × Text)) : Option (Text × Text) :=
  match a, b with
  | some x, some y => if x.1.length < y.1.length then some y else some x
  | some x, none => some x
  | none, b => b

/-- The step word that a line starts with, the longest one if there are several, and the text behind
it. -/
def step? (language : Language) (l : Line) : Option (Text × Text) :=
  (language.steps.map fun word => (Text.after? word l.body).map fun rest => (word, rest.trim)).foldl
    longer none

/-- The mark that a line starts with.  Inside a doc string only the mark that opened it counts. -/
def mark? (opened : Option Mark) (l : Line) : Option Mark :=
  (match opened with
    | some m => [m]
    | none => [Mark.quotes, .backticks]).find? fun m => l.body.startsWith m.text

def bars : Text → Nat
  | [] => 0
  | .scalar '\\' :: _ :: r => bars r
  | p :: r => (if p = .scalar '|' then 1 else 0) + bars r

/-- The number of cells of a row.  What stands behind the last bar is no cell. -/
def cells? (l : Line) : Option Nat :=
  if l.body.startsWith "|" then some (bars l.body - 1) else none

def uncommented : Text → Text
  | p :: q :: r => if p.isBlank && q = .scalar '#' then [] else p :: uncommented (q :: r)
  | t => t

def tagsFrom (column : Nat) : List Text → Except Nat (List Text)
  | [] => .ok []
  | piece :: pieces =>
    let tag := Text.trim (.scalar '@' :: piece)
    if tag.any CodePoint.isBlank then .error column
    else do return tag :: (← tagsFrom (column + piece.length + 1) pieces)

/-- The tags of a line that starts with an at sign, or the column of a tag with a blank in it. -/
def tags? (l : Line) : Option (Except Nat (List Text)) :=
  if l.body.startsWith "@" then
    some (tagsFrom l.column (Text.splitAt (.scalar '@') (uncommented l.body.trim).trim).tail)
  else none

def isLanguagePoint : CodePoint → Bool := CodePoint.test fun c => c.isAlpha || c = '-' || c = '_'

def language? (l : Line) : Option Text := do
  let rest ← Text.after? "#" l.body
  let rest ← Text.after? "language" rest.trimLeft
  let rest ← Text.after? ":" rest.trimLeft
  let rest := rest.trimLeft
  let name := rest.takeWhile isLanguagePoint
  if name ≠ [] && Text.trimLeft (rest.drop name.length) = [] then some name else none

end Line
end Gherkin
end StepAtlas
