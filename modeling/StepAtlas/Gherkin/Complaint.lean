import StepAtlas.Gherkin.Line

/-
What is wrong with a feature file.  All complaints about a file are collected, up to a limit, and
reported together.
-/

namespace StepAtlas
namespace Gherkin

inductive Complaint where
  /-- No token that the grammar allows can be read from the line. -/
  | unexpected (line column : Nat) (expected : List Kind) (got : Text)
  | unexpectedEnd (line : Nat) (expected : List Kind)
  | blankInTag (line column : Nat)
  | unevenTable (line column : Nat)
  | unknownLanguage (line column : Nat) (name : Text)
deriving DecidableEq, Repr

namespace Complaint

def placed (line column : Nat) (words : Text) : Text :=
  "(" ++ Text.ofNat line ++ ":" ++ Text.ofNat column ++ "): " ++ words

def expectation (expected : List Kind) : Text :=
  "expected: " ++ Text.join ", " (expected.map Kind.text)

def message : Complaint → Text
  | .unexpected line column expected got =>
    placed line column (expectation expected ++ ", got '" ++ got ++ "'")
  | .unexpectedEnd line expected =>
    placed line 0 ("unexpected end of file, " ++ expectation expected)
  | .blankInTag line column => placed line column "A tag may not contain whitespace"
  | .unevenTable line column => placed line column "inconsistent cell count within the table"
  | .unknownLanguage line column name => placed line column ("Language not supported: " ++ name)

def report (complaints : List Complaint) : Text :=
  Text.join "\n" ("Parser errors:" :: complaints.map message)

/-- The number of complaints after which a file is given up. -/
def limit : Nat := 11

/-- Add a complaint that is not there yet, unless the file was given up. -/
def add (complaints : List Complaint) (c : Complaint) : List Complaint :=
  if limit ≤ complaints.length || complaints.contains c then complaints else complaints ++ [c]

end Complaint
end Gherkin
end StepAtlas
