import StepAtlas.Fault
import StepAtlas.Matching
import StepAtlas.Value

/-
Settings: where the files are, and how steps are matched.
-/

namespace StepAtlas

inductive Refusal where
  | unknownKeys (keys : List Text)
  | noGlobs (key : Text) (v : Value)
  | noMode (v : Value)
  /-- No mode is named by a value that was made plain text before. -/
  | noModeSpelled (v : Value)

namespace Refusal

def message : Refusal → Text
  | .unknownKeys keys => "Unknown setting(s): " ++ Text.join ", " keys
  | .noGlobs key v => key ++ " must be a list of glob strings, got " ++ v.shown
  | .noMode v => unknownMode v
  | .noModeSpelled v => unknownMode (.text v.plain)
where
  unknownMode (v : Value) : Text :=
    "Unknown match mode " ++ v.shown ++ "; expected one of: both, regex, expression"

/-- What happens instead if the message cannot be put together. -/
def failure? (m : Machine) : Refusal → Option Fault
  | .unknownKeys _ => none
  | .noGlobs _ v => m.unwritable? .quote v
  | .noMode v => m.unwritable? .spell v <|> m.unwritable? .quote v
  | .noModeSpelled v => m.unwritable? .spell v

def fault (m : Machine) (r : Refusal) : Fault := (r.failure? m).getD (.settings r.message)

def raise {α : Type} (m : Machine) (result : Except Refusal α) : Except Fault α :=
  result.mapError (fault m)

@[simp] theorem raise_ok {α : Type} (m : Machine) (a : α) : raise m (.ok a) = .ok a := rfl

@[simp] theorem raise_error {α : Type} (m : Machine) (r : Refusal) :
    raise m (.error r : Except Refusal α) = .error (r.fault m) := rfl

end Refusal

/-- The mode that a text names, in any case and with or without the word `-only` behind it. -/
def MatchMode.named? (t : Text) : Option MatchMode :=
  let word := (Text.trim t).lowerAscii
  ofWord? (if Text.endsWith word "-only" then word.dropLast.dropLast.dropLast.dropLast.dropLast
    else word)

/-- The mode that a value names, or a refusal of the value.  A value that cannot be made plain text
names none, so whether it can does not have to be known here. -/
def MatchMode.parse (refuse : Value → Refusal) (v : Value) : Except Refusal MatchMode :=
  match named? v.plain with
  | some mode => .ok mode
  | none => .error (refuse v)

structure Settings where
  /-- The folder that patterns start from; any value may be given for it. -/
  projectDir : Value
  featureGlobs : List Text
  definitionGlobs : List Text
  excludeGlobs : List Text
  /-- Whether problems are to be published; any value may be given for it. -/
  diagnostics : Value
  mode : MatchMode
deriving Repr

namespace Settings

def standard (projectDir : Path) : Settings :=
  { projectDir := .path projectDir
    featureGlobs := ["features/**/*.feature", "**/*.feature"]
    definitionGlobs :=
      ["**/*.\x7bsteps,step,stepdefs\x7d.\x7bts,js\x7d", "**/*steps*/**/*.\x7bts,js\x7d"]
    excludeGlobs := ["**/node_modules/**", "**/dist/**", "**/build/**", "**/.git/**"]
    diagnostics := .bool true
    mode := .both }

def sameFiles (a b : Settings) : Bool :=
  a.projectDir.same b.projectDir && a.featureGlobs = b.featureGlobs && a.definitionGlobs =
    b.definitionGlobs && a.excludeGlobs = b.excludeGlobs

def same (a b : Settings) : Bool :=
  a.sameFiles b && a.diagnostics.same b.diagnostics && a.mode = b.mode

end Settings

def given? (key : Text) (entries : List (Text × Value)) : Option Value := entries.lookup key

namespace Value

def text? : Value → Option Text
  | .text t => some t
  | _ => none

def globs? : Value → Option (List Text)
  | .text t => some [t]
  | .list items => items.mapM text?
  | _ => none

end Value

def globsOf (key : Text) (v : Value) : Except Refusal (List Text) :=
  match v.globs? with
  | some globs => .ok globs
  | none => .error (.noGlobs key v)

/-- The pieces of a text between the commas outside braces.  `depth` counts the open braces, and
`current` is the piece being read, last code point first. -/
def splitGlobsFrom (depth : Nat) (current : Text) : Text → List Text
  | [] => [current.reverse]
  | p :: r =>
    if p = .scalar ',' ∧ depth = 0 then current.reverse :: splitGlobsFrom 0 [] r
    else
      let depth :=
        if p = .scalar '\x7b' then depth + 1 else if p = .scalar '\x7d' then depth - 1 else depth
      splitGlobsFrom depth (p :: current) r

/-- The patterns in a text that separates them by commas; a comma inside braces belongs to a
pattern. -/
def splitGlobs (t : Text) : List Text :=
  ((splitGlobsFrom 0 [] t).map Text.trim).filter (· ≠ [])

end StepAtlas
