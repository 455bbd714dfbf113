import StepAtlas.Disk.Basic
import StepAtlas.Gherkin.Language
import StepAtlas.Log
import StepAtlas.Settings.Basic
import StepAtlas.Toml.Reader

/-
Settings in layers.  A file of the user, a file of the project and variables of the environment each
give some of the settings; what a later layer gives counts, and what none gives has its standard
value.
-/

namespace StepAtlas

structure Layer where
  featureGlobs : Option (List Text)
  definitionGlobs : Option (List Text)
  excludeGlobs : Option (List Text)
  diagnostics : Option Value
  mode : Option MatchMode
deriving Repr

namespace Layer

/-- The settings in the table of a file.  Keys that are no settings are passed over. -/
def ofTable (entries : List (Text × Value)) : Except Refusal Layer := do
  let globs (key : Text) : Except Refusal (Option (List Text)) :=
    (given? key entries).mapM (globsOf key)
  return {
    featureGlobs := ← globs "feature_globs"
    definitionGlobs := ← globs "step_def_globs"
    excludeGlobs := ← globs "exclude_globs"
    diagnostics := (given? "enable_diagnostics" entries).map fun v => .bool v.isTrue
    mode := ← (given? "match_mode" entries).mapM (MatchMode.parse .noModeSpelled) }

/-- The value of a variable of the environment.  An empty variable counts as none. -/
def set? (name : Text) (environment : List (Text × Text)) : Option Text :=
  (environment.lookup name).filter (· ≠ [])

def ofVariables (environment : List (Text × Text)) : Except Refusal Layer := do
  let yes : List Text := ["true", "1", "yes"]
  return {
    featureGlobs := (set? "CUKEDASH_FEATURE_GLOBS" environment).map splitGlobs
    definitionGlobs := (set? "CUKEDASH_STEP_DEF_GLOBS" environment).map splitGlobs
    excludeGlobs := (set? "CUKEDASH_EXCLUDE_GLOBS" environment).map splitGlobs
    diagnostics := (set? "CUKEDASH_ENABLE_DIAGNOSTICS" environment).map fun t =>
      .bool (yes.contains t.lowerAscii)
    mode := ← (set? "CUKEDASH_MATCH_MODE" environment).mapM fun t =>
      MatchMode.parse .noMode (.text t) }

def apply (l : Layer) (s : Settings) : Settings :=
  { s with
    featureGlobs := l.featureGlobs.getD s.featureGlobs
    definitionGlobs := l.definitionGlobs.getD s.definitionGlobs
    excludeGlobs := l.excludeGlobs.getD s.excludeGlobs
    diagnostics := l.diagnostics.getD s.diagnostics
    mode := l.mode.getD s.mode }

end Layer

structure Host where
  disk : Disk
  /-- The settings file of the user. -/
  userSettings : Option Bytes
  /-- The variables of the environment. -/
  environment : List (Text × Text)
  /-- The languages that features may be in beside English. -/
  languages : List Gherkin.Language := []
  machine : Machine := .boundless
deriving Inhabited

namespace Host

def unparsed (path words : Text) : Text :=
  "[yellow]Warning:[/yellow] Could not parse " ++ path ++ ": " ++ words

/-- The table in a settings file.  A file that is missing or cannot be understood gives nothing; one
that is no text or that is too much for the machine is an error. -/
def table (m : Machine) (path : Text) : Option Bytes → Except Fault (List (Text × Value))
  | none => .ok []
  | some content =>
    match Utf8.decode content with
    | .error words => .error (.undecodable words)
    | .ok text =>
      match Toml.parse m text.unifyBreaks with
      | .error fault => .error fault
      | .ok (.ok entries) => .ok entries
      | .ok (.error words) => do
        log (unparsed path words)
        return []

def userPath : Text := "~/.config/cukedash/config.toml"

def userTable (h : Host) : Except Fault (List (Text × Value)) :=
  table h.machine userPath h.userSettings

def settingsPath (projectDir : Path) : Path := projectDir.join (.ofText ".cukedash/config.toml")

def projectSettings (h : Host) (projectDir : Path) : Option Bytes :=
  match h.disk.find (settingsPath projectDir) with
  | .ok (.file content) => some content
  | _ => none

def projectTable (h : Host) (projectDir : Path) : Except Fault (List (Text × Value)) :=
  table h.machine (settingsPath projectDir).toText (h.projectSettings projectDir)

def settings (h : Host) (projectDir : Path) : Except Fault Settings := do
  let user ← Refusal.raise h.machine (Layer.ofTable (← h.userTable))
  let project ← Refusal.raise h.machine (Layer.ofTable (← h.projectTable projectDir))
  let fromEnvironment ← Refusal.raise h.machine (Layer.ofVariables h.environment)
  return fromEnvironment.apply (project.apply (user.apply (.standard projectDir)))

end Host
end StepAtlas
