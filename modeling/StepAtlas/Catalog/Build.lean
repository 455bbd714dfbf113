import StepAtlas.Catalog.Basic
import StepAtlas.Settings.Basic
import StepAtlas.Workspace

/-
The catalog of a workspace from scratch, and what a few changed files do to a catalog.
-/

namespace StepAtlas

def Settings.globs (s : Settings) : FileClass → List Text
  | .feature => s.featureGlobs
  | .definition => s.definitionGlobs

inductive ChangeKind where
  | created | changed | deleted
deriving DecidableEq, Repr

structure Change where
  cls : FileClass
  kind : ChangeKind
deriving DecidableEq, Repr

namespace Catalog

/-- Enter a loaded file.  Of a file that is too large, the entry in the catalog before stays. -/
def stage (c before : Catalog) (cls : FileClass) (p : Path) (l : Loaded) : Catalog :=
  match cls, l with
  | .feature, .feature f => c.setFeature p f
  | .feature, .oversize => ((before.features.get? p).map (c.setFeature p)).getD c
  | .definition, .definitions ds => c.setDefinitions p ds
  | .definition, .oversize => ((before.definitions.get? p).map (c.setDefinitions p)).getD c
  | _, _ => c

/-- A catalog with its features under the paths that they were read from. -/
def published (c : Catalog) : Catalog :=
  { c with features := c.features.values.foldl (fun m f => m.set f.source f) .empty }

def stageAll (w : Workspace) (limit : Int) (before : Catalog) (cls : FileClass) (c : Catalog)
    (files : List Path) :
    Except Fault Catalog :=
  files.foldlM (fun c p => do return c.stage before cls p (← w.load limit cls p)) c

/-- The catalog of a workspace.  Nothing of the catalog before survives but the entries of files
that became too large. -/
def build (w : Workspace) (s : Settings) (matcher : Matcher) (limit : Int) (before : Catalog) :
    Except Fault Catalog := do
  let c ← stageAll w limit before .feature .empty (← w.search s.excludeGlobs s.featureGlobs)
  let c ← stageAll w limit before .definition c (← w.search s.excludeGlobs s.definitionGlobs)
  return (← c.rematch matcher).published

/-- Enter a changed file.  One that could not be loaded keeps its entry. -/
def applyChange (c : Catalog) (p : Path) (change : Change) (l : Loaded) : Catalog :=
  match change.cls, change.kind, l with
  | .feature, .deleted, _ => c.removeFeature p
  | .feature, _, .feature f => c.setFeature p f
  | .definition, .deleted, _ => c.removeDefinitions p
  | .definition, _, .definitions ds => c.setDefinitions p ds
  | _, _, _ => c

def rematchFiles (matcher : Matcher) (c : Catalog) : List Path → Catalog × Option Fault
  | [] => (c, none)
  | p :: rest =>
    match c.rematchFile matcher p with
    | .ok c => rematchFiles matcher c rest
    | .error fault => (c, some fault)

/-- Enter changed files and match anew what they touch: every step if a definition may have changed,
and else the steps of these files. -/
def refresh (matcher : Matcher) (c : Catalog) (changes : List (Path × Change × Loaded)) :
    Catalog × Option Fault :=
  let c := changes.foldl (fun c (p, change, l) => c.applyChange p change l) c
  if changes.any fun (_, change, _) => change.cls = .definition then
    match c.rematch matcher with
    | .ok c => (c, none)
    | .error fault => (c, some fault)
  else c.rematchFiles matcher (changes.map (·.1))

end Catalog
end StepAtlas
