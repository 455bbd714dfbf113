import StepAtlas.Settings.Layer
import StepAtlas.Signal

/-
The settings in force, which may be changed while the program runs.  A change that makes no sense
changes nothing; one that makes a difference is signalled.
-/

namespace StepAtlas

def Settings.keys : List Text :=
  ["project_dir", "feature_globs", "step_def_globs", "exclude_globs", "enable_diagnostics",
    "match_mode"]

namespace Settings

def changedMode (s : Settings) (changes : List (Text × Value)) : Except Refusal MatchMode :=
  match given? "match_mode" changes with
  | some v => MatchMode.parse .noMode v
  | none => .ok s.mode

def changedGlobs (changes : List (Text × Value)) (key : Text) (globs : List Text) :
    Except Refusal (List Text) :=
  match given? key changes with
  | some v => globsOf key v
  | none => .ok globs

def changedDir (s : Settings) (changes : List (Text × Value)) : Value :=
  (given? "project_dir" changes).getD s.projectDir

/-- The settings after some changes.  Every key has to be a setting and every value has to make
sense. -/
def change (s : Settings) (changes : List (Text × Value)) : Except Refusal Settings := do
  let unknown :=
    ((changes.map (·.1)).filter fun key => !keys.contains key).mergeSort fun a b => !Text.before b a
  if unknown ≠ [] then throw (.unknownKeys unknown)
  let mode ← s.changedMode changes
  return {
    projectDir := s.changedDir changes
    featureGlobs := ← changedGlobs changes "feature_globs" s.featureGlobs
    definitionGlobs := ← changedGlobs changes "step_def_globs" s.definitionGlobs
    excludeGlobs := ← changedGlobs changes "exclude_globs" s.excludeGlobs
    diagnostics := (given? "enable_diagnostics" changes).getD s.diagnostics
    mode }

end Settings

structure Provider (α : Type) where
  machine : Machine
  /-- The folder that the settings are read for. -/
  projectDir : Path
  settings : Settings
  changed : Signal α

namespace Provider

variable {α : Type}

def new (machine : Machine) (projectDir : Path) (settings : Settings) : Provider α :=
  { machine, projectDir, settings, changed := .new }

def matcher (p : Provider α) : Matcher := { mode := p.settings.mode, machine := p.machine }

/-- Take new settings; the result says whether they make a difference and are to be signalled. -/
def take (p : Provider α) (s : Settings) : Provider α × Bool :=
  if s.same p.settings then (p, false) else ({ p with settings := s }, true)

def update (p : Provider α) (changes : List (Text × Value)) : Except Fault (Provider α × Bool) := do
  return p.take (← Refusal.raise p.machine (p.settings.change changes))

def reload (p : Provider α) (h : Host) : Except Fault (Provider α × Bool) := do
  return p.take (← h.settings p.projectDir)

inductive Call where
  | update (changes : List (Text × Value))
  /-- Read all settings again, from what is there now. -/
  | reload (h : Host)

def answer (p : Provider α) : Call → Except Fault (Provider α × Bool)
  | .update changes => p.update changes
  | .reload h => p.reload h

end Provider

/-- A provider and what its listeners have seen: who was called, and the settings in force at the
time. -/
structure Session (α : Type) where
  provider : Provider α
  seen : List (α × Settings)

namespace Session

variable {α : Type}

def signal (s : Session α) : Session α :=
  let call (a : α) (s : Session α) : Session α × Option Fault :=
    ({ s with seen := s.seen ++ [(a, s.provider.settings)] }, none)
  (Signal.callAll call s.provider.changed.listeners s).1

/-- Make a call; the result says whether it makes a difference. -/
def perform (s : Session α) (c : Provider.Call) : Session α × Except Fault Bool :=
  match s.provider.answer c with
  | .error fault => (s, .error fault)
  | .ok (provider, true) => ({ s with provider }.signal, .ok true)
  | .ok (provider, false) => ({ s with provider }, .ok false)

/-- The session after some calls, whatever they result in. -/
def after (s : Session α) (calls : List Provider.Call) : Session α :=
  calls.foldl (fun s c => (s.perform c).1) s

end Session
end StepAtlas
