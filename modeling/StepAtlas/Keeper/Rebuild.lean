import StepAtlas.Keeper.Basic

/-
Building the catalog from scratch.  The new catalog is a draft until it is complete, and takes the
place of the old one at once.  A run that was superseded before that leaves the old catalog alone.
-/

namespace StepAtlas
namespace Keeper

/-- End a run that builds the catalog; after a start the files are watched. -/
def finishBuild (k : Keeper) (id : Nat) (result : Except Stop Bool) : Keeper :=
  let starting := (k.runs[id]?).any (·.job = .startUp)
  let k := match result with
    | .ok _ => if starting then k.setUpWatches else k
    | .error _ => k
  k.finish id result

def giveUp (k : Keeper) (id : Nat) (result : Except Stop Bool) : Keeper :=
  let k := if k.current = some id then { k with current := none } else k
  k.unlock.finishBuild id result

/-- Put the draft in place of the catalog and tell the listeners. -/
def publish (k : Keeper) (id : Nat) (c : Catalog) : Keeper :=
  let k := if k.current = some id then { k with current := none } else k
  match { k with catalog := c.published }.unlock.announce with
  | (k, none) => k.finishBuild id (.ok true)
  | (k, some fault) => k.finishBuild id (.error (.failed fault))

def complete (k : Keeper) (id : Nat) (d : Draft) : Keeper :=
  if k.isSuperseded id then k.giveUp id (.ok false)
  else match d.staged.rematch k.matcher with
    | .ok c => k.publish id c
    | .error fault => k.giveUp id (.error (.failed fault))

/-- Load the next group of files, or go on with `next` if there is none. -/
def loadGroup (next : Keeper → Keeper) (k : Keeper) (id : Nat) (d : Draft) (files : List Path) :
    Keeper :=
  if files = [] then next k
  else if k.isSuperseded id then k.giveUp id (.ok false)
  else
    let (k, g) := k.startLoads id ((files.take k.groupSize).map fun p => (p, d.cls, false))
    k.wait id (.loading d g (files.drop k.groupSize))

inductive Search where
  /-- A pattern is held back. -/
  | waits (found : List Path) (pattern : Text) (rest : List Text)
  | done (found : List Path)
  | failed (fault : Fault)

/-- Look for the files that patterns lead to, up to the first pattern that is held back. -/
def searchFrom (k : Keeper) (exclude : List Text) (found : List Path) : List Text → Search
  | [] => .done found
  | pattern :: rest =>
    if k.held.contains (.pattern pattern) then .waits found pattern rest
    else match k.workspace.find pattern exclude with
      | .ok new => searchFrom k exclude (Workspace.addNew found new) rest
      | .error fault => .failed fault

def searched (next : Keeper → Nat → Draft → List Path → Keeper) (k : Keeper) (id : Nat)
    (d : Draft) : Search → Keeper
  | .waits found pattern rest => k.wait id (.searching d found pattern rest)
  | .done files => if k.isSuperseded id then k.giveUp id (.ok false) else next k id d files
  | .failed fault => k.giveUp id (.error (.failed fault))

def loadDefinitions (k : Keeper) (id : Nat) (d : Draft) (files : List Path) : Keeper :=
  loadGroup (fun k => k.complete id d) k id d files

def searchDefinitions (k : Keeper) (id : Nat) (d : Draft) : Keeper :=
  let d := { d with cls := .definition }
  searched loadDefinitions k id d
    (k.searchFrom d.settings.excludeGlobs [] d.settings.definitionGlobs)

def loadFeatures (k : Keeper) (id : Nat) (d : Draft) (files : List Path) : Keeper :=
  loadGroup (fun k => k.searchDefinitions id d) k id d files

def loadFiles (k : Keeper) (id : Nat) (d : Draft) (files : List Path) : Keeper :=
  match d.cls with
  | .feature => k.loadFeatures id d files
  | .definition => k.loadDefinitions id d files

/-- Begin a draft; the run holds the lock. -/
def beginDraft (k : Keeper) (id : Nat) : Keeper :=
  if k.isSuperseded id then k.giveUp id (.ok false)
  else
    let d : Draft := { settings := k.settings, cls := .feature, staged := .empty }
    searched loadFeatures k id d (k.searchFrom d.settings.excludeGlobs [] d.settings.featureGlobs)

def resumeSearch (k : Keeper) (id : Nat) (d : Draft) (found : List Path) (pattern : Text)
    (rest : List Text) :
    Keeper :=
  match k.workspace.find pattern d.settings.excludeGlobs with
  | .ok new =>
    let found := Workspace.addNew found new
    searched loadFiles k id d (k.searchFrom d.settings.excludeGlobs found rest)
  | .error fault => k.giveUp id (.error (.failed fault))

def enterGroup (k : Keeper) (id : Nat) (d : Draft) (g : Group) (rest : List Path) : Keeper :=
  match g.stop with
  | some stop => k.giveUp id (.error stop)
  | none =>
    if k.isSuperseded id then k.giveUp id (.ok false)
    else
      let enter (c : Catalog) (load : Nat) : Catalog :=
        match k.loads[load]? with
        | some l => c.stage k.catalog d.cls l.path (k.loaded load)
        | none => c
      let d := { d with staged := g.loads.foldl enter d.staged }
      (k.wait id (.yielding d rest)).wake (.run id)

/-- The catalog that is being built is no longer wanted. -/
def supersedeCurrent (k : Keeper) : Keeper :=
  match k.current with
  | some id => k.modifyRun id fun r => { r with superseded := true }
  | none => k

/-- Make a run the one whose catalog is wanted.  After the end of the keeper none is. -/
def supersede (k : Keeper) (id : Nat) : Keeper :=
  let k := k.supersedeCurrent
  { k with current := some id }.modifyRun id fun r => { r with superseded := k.disposed }

end Keeper
end StepAtlas
