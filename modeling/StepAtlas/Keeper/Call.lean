import StepAtlas.Keeper.Turn

/-
What can be asked of a keeper from outside.  A call is done at once; what it starts is done in later
turns.
-/

namespace StepAtlas
namespace Keeper

def ofFolder (h : Host) (dir : Path) : Except Fault Keeper := do
  let root ← h.disk.projectRoot dir
  let settings ← h.settings root
  return new (.ofDisk h.languages h.disk root) (.new h.machine root settings) 20 Workspace.sizeLimit
    500 false

def cancelLoad (k : Keeper) (id : Nat) : Keeper :=
  match k.loadPoint? id with
  | some .created => k.modifyLoad id fun l => { l with canceled := true }
  | some .held => (k.modifyLoad id fun l => { l with canceled := true }).wakeOnce (.load id)
  | _ => k

def isLoading (k : Keeper) (id : Nat) : Bool :=
  match k.loadPoint? id with
  | some (.finished _) | none => false
  | _ => true

/-- Tell a run to stop.  One that waits for loads stops when they have. -/
def cancelRun (k : Keeper) (id : Nat) : Keeper :=
  let flagged := k.modifyRun id fun r => { r with canceled := true }
  let stopLoads (g : Group) (point : Group → Point) : Keeper :=
    if !g.isDone && g.loads.any k.isLoading then
      (g.loads.foldl cancelLoad k).wait id (point { g with stopping := true })
    else flagged
  match k.point? id with
  | none | some (.finished _) => k
  | some .created | some (.yielding _ _) => flagged
  | some .queued | some (.searching _ _ _ _) | some (.sleeping _) => flagged.wakeOnce (.run id)
  | some (.loading d g rest) => stopLoads g fun g => .loading d g rest
  | some (.applying changes g) => stopLoads g (.applying changes)

/-- A file has changed.  The change is applied together with others after a while without further
ones. -/
def notify (k : Keeper) (p : Path) (c : Change) : Keeper :=
  if k.disposed then k
  else
    let k := { k with pending := k.pending.set p c }
    let k := (k.timer.map k.cancelRun).getD k
    let (k, id) := k.start .delayedRefresh
    { k with timer := some id }

def fire (k : Keeper) (p : Path) (c : Change) : Keeper :=
  (k.watches.filter (·.cls = c.cls)).foldl (fun k _ => k.notify p c) k

def switchMode (k : Keeper) (mode : MatchMode) : Keeper × Option Fault :=
  let k := { k with matcher := k.matcher.inMode mode }
  match k.catalog.rematch k.matcher with
  | .ok catalog => { k with catalog }.announce
  | .error fault => (k, some fault)

def spawnRebuild (k : Keeper) : Keeper :=
  if k.attended then
    let (k, id) := k.start .rebuild
    { k with background := k.background ++ [id] }
  else k

def settingsChanged (k : Keeper) : Keeper × Option Fault :=
  let before := k.settings
  let now := k.provider.settings
  let k := { k with settings := now }
  if !before.sameFiles now then
    ({ k with matcher := k.matcher.inMode now.mode }.setUpWatches.spawnRebuild, none)
  else if now.mode ≠ before.mode then k.switchMode now.mode
  else (k, none)

/-- Change some settings; the result says whether that makes a difference. -/
def changeSettings (k : Keeper) (changes : List (Text × Value)) : Keeper × Except Fault Bool :=
  match k.provider.update changes with
  | .error fault => (k, .error fault)
  | .ok (provider, false) => ({ k with provider }, .ok false)
  | .ok (provider, true) =>
    match Signal.callAll (fun () k => k.settingsChanged) provider.changed.listeners
      { k with provider } with
    | (k, none) => (k, .ok true)
    | (k, some fault) => (k, .error fault)

def listen (k : Keeper) (l : Listener) : Keeper := { k with changed := k.changed.connect l }

def disconnect (k : Keeper) : Keeper :=
  if k.connected then
    { k with provider := { k.provider with changed := k.provider.changed.disconnect () },
             connected := false }
  else k

def dispose (k : Keeper) : Keeper :=
  let k := { k with disposed := true }.supersedeCurrent
  let k := (k.timer.map k.cancelRun).getD k
  let k := { k with timer := none, pending := .empty }
  let k := k.background.foldl cancelRun k
  let k := { k with subscriptions := k.subscriptions.release }.disconnect
  { k with changed := k.changed.dispose }

def hold (k : Keeper) (g : Gate) : Keeper :=
  if k.held.contains g then k else { k with held := g :: k.held }

/-- Whether a load waits for a file to be handed out. -/
def isHeldAt (k : Keeper) (p : Path) (id : Nat) : Bool :=
  match k.loads[id]? with
  | some { path, point := .held, .. } => path = p
  | _ => false

def isSearching (k : Keeper) (pattern : Text) (id : Nat) : Bool :=
  match k.point? id with
  | some (.searching _ _ p _) => p = pattern
  | _ => false

def release (k : Keeper) (g : Gate) : Keeper :=
  let waiting : List Turn := match g with
    | .file p => ((List.range k.loads.length).filter (k.isHeldAt p)).map .load
    | .pattern p => ((List.range k.runs.length).filter (k.isSearching p)).map .run
  waiting.foldl wakeOnce { k with held := k.held.erase g }

def pass (k : Keeper) (ms : Nat) : Keeper := { k with clock := k.clock + ms }

/-- Nobody lets the keeper work any more: everything under way is told to stop. -/
def abandon (k : Keeper) : Keeper :=
  let k := (List.range k.runs.length).foldl cancelRun k
  let k := (List.range k.loads.length).foldl cancelLoad k
  { k.settle with attended := false }

def result? (k : Keeper) (id : Nat) : Option (Except Stop Bool) :=
  match k.point? id with
  | some (.finished result) => some result
  | _ => none

end Keeper
end StepAtlas
