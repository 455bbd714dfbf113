import StepAtlas.Catalog.Build
import StepAtlas.Settings.Provider

/-
The keeper of a catalog.  It keeps the catalog in step with the files of a workspace, while files
and settings change.

The work is done by runs, which take turns.  A run goes on until it has to wait: for the lock, which
one run holds at a time, for files that are being loaded, or for its turn.  Between two turns
nothing is half done, so everything that can be observed is a state of the keeper between turns.
`ready` holds the turns that can be taken; which of them is taken next is up to whoever lets the
keeper work, and first come first served is the usual order.
-/

namespace StepAtlas

/-- Why a run or a load ends without a result. -/
inductive Stop where
  | canceled
  | failed (fault : Fault)
deriving DecidableEq, Repr

inductive Job where
  /-- Build the catalog from scratch. -/
  | rebuild
  /-- Start listening to the settings, build the catalog, and watch the files from then on. -/
  | startUp
  /-- Apply the pending changes. -/
  | refresh
  /-- Apply the pending changes after a while without further ones. -/
  | delayedRefresh
deriving DecidableEq, Repr

/-- Loads that are waited for together, by their numbers. -/
structure Group where
  loads : List Nat
  /-- The loads that have not reported yet. -/
  awaited : List Nat
  /-- Whether the loads were told to stop. -/
  stopping : Bool
  /-- What ends the wait early. -/
  stop : Option Stop
deriving DecidableEq, Repr

/-- Whether there is nothing left to wait for. -/
def Group.isDone (g : Group) : Bool := g.stop.isSome || g.awaited = []

/-- Take the report of a load.  The first load that fails ends the wait. -/
def Group.report (g : Group) (load : Nat) (result : Except Stop Loaded) : Group :=
  match result with
  | .error stop => { g with stop := some stop }
  | .ok _ =>
    let awaited := g.awaited.erase load
    { g with awaited, stop := if awaited = [] && g.stopping then some .canceled else none }

structure Draft where
  /-- The settings when the run began to build. -/
  settings : Settings
  /-- The class of files that is being entered: first features, then definitions. -/
  cls : FileClass
  staged : Catalog
deriving Repr

inductive Point where
  /-- It has not begun. -/
  | created
  /-- For the lock. -/
  | queued
  /-- For the files that a pattern leads to. -/
  | searching (d : Draft) (found : List Path) (pattern : Text) (rest : List Text)
  /-- For the files of a group; `rest` are those that come after them. -/
  | loading (d : Draft) (g : Group) (rest : List Path)
  /-- For its turn, after a group. -/
  | yielding (d : Draft) (rest : List Path)
  /-- For the files that changed. -/
  | applying (changes : PathMap Change) (g : Group)
  /-- For the clock. -/
  | sleeping (wake : Nat)
  | finished (result : Except Stop Bool)
deriving Repr

structure Run where
  job : Job
  point : Point
  /-- Whether it ends at its next turn. -/
  canceled : Bool
  /-- Whether its catalog is no longer wanted. -/
  superseded : Bool
deriving Repr

inductive LoadPoint where
  /-- It has not begun. -/
  | created
  /-- For the file to be handed out. -/
  | held
  | finished (result : Except Stop Loaded)
deriving Repr

structure Load where
  owner : Nat
  path : Path
  cls : FileClass
  /-- Whether the file is gone, so that there is nothing to read. -/
  gone : Bool
  point : LoadPoint
  canceled : Bool
deriving Repr

inductive Turn where
  /-- A run goes on. -/
  | run (id : Nat)
  /-- A load goes on. -/
  | load (id : Nat)
  /-- A finished load reports to its run. -/
  | report (id : Nat)
  /-- The clock wakes a run. -/
  | alarm (id : Nat)
deriving DecidableEq, Repr

inductive Gate where
  /-- The content of a file. -/
  | file (path : Path)
  /-- The files that a pattern leads to. -/
  | pattern (pattern : Text)
deriving DecidableEq, Repr

structure Listener where
  name : Text
  /-- What goes wrong when it is called. -/
  fault : Option Fault
deriving DecidableEq, Repr

structure Watch where
  globs : List Text
  cls : FileClass
deriving DecidableEq, Repr

structure Subscriptions where
  /-- Those that are told of changes. -/
  live : List Watch
  /-- Those that the keeper can take back. -/
  handles : List Watch
deriving DecidableEq, Repr

namespace Subscriptions

def none : Subscriptions := { live := [], handles := [] }

def release (s : Subscriptions) : Subscriptions :=
  { live := s.handles.foldl List.erase s.live, handles := [] }

/-- Subscribe; from then on these subscriptions can be taken back, and no others. -/
def subscribe (s : Subscriptions) (watches : List Watch) : Subscriptions :=
  { live := s.live ++ watches, handles := watches }

end Subscriptions

/-- The subscriptions that settings ask for: one for each class of files. -/
def Settings.watches (s : Settings) : List Watch :=
  [{ globs := s.featureGlobs, cls := .feature }, { globs := s.definitionGlobs, cls := .definition }]

inductive Event where
  | read (path : Path)
  | called (listener : Text)
deriving DecidableEq, Repr

structure Keeper where
  workspace : Workspace
  /-- What the workspace holds back at present. -/
  held : List Gate
  /-- The time in milliseconds. -/
  clock : Nat
  /-- The number of files that are loaded together. -/
  groupSize : Nat
  /-- The number of bytes from which on a file is too large. -/
  sizeLimit : Int
  /-- How long to wait for further changes, in milliseconds. -/
  delay : Nat
  /-- Whether changes of files can be watched. -/
  watchable : Bool
  /-- Whether runs can be started. -/
  attended : Bool
  /-- The settings in force; its listeners are the connections of this keeper. -/
  provider : Provider Unit
  /-- Whether the keeper can take back its last connection. -/
  connected : Bool
  /-- The settings that the keeper works with. -/
  settings : Settings
  matcher : Matcher
  catalog : Catalog
  changed : Signal Listener
  subscriptions : Subscriptions
  disposed : Bool
  /-- Changes that are still to be applied. -/
  pending : PathMap Change
  /-- The run that will apply them. -/
  timer : Option Nat
  locked : Bool
  /-- The runs that wait for the lock, first come first. -/
  queue : List Nat
  /-- The run whose catalog is wanted. -/
  current : Option Nat
  /-- The runs that a change of settings has started. -/
  background : List Nat
  runs : List Run
  loads : List Load
  ready : List Turn
  /-- What was done to the outside so far. -/
  events : List Event

namespace Keeper

def new (w : Workspace) (provider : Provider Unit) (groupSize : Nat) (sizeLimit : Int) (delay : Nat)
    (watchable : Bool) : Keeper :=
  { workspace := w, held := [], clock := 0, groupSize := max 1 groupSize, sizeLimit, delay,
    watchable, attended := true
    provider, connected := false, settings := provider.settings, matcher := provider.matcher
    catalog := .empty, changed := .new, subscriptions := .none, disposed := false
    pending := .empty, timer := none, locked := false, queue := [], current := none
    background := [], runs := [], loads := [], ready := [], events := [] }

def wake (k : Keeper) (t : Turn) : Keeper := { k with ready := k.ready ++ [t] }

/-- Make a turn possible unless it is. -/
def wakeOnce (k : Keeper) (t : Turn) : Keeper := if k.ready.contains t then k else k.wake t

def note (k : Keeper) (e : Event) : Keeper := { k with events := k.events ++ [e] }

def modifyRun (k : Keeper) (id : Nat) (f : Run → Run) : Keeper :=
  { k with runs := k.runs.modify id f }

def modifyLoad (k : Keeper) (id : Nat) (f : Load → Load) : Keeper :=
  { k with loads := k.loads.modify id f }

def point? (k : Keeper) (id : Nat) : Option Point := k.runs[id]?.map Run.point

def loadPoint? (k : Keeper) (id : Nat) : Option LoadPoint := k.loads[id]?.map Load.point

def wait (k : Keeper) (id : Nat) (p : Point) : Keeper :=
  k.modifyRun id fun r => { r with point := p }

def isSuperseded (k : Keeper) (id : Nat) : Bool := (k.runs[id]?).any (·.superseded)

/-- Start a run; it begins at its first turn.  The number of the run comes with it. -/
def start (k : Keeper) (job : Job) : Keeper × Nat :=
  let id := k.runs.length
  let run : Run := { job, point := .created, canceled := false, superseded := false }
  ({ k with runs := k.runs ++ [run] }.wake (.run id), id)

def startLoads (k : Keeper) (owner : Nat) (files : List (Path × FileClass × Bool)) :
    Keeper × Group :=
  let ids := (List.range files.length).map (k.loads.length + ·)
  let load : Path × FileClass × Bool → Load := fun (path, cls, gone) =>
    { owner, path, cls, gone, point := .created, canceled := false }
  ({ k with loads := k.loads ++ files.map load, ready := k.ready ++ ids.map .load },
    { loads := ids, awaited := ids, stopping := false, stop := none })

def loaded (k : Keeper) (id : Nat) : Loaded :=
  match k.loadPoint? id with
  | some (.finished (.ok l)) => l
  | _ => .unreadable

/-- Let the first run that waits for the lock have a look. -/
def wakeQueue (k : Keeper) : Keeper :=
  match k.queue with
  | id :: _ => k.wakeOnce (.run id)
  | [] => k

def unlock (k : Keeper) : Keeper := wakeQueue { k with locked := false }

def announce (k : Keeper) : Keeper × Option Fault :=
  Signal.callAll (fun l k => (k.note (.called l.name), l.fault)) k.changed.listeners k

def watches (k : Keeper) : List Watch := k.subscriptions.live

/-- Subscribe to the files that the settings name, in place of all earlier subscriptions. -/
def setUpWatches (k : Keeper) : Keeper :=
  let released := k.subscriptions.release
  let subscriptions :=
    if k.watchable && !k.disposed then released.subscribe k.settings.watches else released
  { k with subscriptions }

def finish (k : Keeper) (id : Nat) (result : Except Stop Bool) : Keeper :=
  k.wait id (.finished result)

end Keeper
end StepAtlas
