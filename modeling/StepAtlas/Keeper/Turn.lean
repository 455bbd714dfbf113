import StepAtlas.Keeper.Rebuild
import StepAtlas.Keeper.Refresh

/-
Turns.  `Keeper.take` takes one turn; `Keeper.settle` takes turns, first come first served, until
none is left.
-/

namespace StepAtlas
namespace Keeper

def finishLoad (k : Keeper) (id : Nat) (result : Except Stop Loaded) : Keeper :=
  (k.modifyLoad id fun l => { l with point := .finished result }).wake (.report id)

def readFile (k : Keeper) (id : Nat) (l : Load) : Keeper :=
  let k := k.note (.read l.path)
  k.finishLoad id ((k.workspace.load k.sizeLimit l.cls l.path).mapError .failed)

def takeLoad (k : Keeper) (id : Nat) (l : Load) : Keeper :=
  match l.point with
  | .finished _ => k
  | .held => if l.canceled then k.finishLoad id (.error .canceled) else k.readFile id l
  | .created =>
    if l.canceled then k.finishLoad id (.error .canceled)
    else if l.gone then k.finishLoad id (.ok .nothing)
    else if k.held.contains (.file l.path) then k.modifyLoad id fun l => { l with point := .held }
    else k.readFile id l

/-- A report reaches the group that a run waits for, unless that wait is over. -/
def deliver (k : Keeper) (run load : Nat) (result : Except Stop Loaded) (g : Group)
    (point : Group → Point) : Keeper :=
  if g.isDone || !g.awaited.contains load then k
  else
    let g := g.report load result
    let k := k.wait run (point g)
    if g.isDone then k.wake (.run run) else k

def takeReport (k : Keeper) (id : Nat) (l : Load) : Keeper :=
  match l.point, k.point? l.owner with
  | .finished result, some (.loading d g rest) =>
    k.deliver l.owner id result g fun g => .loading d g rest
  | .finished result, some (.applying changes g) =>
    k.deliver l.owner id result g (.applying changes)
  | _, _ => k

def enter (k : Keeper) (id : Nat) (job : Job) : Keeper :=
  match job with
  | .rebuild | .startUp => k.beginDraft id
  | .refresh | .delayedRefresh => k.beginRefresh id

def lockFor (k : Keeper) (id : Nat) (job : Job) : Keeper :=
  if !k.locked && k.queue = [] then { k with locked := true }.enter id job
  else { k with queue := k.queue ++ [id] }.wait id .queued

def connect (k : Keeper) : Keeper :=
  { k with provider := { k.provider with changed := k.provider.changed.connect () },
           connected := true }

def begin (k : Keeper) (id : Nat) (job : Job) : Keeper :=
  match job with
  | .rebuild => (k.supersede id).lockFor id job
  | .startUp => (k.connect.supersede id).lockFor id job
  | .refresh => k.lockFor id job
  | .delayedRefresh =>
    let k := k.wait id (.sleeping (k.clock + k.delay))
    if k.delay = 0 then k.wake (.run id) else k

def takeRun (k : Keeper) (id : Nat) (r : Run) : Keeper :=
  match r.point with
  | .finished _ => k
  | .created => if r.canceled then k.finish id (.error .canceled) else k.begin id r.job
  | .queued =>
    let k := { k with queue := k.queue.erase id }
    if r.canceled then
      let k := if k.locked then k else k.wakeQueue
      k.finish id (.error .canceled)
    else { k with locked := true }.enter id r.job
  | .searching d found pattern rest =>
    if r.canceled then k.giveUp id (.error .canceled) else k.resumeSearch id d found pattern rest
  | .loading d g rest =>
    if r.canceled then k.giveUp id (.error .canceled) else k.enterGroup id d g rest
  | .yielding d rest => if r.canceled then k.giveUp id (.error .canceled) else k.loadFiles id d rest
  | .applying changes g =>
    if r.canceled then k.leave id (.error .canceled) else k.applyChanges id changes g
  | .sleeping _ =>
    if r.canceled then k.finish id (.error .canceled) else { k with timer := none }.lockFor id r.job

def take (k : Keeper) : Turn → Keeper
  | .run id => ((k.runs[id]?).map (k.takeRun id)).getD k
  | .load id => ((k.loads[id]?).map (k.takeLoad id)).getD k
  | .report id => ((k.loads[id]?).map (k.takeReport id)).getD k
  | .alarm id =>
    match k.point? id with
    | some (.sleeping _) => k.wakeOnce (.run id)
    | _ => k

def step (k : Keeper) : Keeper :=
  match k.ready with
  | [] => k
  | t :: rest => { k with ready := rest }.take t

/-- Take turns until none is left, but at most so many. -/
def steps : Nat → Keeper → Keeper
  | 0, k => k
  | n + 1, k => if k.ready.isEmpty then k else steps n k.step

/-- Let the clock wake the runs whose time has come. -/
def ring (k : Keeper) : Keeper :=
  let due (id : Nat) : Bool := match k.point? id with
    | some (.sleeping wake) => decide (wake ≤ k.clock) && !k.ready.contains (.run id)
    | _ => false
  { k with ready := k.ready ++ ((List.range k.runs.length).filter due).map .alarm }

/-- The number of paths that some patterns lead to. -/
def reach (k : Keeper) (s : Settings) : Nat :=
  let count (pattern : Text) : Nat := match k.workspace.find pattern s.excludeGlobs with
    | .ok files => files.length
    | .error _ => 0
  (s.featureGlobs ++ s.definitionGlobs).foldr (count · + ·) 0

def filesLeft (k : Keeper) (r : Run) : Nat :=
  match r.point with
  | .created | .queued | .sleeping _ => k.reach k.settings + k.pending.size
  | .searching d found _ _ => k.reach d.settings + found.length
  | .loading d g rest => k.reach d.settings + g.loads.length + rest.length
  | .yielding d rest => k.reach d.settings + rest.length
  | .applying _ g => g.loads.length
  | .finished _ => 0

/-- A bound for the turns until all runs wait for something outside.  A run takes four turns besides
those for files, and a file takes four: it is loaded and reported, and its group is entered and
left. -/
def effort (k : Keeper) : Nat :=
  k.ready.length + 2 * k.loads.length + k.runs.foldr (fun r n => 4 + 4 * k.filesLeft r + n) 0

def settle (k : Keeper) : Keeper :=
  let k := k.ring
  k.steps k.effort

end Keeper
end StepAtlas
