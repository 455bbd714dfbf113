import StepAtlas.Proofs.Keeper.Effects
import StepAtlas.Proofs.Matching

/-
What a turn can come to, said once.  `Builds`, `Enters` and `TakesRun` list the ways in which a run
can go on until it waits again, `TakesLoad` and `TakesReport` what a load and its report can do.
What a turn preserves is then shown by going through these cases.

A draft has a goal: the catalog that it becomes when all files that are still to come have been
entered.  Searching, loading and entering files brings a draft nearer to its goal and does not
change it.
-/

namespace StepAtlas

def Workspace.searchOn (w : Workspace) (exclude : List Text) (found : List Path)
    (patterns : List Text) :
    Except Fault (List Path) :=
  patterns.foldlM (fun found pattern => do return addNew found (← w.find pattern exclude)) found

def Keeper.Search.goal (w : Workspace) (exclude : List Text) : Search → Except Fault (List Path)
  | .waits found pattern rest => w.searchOn exclude found (pattern :: rest)
  | .done found => .ok found
  | .failed fault => .error fault

/-- The catalog that a draft becomes with some more files of its class, and with those of the class
after it. -/
def Draft.goal (d : Draft) (k : Keeper) (files : List Path) : Except Fault Catalog :=
  match d.cls with
  | .feature => do
    let c ← Catalog.stageAll k.workspace k.sizeLimit k.catalog .feature d.staged files
    let files ← k.workspace.search d.settings.excludeGlobs d.settings.definitionGlobs
    Catalog.stageAll k.workspace k.sizeLimit k.catalog .definition c files
  | .definition => Catalog.stageAll k.workspace k.sizeLimit k.catalog .definition d.staged files

def Point.draft? : Point → Option Draft
  | .searching d _ _ _ | .loading d _ _ | .yielding d _ => some d
  | _ => none

def Job.refreshes : Job → Bool
  | .refresh | .delayedRefresh => true
  | .rebuild | .startUp => false

namespace Keeper

/-! ## Goals -/

theorem searchOn_cons (w : Workspace) (exclude : List Text) (found : List Path) (pattern : Text)
    (rest : List Text) :
    w.searchOn exclude found (pattern :: rest) =
      w.find pattern exclude >>= fun new =>
      w.searchOn exclude (Workspace.addNew found new) rest := by
  rw [Workspace.searchOn, List.foldlM_cons]
  cases w.find pattern exclude with
  | error fault => rfl
  | ok new => rfl

/-- Looking for files comes to the same, whether a pattern is held back on the way or not. -/
theorem goal_searchFrom (k : Keeper) (exclude : List Text) (found : List Path)
    (patterns : List Text) :
    (k.searchFrom exclude found patterns).goal k.workspace exclude =
      k.workspace.searchOn exclude found patterns := by
  induction patterns generalizing found with
  | nil => rfl
  | cons pattern rest ih =>
    rw [searchFrom]
    split
    · rfl
    · rw [searchOn_cons]
      cases k.workspace.find pattern exclude with
      | error fault => rfl
      | ok new => exact ih _

/-- A search waits only for a pattern that is held back. -/
theorem held_of_waits {k : Keeper} {exclude : List Text} {found found' : List Path}
    {patterns rest : List Text} {pattern : Text}
    (h : k.searchFrom exclude found patterns = .waits found' pattern rest) :
    Gate.pattern pattern ∈ k.held := by
  induction patterns generalizing found with
  | nil => cases h
  | cons first patterns ih =>
    rw [searchFrom] at h
    split at h
    · rename_i hheld
      cases h
      simpa using hheld
    · split at h
      · exact ih h
      · cases h

/-! ## Starting loads -/

def newLoad (owner : Nat) (file : Path × FileClass × Bool) : Load :=
  { owner, path := file.1, cls := file.2.1, gone := file.2.2, point := .created, canceled := false }

theorem startLoads_loads (k : Keeper) (owner : Nat) (files : List (Path × FileClass × Bool)) :
    (k.startLoads owner files).1.loads = k.loads ++ files.map (newLoad owner) := rfl

/-- The group has one load for each file, in their order. -/
theorem startLoads_group (k : Keeper) (owner : Nat) (files : List (Path × FileClass × Bool)) :
    List.Forall₂ (fun file j => (k.startLoads owner files).1.loads[j]? = some (newLoad owner file))
      files
      (k.startLoads owner files).2.loads := by
  rw [startLoads_loads, List.forall₂_iff_get]
  refine ⟨by simp [startLoads], ?_⟩
  intro i h₁ h₂
  simp [startLoads, List.getElem?_append_right, List.getElem?_eq_getElem h₁]

/-! ## Building a catalog -/

/-- What a run that holds the lock comes to, with a draft and its goal, before it waits again. -/
inductive Builds (k : Keeper) (id : Nat) (d : Draft) (goal : Except Fault Catalog) :
    Keeper → Prop where
  | searches {d' : Draft} {found : List Path} {pattern : Text} {rest : List Text}
      (hs : d'.settings = d.settings) (hd : d'.staged = d.staged)
      (hg : (k.workspace.searchOn d'.settings.excludeGlobs found (pattern :: rest) >>= d'.goal k) =
        goal)
      (hh : Gate.pattern pattern ∈ k.held) :
      Builds k id d goal (k.wait id (.searching d' found pattern rest))
  | loads {d' : Draft} {files rest : List Path} (hs : d'.settings = d.settings)
      (hd : d'.staged = d.staged) (hg : d'.goal k (files ++ rest) = goal) (hn : 0 < k.groupSize →
        files ≠ []) :
      Builds k id d goal ((k.startLoads id (files.map fun p => (p, d'.cls, false))).1.wait id
        (.loading d' (k.startLoads id (files.map fun p => (p, d'.cls, false))).2 rest))
  | abandons (h : k.isSuperseded id = true) : Builds k id d goal (k.giveUp id (.ok false))
  | fails {fault : Fault} (h : (goal >>= fun c => c.rematch k.matcher) = .error fault) :
      Builds k id d goal (k.giveUp id (.error (.failed fault)))
  | publishes {c : Catalog} (hw : k.isSuperseded id = false) (hg : goal = .ok d.staged)
      (h : d.staged.rematch k.matcher = .ok c) : Builds k id d goal (k.publish id c)

section
variable {k : Keeper} {id : Nat} {d d' : Draft} {goal : Except Fault Catalog}

theorem complete_builds (hd : d'.staged = d.staged) (hg : goal = .ok d'.staged) :
    Builds k id d goal (k.complete id d') := by
  unfold complete
  split
  · rename_i h
    exact .abandons h
  · rename_i h
    rw [hd] at hg ⊢
    cases hr : d.staged.rematch k.matcher with
    | error fault => exact .fails (by rw [hg]; exact hr)
    | ok c => exact .publishes (by simpa using h) hg hr

theorem loadGroup_builds {next : Keeper → Keeper} {files : List Path}
    (hs : d'.settings = d.settings) (hd : d'.staged = d.staged) (hg : d'.goal k files = goal)
    (hnext : files = [] → Builds k id d goal (next k)) :
    Builds k id d goal (loadGroup next k id d' files) := by
  unfold loadGroup
  split
  · rename_i h
    exact hnext h
  · rename_i hne
    split
    · rename_i h
      exact .abandons h
    · refine .loads hs hd (by rw [List.take_append_drop]; exact hg) ?_
      intro hpos htake
      rcases List.take_eq_nil_iff.mp htake with hzero | hnil
      · omega
      · exact hne hnil

theorem searched_builds {next : Keeper → Nat → Draft → List Path → Keeper} {search : Search}
    (hs : d'.settings = d.settings) (hd : d'.staged = d.staged)
    (hg : (search.goal k.workspace d'.settings.excludeGlobs >>= d'.goal k) = goal)
    (hh : ∀ found pattern rest, search = .waits found pattern rest → Gate.pattern pattern ∈ k.held)
    (hnext : ∀ files, d'.goal k files = goal → Builds k id d goal (next k id d' files)) :
    Builds k id d goal (searched next k id d' search) := by
  cases search with
  | waits found pattern rest => exact .searches hs hd hg (hh found pattern rest rfl)
  | done files =>
    rw [searched]
    split
    · rename_i h
      exact .abandons h
    · exact hnext files hg
  | failed fault =>
    have hg' : goal = .error fault := hg.symm
    exact .fails (by rw [hg']; rfl)

theorem loadDefinitions_builds (hs : d'.settings = d.settings) (hd : d'.staged = d.staged)
    (hc : d'.cls = .definition) {files : List Path} (hg : d'.goal k files = goal) :
    Builds k id d goal (k.loadDefinitions id d' files) := by
  refine loadGroup_builds hs hd hg fun hf => complete_builds hd ?_
  rw [← hg, hf, Draft.goal, hc]
  rfl

theorem searchDefinitions_builds (hs : d'.settings = d.settings) (hd : d'.staged = d.staged)
    (hg : (k.workspace.search d'.settings.excludeGlobs d'.settings.definitionGlobs >>= fun files =>
      Catalog.stageAll k.workspace k.sizeLimit k.catalog .definition d'.staged files) = goal) :
    Builds k id d goal (k.searchDefinitions id d') := by
  unfold searchDefinitions
  refine searched_builds ?_ ?_ ?_ (fun _ _ _ => held_of_waits) fun files =>
    loadDefinitions_builds ?_ ?_ rfl
  · exact hs
  · exact hd
  · rw [goal_searchFrom]
    exact hg
  · exact hs
  · exact hd

theorem loadFeatures_builds (hs : d'.settings = d.settings) (hd : d'.staged = d.staged)
    (hc : d'.cls = .feature) {files : List Path} (hg : d'.goal k files = goal) :
    Builds k id d goal (k.loadFeatures id d' files) := by
  refine loadGroup_builds hs hd hg fun hf => searchDefinitions_builds hs hd ?_
  rw [← hg, hf, Draft.goal, hc]
  rfl

theorem loadFiles_builds {files : List Path} (hg : d.goal k files = goal) :
    Builds k id d goal (k.loadFiles id d files) := by
  unfold loadFiles
  split
  · rename_i hc
    exact loadFeatures_builds rfl rfl hc hg
  · rename_i hc
    exact loadDefinitions_builds rfl rfl hc hg

end

def newDraft (k : Keeper) : Draft := { settings := k.settings, cls := .feature, staged := .empty }

/-- The catalog that a run comes to from the start, not yet matched. -/
def newGoal (k : Keeper) : Except Fault Catalog :=
  k.workspace.search k.settings.excludeGlobs k.settings.featureGlobs >>= k.newDraft.goal k

theorem beginDraft_builds (k : Keeper) (id : Nat) :
    Builds k id k.newDraft k.newGoal (k.beginDraft id) := by
  unfold beginDraft
  split
  · rename_i h
    exact .abandons h
  · refine searched_builds rfl rfl ?_ (fun _ _ _ => held_of_waits) fun files =>
      loadFeatures_builds rfl rfl rfl
    rw [goal_searchFrom]
    rfl

theorem resumeSearch_builds (k : Keeper) (id : Nat) (d : Draft) (found : List Path) (pattern : Text)
    (rest : List Text) :
    Builds k id d (k.workspace.searchOn d.settings.excludeGlobs found (pattern :: rest) >>=
      d.goal k)
      (k.resumeSearch id d found pattern rest) := by
  unfold resumeSearch
  rw [searchOn_cons]
  cases k.workspace.find pattern d.settings.excludeGlobs with
  | error fault => exact .fails rfl
  | ok new =>
    refine searched_builds rfl rfl ?_ (fun _ _ _ => held_of_waits) fun files => loadFiles_builds
    rw [goal_searchFrom]
    rfl

/-! ## Coming to the lock -/

def changedFiles (changes : PathMap Change) : List (Path × FileClass × Bool) :=
  changes.entries.map fun (p, c) => (p, c.cls, decide (c.kind = .deleted))

inductive Enters (k : Keeper) (id : Nat) (job : Job) : Keeper → Prop where
  | builds {k' : Keeper} (hj : job.refreshes = false) (h : Builds k id k.newDraft k.newGoal k') :
      Enters k id job k'
  | idles (hj : job.refreshes = true) (h : k.pending.entries = [] ∨ k.disposed = true) :
      Enters k id job ({ k with pending := .empty }.leave id (.ok false))
  | takesOver (hj : job.refreshes = true) (h : k.pending.entries ≠ []) (hd : k.disposed = false) :
      Enters k id job
        (({ k with pending := .empty }.startLoads id (changedFiles k.pending)).1.wait id
          (.applying k.pending
            ({ k with pending := .empty }.startLoads id (changedFiles k.pending)).2))

theorem beginRefresh_enters (k : Keeper) (id : Nat) {job : Job} (hj : job.refreshes = true) :
    Enters k id job (k.beginRefresh id) := by
  unfold beginRefresh
  dsimp only
  split
  · rename_i h
    exact .idles hj (by simpa using h)
  · rename_i h
    simp only [Bool.or_eq_true, decide_eq_true_eq, not_or, Bool.not_eq_true] at h
    exact .takesOver hj h.1 h.2

theorem enter_enters (k : Keeper) (id : Nat) (job : Job) : Enters k id job (k.enter id job) := by
  cases job with
  | rebuild => exact .builds rfl (beginDraft_builds k id)
  | startUp => exact .builds rfl (beginDraft_builds k id)
  | refresh => exact beginRefresh_enters k id rfl
  | delayedRefresh => exact beginRefresh_enters k id rfl

inductive Arrives (k : Keeper) (id : Nat) (r : Run) : Keeper → Prop where
  | rebuild (hp : r.point = .created) (hj : r.job = .rebuild) : Arrives k id r (k.supersede id)
  | startUp (hp : r.point = .created) (hj : r.job = .startUp) :
      Arrives k id r (k.connect.supersede id)
  | refresh (hp : r.point = .created) (hj : r.job = .refresh) : Arrives k id r k
  | wakes {time : Nat} (hp : r.point = .sleeping time) : Arrives k id r { k with timer := none }

namespace Arrives
variable {k k' : Keeper} {id : Nat} {r : Run}

/-- Nothing else is touched before the lock is asked for. -/
theorem eq (ha : Arrives k id r k') :
    ∃ provider connected current runs timer, k' =
      { k with provider, connected, current, runs, timer } := by
  cases ha with
  | rebuild hp hj => exact ⟨_, _, _, _, _, supersede_eq k id⟩
  | startUp hp hj => exact ⟨_, _, _, _, _, supersede_eq k.connect id⟩
  | refresh hp hj => exact ⟨_, _, _, _, _, rfl⟩
  | wakes hp => exact ⟨_, _, _, _, _, rfl⟩

theorem locked (ha : Arrives k id r k') : k'.locked = k.locked := by
  obtain ⟨_, _, _, _, _, rfl⟩ := ha.eq
  rfl

theorem queue (ha : Arrives k id r k') : k'.queue = k.queue := by
  obtain ⟨_, _, _, _, _, rfl⟩ := ha.eq
  rfl

theorem ready (ha : Arrives k id r k') : k'.ready = k.ready := by
  obtain ⟨_, _, _, _, _, rfl⟩ := ha.eq
  rfl

theorem disposed (ha : Arrives k id r k') : k'.disposed = k.disposed := by
  obtain ⟨_, _, _, _, _, rfl⟩ := ha.eq
  rfl

theorem loads (ha : Arrives k id r k') : k'.loads = k.loads := by
  obtain ⟨_, _, _, _, _, rfl⟩ := ha.eq
  rfl

theorem pending (ha : Arrives k id r k') : k'.pending = k.pending := by
  obtain ⟨_, _, _, _, _, rfl⟩ := ha.eq
  rfl

/-- Every run is where it was; at most it is told that its catalog is wanted or not. -/
theorem run (ha : Arrives k id r k') {i : Nat} {s : Run} (hs : k.runs[i]? = some s) :
    ∃ superseded, k'.runs[i]? = some { s with superseded } := by
  have hsup : ∀ k₀ : Keeper, k₀.runs = k.runs →
      ∃ superseded, (k₀.supersede id).runs[i]? = some { s with superseded } := by
    intro k₀ hk₀
    simp only [supersede_eq, supersededRuns, unwantedRuns, List.getElem?_modify,
      List.getElem?_mapIdx, hk₀, hs]
    by_cases hi : id = i
    · exact ⟨_, by simp [hi]; rfl⟩
    · exact ⟨_, by simp [hi]; rfl⟩
  cases ha with
  | rebuild hp hj => exact hsup k rfl
  | startUp hp hj => exact hsup k.connect rfl
  | refresh hp hj => exact ⟨s.superseded, hs⟩
  | wakes hp => exact ⟨s.superseded, hs⟩

theorem of_run (ha : Arrives k id r k') {i : Nat} {s' : Run} (hs' : k'.runs[i]? = some s') :
    ∃ s superseded, k.runs[i]? = some s ∧ s' = { s with superseded } := by
  have hlen : k'.runs.length = k.runs.length := by
    cases ha with
    | rebuild hp hj => simp [supersede_eq, supersededRuns, unwantedRuns]
    | startUp hp hj => simp [supersede_eq, supersededRuns, unwantedRuns, connect]
    | refresh hp hj => rfl
    | wakes hp => rfl
  have hlt : i < k.runs.length := hlen ▸ (List.getElem?_eq_some_iff.mp hs').1
  obtain ⟨superseded, hs⟩ := ha.run (List.getElem?_eq_getElem hlt)
  rw [hs'] at hs
  exact ⟨k.runs[i], superseded, List.getElem?_eq_getElem hlt, Option.some.inj hs⟩

theorem point_ne_queued (ha : Arrives k id r k') : r.point ≠ .queued := by
  cases ha with
  | rebuild hp hj | startUp hp hj | refresh hp hj => rw [hp]; simp
  | wakes hp => rw [hp]; simp

end Arrives

/-! ## The turn of a run -/

def enterLoads (k : Keeper) (d : Draft) (g : Group) : Draft :=
  let enter (c : Catalog) (load : Nat) : Catalog :=
    match k.loads[load]? with
    | some l => c.stage k.catalog d.cls l.path (k.loaded load)
    | none => c
  { d with staged := g.loads.foldl enter d.staged }

def loadedChanges (k : Keeper) (changes : PathMap Change) (g : Group) :
    List (Path × Change × Loaded) :=
  (changes.entries.zip g.loads).map fun ((p, c), load) => (p, c, k.loaded load)

/-- Why a run that builds gives up at its turn, and with what result. -/
inductive GivesUp (k : Keeper) (id : Nat) (r : Run) : Except Stop Bool → Prop where
  | canceled (h : r.canceled = true) : GivesUp k id r (.error .canceled)
  | stopped {g : Group} {stop : Stop} (hg : r.point.group? = some g) (h : g.stop = some stop) :
      GivesUp k id r (.error stop)
  | superseded (h : k.isSuperseded id = true) : GivesUp k id r (.ok false)

/-- Why a run that applies changes leaves them at its turn, and with what result. -/
inductive Leaves (k : Keeper) (r : Run) (g : Group) : Except Stop Bool → Prop where
  | canceled (h : r.canceled = true) : Leaves k r g (.error .canceled)
  | stopped {stop : Stop} (h : g.stop = some stop) : Leaves k r g (.error stop)
  | disposed (h : k.disposed = true) : Leaves k r g (.ok false)

inductive TakesRun (k : Keeper) (id : Nat) (r : Run) : Keeper → Prop where
  | rests {result : Except Stop Bool} (hp : r.point = .finished result) : TakesRun k id r k
  | stops (hp : r.point = .created ∨ ∃ time, r.point = .sleeping time) (hc : r.canceled = true) :
      TakesRun k id r (k.finish id (.error .canceled))
  | sleeps (hp : r.point = .created) (hj : r.job = .delayedRefresh) (hc : r.canceled = false) :
      TakesRun k id r
        ({ k with ready := if k.delay = 0 then k.ready ++ [Turn.run id] else k.ready }.wait id
          (.sleeping (k.clock + k.delay)))
  | queues {k₀ : Keeper} (hc : r.canceled = false) (ha : Arrives k id r k₀)
      (hl : k.locked = true ∨ k.queue ≠ []) :
      TakesRun k id r ({ k₀ with queue := k₀.queue ++ [id] }.wait id .queued)
  | enters {k₀ k' : Keeper} (hc : r.canceled = false) (ha : Arrives k id r k₀)
      (hl : k.locked = false) (hq : k.queue = [])
      (h : Enters { k₀ with locked := true } id r.job k') : TakesRun k id r k'
  | quits (hp : r.point = .queued) (hc : r.canceled = true) :
      TakesRun k id r ({ k with
        queue := k.queue.erase id
        ready := if k.locked then k.ready else callHead k.ready (k.queue.erase id) }.finish id
          (.error .canceled))
  | admitted {k' : Keeper} (hp : r.point = .queued) (hc : r.canceled = false)
      (h : Enters { k with queue := k.queue.erase id, locked := true } id r.job k') :
      TakesRun k id r k'
  | resumes {d : Draft} {found : List Path} {pattern : Text} {rest : List Text} {k' : Keeper}
      (hp : r.point = .searching d found pattern rest) (hc : r.canceled = false)
      (h : Builds k id d (k.workspace.searchOn d.settings.excludeGlobs found (pattern :: rest) >>=
        d.goal k) k') :
      TakesRun k id r k'
  | yields {d : Draft} {g : Group} {rest : List Path} (hp : r.point = .loading d g rest)
      (hc : r.canceled = false) (hg : g.stop = none) (hs : k.isSuperseded id = false) :
      TakesRun k id r
        ({ k with ready := k.ready ++ [Turn.run id] }.wait id (.yielding (k.enterLoads d g) rest))
  | continues {d : Draft} {rest : List Path} {k' : Keeper} (hp : r.point = .yielding d rest)
      (hc : r.canceled = false) (h : Builds k id d (d.goal k rest) k') : TakesRun k id r k'
  | givesUp {d : Draft} {result : Except Stop Bool} (hp : r.point.draft? = some d)
      (h : GivesUp k id r result) :
      TakesRun k id r (k.giveUp id result)
  | leaves {changes : PathMap Change} {g : Group} {result : Except Stop Bool}
      (hp : r.point = .applying changes g) (h : Leaves k r g result) :
      TakesRun k id r (k.leave id result)
  | breaks {changes : PathMap Change} {g : Group} {c : Catalog} {fault : Fault}
      (hp : r.point = .applying changes g) (hc : r.canceled = false) (hg : g.stop = none)
      (hd : k.disposed = false) (h : k.catalog.refresh k.matcher (k.loadedChanges changes g) =
        (c, some fault)) :
      TakesRun k id r ({ k with catalog := c }.leave id (.error (.failed fault)))
  | applies {changes : PathMap Change} {g : Group} {c : Catalog} {told : List Event}
      (hp : r.point = .applying changes g) (hc : r.canceled = false) (hg : g.stop = none)
      (hd : k.disposed = false) (h : k.catalog.refresh k.matcher (k.loadedChanges changes g) =
        (c, none)) :
      TakesRun k id r ({ k with
        catalog := c, locked := false, ready := callHead k.ready k.queue
        events := k.events ++ told }.finish id (toldResult k.announce.2))

theorem lockFor_takesRun {k k₀ : Keeper} {id : Nat} {r : Run} (hc : r.canceled = false)
    (ha : Arrives k id r k₀) (hl : k₀.locked = k.locked) (hq : k₀.queue = k.queue) :
    TakesRun k id r (k₀.lockFor id r.job) := by
  unfold lockFor
  split
  · rename_i h
    simp only [Bool.and_eq_true, Bool.not_eq_true', decide_eq_true_eq] at h
    exact .enters hc ha (hl ▸ h.1) (hq ▸ h.2) (enter_enters _ id r.job)
  · rename_i h
    rw [hl, hq] at h
    refine .queues hc ha ?_
    cases hlk : k.locked with
    | true => exact .inl rfl
    | false =>
      rw [hlk] at h
      exact .inr (by simpa using h)

/-- The first turn of a run leads to the lock, unless the run is to sleep before. -/
theorem begin_cases (k : Keeper) (id : Nat) {r : Run} (hp : r.point = .created) :
    (∃ k₀, Arrives k id r k₀ ∧ k.begin id r.job = k₀.lockFor id r.job) ∨
      r.job = .delayedRefresh ∧ k.begin id r.job =
        { k with ready := if k.delay = 0 then k.ready ++ [Turn.run id] else k.ready }.wait id
          (.sleeping (k.clock + k.delay)) := by
  cases hj : r.job with
  | rebuild => exact .inl ⟨_, .rebuild hp hj, rfl⟩
  | startUp => exact .inl ⟨_, .startUp hp hj, rfl⟩
  | refresh => exact .inl ⟨_, .refresh hp hj, rfl⟩
  | delayedRefresh =>
    refine .inr ⟨rfl, ?_⟩
    unfold begin
    dsimp only [wait, wake, modifyRun]
    split
    · rfl
    · rfl

theorem begin_takesRun {k : Keeper} {id : Nat} {r : Run} (hp : r.point = .created)
    (hc : r.canceled = false) :
    TakesRun k id r (k.begin id r.job) := by
  rcases begin_cases k id hp with ⟨k₀, ha, he⟩ | ⟨hj, he⟩
  · rw [he]
    exact lockFor_takesRun hc ha ha.locked ha.queue
  · rw [he]
    exact .sleeps hp hj hc

theorem enterGroup_takesRun {k : Keeper} {id : Nat} {r : Run} {d : Draft} {g : Group}
    {rest : List Path} (hp : r.point = .loading d g rest) (hc : r.canceled = false) :
    TakesRun k id r (k.enterGroup id d g rest) := by
  have hd : r.point.draft? = some d := by rw [hp]; rfl
  unfold enterGroup
  cases hg : g.stop with
  | some stop => exact .givesUp hd (.stopped (by rw [hp]; rfl) hg)
  | none =>
    dsimp only
    split
    · rename_i hs
      exact .givesUp hd (.superseded hs)
    · rename_i hs
      exact .yields hp hc hg (by simpa using hs)

theorem applyChanges_takesRun {k : Keeper} {id : Nat} {r : Run} {changes : PathMap Change}
    {g : Group} (hp : r.point = .applying changes g) (hc : r.canceled = false) :
    TakesRun k id r (k.applyChanges id changes g) := by
  unfold applyChanges
  cases hg : g.stop with
  | some stop => exact .leaves hp (.stopped hg)
  | none =>
    dsimp only
    split
    · rename_i hd
      exact .leaves hp (.disposed hd)
    · rename_i hd
      have hd' : k.disposed = false := by simpa using hd
      cases hr : k.catalog.refresh k.matcher (k.loadedChanges changes g) with
      | mk c failure =>
        have hr' := hr
        unfold loadedChanges at hr'
        rw [hr']
        cases failure with
        | some fault => exact .breaks hp hc hg hd' hr
        | none =>
          simp only [unlock_eq]
          generalize hk₁ :
            { k with catalog := c, locked := false, ready := callHead k.ready k.queue } = k₁
          obtain ⟨told, fault, ha⟩ := announce_eq k₁
          have hfault : k.announce.2 = fault := by
            rw [announce_snd_congr (k := k₁) (by rw [← hk₁]), ha]
          have happlies : TakesRun k id r ({ k with
              catalog := c, locked := false, ready := callHead k.ready k.queue
              events := k.events ++ told }.finish id (toldResult k.announce.2)) :=
                .applies hp hc hg hd' hr
          rw [hfault] at happlies
          rw [ha, ← hk₁]
          cases fault with
          | none | some => exact happlies

theorem takeRun_takesRun (k : Keeper) (id : Nat) (r : Run) : TakesRun k id r (k.takeRun id r) := by
  unfold takeRun
  cases hp : r.point with
  | finished result => exact .rests hp
  | created =>
    dsimp only
    split
    · rename_i hc
      exact .stops (.inl hp) hc
    · rename_i hc
      exact begin_takesRun hp (by simpa using hc)
  | queued =>
    dsimp only
    split
    · rename_i hc
      have hw : (if k.locked then { k with queue := k.queue.erase id }
          else { k with queue := k.queue.erase id }.wakeQueue) = { k with
            queue := k.queue.erase id
            ready := if k.locked then k.ready else callHead k.ready (k.queue.erase id) } := by
        rw [wakeQueue_eq]
        split
        · rfl
        · rfl
      rw [hw]
      exact .quits hp hc
    · rename_i hc
      exact .admitted hp (by simpa using hc) (enter_enters _ id r.job)
  | searching d found pattern rest =>
    dsimp only
    split
    · rename_i hc
      exact .givesUp (by rw [hp]; rfl) (.canceled hc)
    · rename_i hc
      exact .resumes hp (by simpa using hc) (resumeSearch_builds k id d found pattern rest)
  | loading d g rest =>
    dsimp only
    split
    · rename_i hc
      exact .givesUp (by rw [hp]; rfl) (.canceled hc)
    · rename_i hc
      exact enterGroup_takesRun hp (by simpa using hc)
  | yielding d rest =>
    dsimp only
    split
    · rename_i hc
      exact .givesUp (by rw [hp]; rfl) (.canceled hc)
    · rename_i hc
      exact .continues hp (by simpa using hc) (loadFiles_builds rfl)
  | applying changes g =>
    dsimp only
    split
    · rename_i hc
      exact .leaves hp (.canceled hc)
    · rename_i hc
      exact applyChanges_takesRun hp (by simpa using hc)
  | sleeping time =>
    dsimp only
    split
    · rename_i hc
      exact .stops (.inr ⟨time, hp⟩) hc
    · rename_i hc
      exact lockFor_takesRun (by simpa using hc) (.wakes hp) rfl rfl

/-! ## The turns of a load -/

inductive EndsLoad (k : Keeper) (l : Load) : List Event → Except Stop Loaded → Prop where
  | canceled (h : l.canceled = true) : EndsLoad k l [] (.error .canceled)
  | gone (h : l.gone = true) : EndsLoad k l [] (.ok .nothing)
  | reads (hg : l.point = .created → l.gone = false) :
      EndsLoad k l [.read l.path] ((k.workspace.load k.sizeLimit l.cls l.path).mapError .failed)

inductive TakesLoad (k : Keeper) (id : Nat) (l : Load) : Keeper → Prop where
  | rests {result : Except Stop Loaded} (hp : l.point = .finished result) : TakesLoad k id l k
  | waits (hp : l.point = .created) (hg : l.gone = false) (hh : Gate.file l.path ∈ k.held) :
      TakesLoad k id l (k.modifyLoad id fun l => { l with point := .held })
  | ends {es : List Event} {result : Except Stop Loaded} (hp : ∀ result, l.point ≠ .finished result)
      (h : EndsLoad k l es result) :
      TakesLoad k id l ({ k with events := k.events ++ es }.finishLoad id result)

theorem takeLoad_takesLoad (k : Keeper) (id : Nat) (l : Load) :
    TakesLoad k id l (k.takeLoad id l) := by
  have hcancel : l.canceled = true → (∀ result, l.point ≠ .finished result) →
      TakesLoad k id l (k.finishLoad id (.error .canceled)) := by
    intro hc hp
    have h : TakesLoad k id l
        ({ k with events := k.events ++ [] }.finishLoad id (.error .canceled)) :=
      .ends hp (.canceled hc)
    rw [List.append_nil] at h
    exact h
  unfold takeLoad
  cases hp : l.point with
  | finished result => exact .rests hp
  | held =>
    dsimp only
    split
    · rename_i hc
      exact hcancel hc (by simp [hp])
    · exact .ends (by simp [hp]) (.reads (by simp [hp]))
  | created =>
    dsimp only
    split
    · rename_i hc
      exact hcancel hc (by simp [hp])
    · split
      · rename_i hg
        have h : TakesLoad k id l
            ({ k with events := k.events ++ [] }.finishLoad id (.ok .nothing)) :=
          .ends (by simp [hp]) (.gone hg)
        rw [List.append_nil] at h
        exact h
      · rename_i hg
        have hg' : l.gone = false := by simpa using hg
        split
        · rename_i hh
          exact .waits hp hg' (by simpa using hh)
        · exact .ends (by simp [hp]) (.reads fun _ => hg')

inductive TakesReport (k : Keeper) (id : Nat) (l : Load) : Keeper → Prop where
  | rests (h : ∀ r g result, l.point = .finished result → k.runs[l.owner]? = some r →
      r.point.group? = some g → g.isDone = true ∨ id ∉ g.awaited) : TakesReport k id l k
  | delivers {r : Run} {g : Group} {result : Except Stop Loaded} (hl : l.point = .finished result)
      (hr : k.runs[l.owner]? = some r) (hg : r.point.group? = some g) (hd : g.isDone = false)
      (ha : id ∈ g.awaited) :
      TakesReport k id l ({ k with
        ready := if (g.report id result).isDone then k.ready ++ [Turn.run l.owner]
          else k.ready }.wait l.owner (r.point.withGroup (g.report id result)))

theorem deliver_takesReport {k : Keeper} (id : Nat) {l : Load} {r : Run} {g : Group}
    {result : Except Stop Loaded} (hl : l.point = .finished result) (hr : k.runs[l.owner]? = some r)
    (hg : r.point.group? = some g) :
    TakesReport k id l (k.deliver l.owner id result g (r.point.withGroup ·)) := by
  unfold deliver
  split
  · rename_i h
    refine .rests ?_
    intro r' g' result' _ hr' hg'
    rw [hr] at hr'
    cases hr'
    rw [hg] at hg'
    cases hg'
    simpa using h
  · rename_i h
    simp only [Bool.or_eq_true, Bool.not_eq_true', not_or, Bool.not_eq_true, Bool.not_eq_false,
      List.contains_iff_mem] at h
    have hw :
        (if (g.report id result).isDone then
            (k.wait l.owner (r.point.withGroup (g.report id result))).wake (.run l.owner)
          else k.wait l.owner (r.point.withGroup (g.report id result))) =
        { k with
          ready := if (g.report id result).isDone then k.ready ++ [Turn.run l.owner]
            else k.ready }.wait l.owner (r.point.withGroup (g.report id result)) := by
      split
      · rfl
      · rfl
    dsimp only
    rw [hw]
    exact .delivers hl hr hg h.1 h.2

theorem takeReport_takesReport (k : Keeper) (id : Nat) (l : Load) :
    TakesReport k id l (k.takeReport id l) := by
  unfold takeReport
  split
  · rename_i result d g rest hl hp
    obtain ⟨r, hr, hp⟩ := Option.map_eq_some_iff.mp hp
    have h := deliver_takesReport id hl hr (g := g) (by rw [hp]; rfl)
    rw [hp] at h
    exact h
  · rename_i result changes g hl hp
    obtain ⟨r, hr, hp⟩ := Option.map_eq_some_iff.mp hp
    have h := deliver_takesReport id hl hr (g := g) (by rw [hp]; rfl)
    rw [hp] at h
    exact h
  · rename_i hloading happlying
    refine .rests ?_
    intro r g result hl hr hg
    have hp : k.point? l.owner = some r.point := by rw [point?, hr]; rfl
    cases hq : r.point with
    | loading d g' rest => exact absurd (hp.trans (congrArg some hq)) (hloading result d g' rest hl)
    | applying changes g' =>
      exact absurd (hp.trans (congrArg some hq)) (happlying result changes g' hl)
    | _ => rw [hq] at hg; cases hg

/-- There is nobody who could take a turn. -/
def Vacant (k : Keeper) : Turn → Prop
  | .run id => k.runs[id]? = none
  | .load id | .report id => k.loads[id]? = none
  | .alarm _ => True

inductive Takes (k : Keeper) : Turn → Keeper → Prop where
  | run {id : Nat} {r : Run} {k' : Keeper} (hr : k.runs[id]? = some r) (h : TakesRun k id r k') :
      Takes k (.run id) k'
  | load {id : Nat} {l : Load} {k' : Keeper} (hl : k.loads[id]? = some l)
      (h : TakesLoad k id l k') :
      Takes k (.load id) k'
  | report {id : Nat} {l : Load} {k' : Keeper} (hl : k.loads[id]? = some l)
      (h : TakesReport k id l k') :
      Takes k (.report id) k'
  | alarm {id time : Nat} {r : Run} (hr : k.runs[id]? = some r) (hp : r.point = .sleeping time) :
      Takes k (.alarm id) { k with ready := addTurn k.ready (.run id) }
  /-- There is nothing to do in it. -/
  | idle {t : Turn} (h : k.Vacant t) : Takes k t k

theorem take_takes (k : Keeper) (t : Turn) : Takes k t (k.take t) := by
  cases t with
  | run id =>
    cases hr : k.runs[id]? with
    | none => simp only [take, hr]; exact .idle hr
    | some r => simp only [take, hr]; exact .run hr (takeRun_takesRun k id r)
  | load id =>
    cases hl : k.loads[id]? with
    | none => simp only [take, hl]; exact .idle hl
    | some l => simp only [take, hl]; exact .load hl (takeLoad_takesLoad k id l)
  | report id =>
    cases hl : k.loads[id]? with
    | none => simp only [take, hl]; exact .idle hl
    | some l => simp only [take, hl]; exact .report hl (takeReport_takesReport k id l)
  | alarm id =>
    rw [take]
    split
    · rename_i time hp
      obtain ⟨r, hr, hp⟩ := Option.map_eq_some_iff.mp hp
      rw [wakeOnce_eq]
      exact .alarm hr hp
    · exact .idle trivial

end Keeper
end StepAtlas
