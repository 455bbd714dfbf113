import StepAtlas.Keeper.Call

/-
The fields that the small moves of a keeper change.  Every function that a turn or a call is made of
changes a few fields of the keeper and leaves the others alone; the equations below name the fields,
so that later proofs need not open the functions.
-/

namespace StepAtlas

def Point.group? : Point → Option Group
  | .loading _ g _ | .applying _ g => some g
  | _ => none

def Point.withGroup (g : Group) : Point → Point
  | .loading d _ rest => .loading d g rest
  | .applying changes _ => .applying changes g
  | p => p

theorem Point.group?_withGroup {p : Point} {g : Group} (h : p.group? = some g) (g' : Group) :
    (p.withGroup g').group? = some g' := by
  cases p with
  | loading | applying => rfl
  | _ => cases h

theorem Group.loads_report (g : Group) (load : Nat) (result : Except Stop Loaded) :
    (g.report load result).loads = g.loads := by
  cases result with
  | error stop => rfl
  | ok x => rfl

/-- Whether a run that waits at a point can be told to stop at once. -/
def Point.isInterruptible : Point → Bool
  | .queued | .searching _ _ _ _ | .sleeping _ => true
  | _ => false

def Load.uncanceled (l : Load) : Load := { l with canceled := false }

theorem Load.eq_of_uncanceled_eq {l l' : Load} (h : l.uncanceled = l'.uncanceled) :
    l = { l' with canceled := l.canceled } := by
  cases l
  cases l'
  simpa [uncanceled] using h

namespace Keeper

/-! ## Fields that the small moves change -/

/-- The turns that are ready once one more is, unless it is. -/
def addTurn (ready : List Turn) (t : Turn) : List Turn :=
  if ready.contains t then ready else ready ++ [t]

def callHead (ready : List Turn) : List Nat → List Turn
  | id :: _ => addTurn ready (.run id)
  | [] => ready

theorem wakeOnce_eq (k : Keeper) (t : Turn) :
    k.wakeOnce t = { k with ready := addTurn k.ready t } := by
  unfold wakeOnce addTurn
  split
  · rfl
  · rfl

theorem wakeQueue_eq (k : Keeper) : k.wakeQueue = { k with ready := callHead k.ready k.queue } := by
  unfold wakeQueue
  split
  · rename_i id rest h
    have hc : callHead k.ready k.queue = addTurn k.ready (.run id) := by rw [h]; rfl
    rw [wakeOnce_eq, hc]
  · rename_i h
    have hc : callHead k.ready k.queue = k.ready := by rw [h]; rfl
    rw [hc]

theorem unlock_eq (k : Keeper) :
    k.unlock = { k with locked := false, ready := callHead k.ready k.queue } :=
  wakeQueue_eq _

/-- Listeners are told and nothing else changes. -/
theorem announce_eq (k : Keeper) :
    ∃ told fault, k.announce = ({ k with events := k.events ++ told }, fault) := by
  unfold announce
  generalize k.changed.listeners = ls
  induction ls generalizing k with
  | nil => exact ⟨[], none, by rw [Signal.callAll, List.append_nil]⟩
  | cons l ls ih =>
    rw [Signal.callAll]
    obtain ⟨told, fault, h⟩ := ih (k.note (.called l.name))
    have he : k.events ++ .called l.name :: told = (k.note (.called l.name)).events ++ told := by
      simp [note]
    cases l.fault with
    | none =>
      refine ⟨.called l.name :: told, fault, ?_⟩
      rw [he]
      exact h
    | some f =>
      dsimp only
      cases log (warning ++ "change listener failed: " ++ f.message) with
      | error fault' => exact ⟨[.called l.name], some fault', rfl⟩
      | ok u =>
        refine ⟨.called l.name :: told, fault, ?_⟩
        rw [he]
        exact h

/-- What telling the listeners comes to is up to the listeners alone. -/
theorem announce_snd_congr {k k' : Keeper} (h : k'.changed = k.changed) :
    k'.announce.2 = k.announce.2 := by
  unfold announce
  rw [h]
  generalize k.changed.listeners = ls
  clear h
  induction ls generalizing k k' with
  | nil => rfl
  | cons l ls ih =>
    rw [Signal.callAll, Signal.callAll]
    cases l.fault with
    | none => exact ih
    | some fault =>
      dsimp only
      cases log (warning ++ "change listener failed: " ++ fault.message) with
      | error fault' => rfl
      | ok u => exact ih

/-- What a run returns when it has changed the catalog and the listeners were told. -/
def toldResult : Option Fault → Except Stop Bool
  | none => .ok true
  | some fault => .error (.failed fault)

theorem toldResult_cases (fault : Option Fault) :
    toldResult fault = .ok true ∨ ∃ fault', toldResult fault = .error (.failed fault') := by
  cases fault with
  | none => exact .inl rfl
  | some fault => exact .inr ⟨fault, rfl⟩

theorem toldResult_eq_ok_iff {fault : Option Fault} :
    toldResult fault = .ok true ↔ fault = none := by
  cases fault with
  | none | some fault => simp [toldResult]

theorem finishBuild_eq (k : Keeper) (id : Nat) (result : Except Stop Bool) :
    ∃ subscriptions, k.finishBuild id result = { k with subscriptions }.finish id result := by
  unfold finishBuild
  cases result with
  | error stop => exact ⟨k.subscriptions, rfl⟩
  | ok b =>
    dsimp only
    split
    · exact ⟨_, rfl⟩
    · exact ⟨k.subscriptions, rfl⟩

/-- The run whose catalog is wanted, once a run has given back its lock. -/
def currentWithout (k : Keeper) (id : Nat) : Option Nat :=
  if k.current = some id then none else k.current

theorem dropCurrent_eq (k : Keeper) (id : Nat) :
    (if k.current = some id then { k with current := none } else k) =
      { k with current := k.currentWithout id } := by
  unfold currentWithout
  split
  · rfl
  · rfl

theorem giveUp_eq (k : Keeper) (id : Nat) (result : Except Stop Bool) :
    ∃ subscriptions, k.giveUp id result =
      { k with
        current := k.currentWithout id, locked := false, ready := callHead k.ready k.queue,
        subscriptions }.finish id result := by
  simp only [giveUp, dropCurrent_eq, unlock_eq]
  exact finishBuild_eq _ id result

/-- A published catalog is in place, whatever the listeners say to it. -/
theorem publish_eq (k : Keeper) (id : Nat) (c : Catalog) :
    ∃ told subscriptions, k.publish id c =
      { k with
        current := k.currentWithout id, catalog := c.published, locked := false,
        ready := callHead k.ready k.queue, events := k.events ++ told, subscriptions }.finish id
          (toldResult k.announce.2) := by
  simp only [publish, dropCurrent_eq, unlock_eq]
  generalize hk₁ : { k with
    current := k.currentWithout id, catalog := c.published, locked := false
    ready := callHead k.ready k.queue } = k₁
  obtain ⟨told, fault, ha⟩ := announce_eq k₁
  have hfault : k.announce.2 = fault := by
    rw [announce_snd_congr (k := k₁) (by rw [← hk₁]), ha]
  rw [ha, hfault, ← hk₁]
  cases fault with
  | none =>
    obtain ⟨subscriptions, h⟩ := finishBuild_eq _ id (.ok true)
    exact ⟨told, subscriptions, h⟩
  | some fault =>
    obtain ⟨subscriptions, h⟩ := finishBuild_eq _ id (.error (.failed fault))
    exact ⟨told, subscriptions, h⟩

theorem leave_eq (k : Keeper) (id : Nat) (result : Except Stop Bool) :
    k.leave id result = { k with locked := false, ready := callHead k.ready k.queue }.finish id
      result := by
  rw [leave, unlock_eq]

/-! ## Runs -/

theorem mem_modify {α : Type} {f : α → α} {a : α} {xs : List α} {i : Nat} (h : a ∈ xs.modify i f) :
    a ∈ xs ∨ ∃ b, xs[i]? = some b ∧ a = f b := by
  obtain ⟨j, hj⟩ := List.mem_iff_getElem?.mp h
  rw [List.getElem?_modify] at hj
  by_cases hij : i = j
  · subst hij
    obtain ⟨b, hb, rfl⟩ := Option.map_eq_some_iff.mp hj
    exact .inr ⟨b, hb, by simp⟩
  · refine .inl (List.mem_iff_getElem?.mpr ⟨j, ?_⟩)
    simpa [hij] using hj

/-- Where the runs wait once one of them waits elsewhere. -/
theorem of_runs_wait {k : Keeper} {id i : Nat} {p : Point} {r : Run}
    (h : (k.wait id p).runs[i]? = some r) :
    (i = id ∧ ∃ r₀, k.runs[id]? = some r₀ ∧ r = { r₀ with point := p }) ∨
      (i ≠ id ∧ k.runs[i]? = some r) := by
  simp only [wait, modifyRun, List.getElem?_modify] at h
  by_cases hi : id = i
  · subst hi
    obtain ⟨r₀, hr₀, rfl⟩ := Option.map_eq_some_iff.mp h
    exact .inl ⟨rfl, r₀, hr₀, by simp⟩
  · exact .inr ⟨Ne.symm hi, by simpa [hi] using h⟩

theorem runs_wait_self {k : Keeper} {id : Nat} {r : Run} (h : k.runs[id]? = some r) (p : Point) :
    (k.wait id p).runs[id]? = some { r with point := p } := by
  simp [wait, modifyRun, h]

theorem runs_wait_of_ne {k : Keeper} {id i : Nat} (h : i ≠ id) (p : Point) :
    (k.wait id p).runs[i]? = k.runs[i]? := by
  simp [wait, modifyRun, Ne.symm h]

def newRun (job : Job) : Run := { job, point := .created, canceled := false, superseded := false }

theorem start_eq (k : Keeper) (job : Job) :
    k.start job =
      ({ k with runs := k.runs ++ [newRun job], ready := k.ready ++ [.run k.runs.length] },
        k.runs.length) :=
  rfl

theorem runs_start_self (k : Keeper) (job : Job) :
    (k.runs ++ [newRun job])[k.runs.length]? = some (newRun job) :=
  List.getElem?_concat_length

theorem runs_start_of_some {k : Keeper} {i : Nat} {r : Run} (h : k.runs[i]? = some r) (job : Job) :
    (k.runs ++ [newRun job])[i]? = some r := by
  rw [List.getElem?_append_left (List.getElem?_eq_some_iff.mp h).1]
  exact h

theorem of_runs_start {k : Keeper} {job : Job} {i : Nat} {r : Run}
    (h : (k.runs ++ [newRun job])[i]? = some r) :
    (i = k.runs.length ∧ r = newRun job) ∨ k.runs[i]? = some r := by
  rcases Nat.lt_trichotomy i k.runs.length with hlt | heq | hgt
  · rw [List.getElem?_append_left hlt] at h
    exact .inr h
  · subst heq
    rw [runs_start_self] at h
    exact .inl ⟨rfl, (Option.some.inj h).symm⟩
  · have hlt := (List.getElem?_eq_some_iff.mp h).1
    rw [List.length_append, List.length_singleton] at hlt
    omega

/-! ## Superseding -/

def unwantedRuns (k : Keeper) : List Run :=
  k.runs.mapIdx fun i r => { r with superseded := decide (k.current = some i) || r.superseded }

theorem runs_supersedeCurrent (k : Keeper) : k.supersedeCurrent.runs = k.unwantedRuns := by
  apply List.ext_getElem?
  intro i
  unfold supersedeCurrent unwantedRuns
  cases k.current with
  | none => simp [List.getElem?_mapIdx]
  | some id =>
    simp only [modifyRun, List.getElem?_modify, List.getElem?_mapIdx]
    by_cases hi : id = i
    · simp [hi]
    · simp [hi]

theorem supersedeCurrent_eq (k : Keeper) :
    k.supersedeCurrent = { k with runs := k.unwantedRuns } := by
  have hrest : k.supersedeCurrent = { k with runs := k.supersedeCurrent.runs } := by
    unfold supersedeCurrent
    split
    · rfl
    · rfl
  rw [hrest, runs_supersedeCurrent]

def supersededRuns (k : Keeper) (id : Nat) : List Run :=
  k.unwantedRuns.modify id fun r => { r with superseded := k.disposed }

theorem supersede_eq (k : Keeper) (id : Nat) :
    k.supersede id = { k with current := some id, runs := k.supersededRuns id } := by
  simp only [supersede, supersedeCurrent_eq]
  rfl

/-! ## Telling runs to stop -/

structure StopsLoads (k k' : Keeper) : Prop where
  eq : ∃ loads ts, k' = { k with loads, ready := k.ready ++ ts } ∧
    loads.map Load.uncanceled = k.loads.map Load.uncanceled ∧ ∀ t ∈ ts, ∃ j, t = .load j

theorem StopsLoads.refl (k : Keeper) : StopsLoads k k :=
  ⟨k.loads, [], by rw [List.append_nil], rfl, by simp⟩

theorem StopsLoads.trans {k₁ k₂ k₃ : Keeper} (h : StopsLoads k₁ k₂) (h' : StopsLoads k₂ k₃) :
    StopsLoads k₁ k₃ := by
  obtain ⟨loads, ts, rfl, hl, ht⟩ := h
  obtain ⟨loads', ts', rfl, hl', ht'⟩ := h'
  refine ⟨loads', ts ++ ts', by simp, hl'.trans hl, ?_⟩
  intro t hmem
  rcases List.mem_append.mp hmem with hmem | hmem
  · exact ht t hmem
  · exact ht' t hmem

/-- Every load is in its place still, and was told to stop at most. -/
theorem StopsLoads.loads {k k' : Keeper} (h : StopsLoads k k') (j : Nat) :
    k'.loads[j]?.map Load.uncanceled = k.loads[j]?.map Load.uncanceled := by
  obtain ⟨loads, ts, rfl, hl, -⟩ := h
  rw [← List.getElem?_map, ← List.getElem?_map, hl]

theorem map_uncanceled_modify (loads : List Load) (id : Nat) :
    (loads.modify id fun l => { l with canceled := true }).map Load.uncanceled =
      loads.map Load.uncanceled := by
  apply List.ext_getElem?
  intro i
  simp only [List.getElem?_map, List.getElem?_modify]
  cases loads[i]? with
  | none => rfl
  | some l => by_cases hi : id = i <;> simp [hi, Load.uncanceled]

theorem cancelLoad_stopsLoads (k : Keeper) (id : Nat) : StopsLoads k (k.cancelLoad id) := by
  unfold cancelLoad
  split
  · exact ⟨_, [], by rw [List.append_nil]; rfl, map_uncanceled_modify k.loads id, by simp⟩
  · rw [wakeOnce_eq]
    by_cases hc : k.ready.contains (.load id) = true
    · refine ⟨_, [], ?_, map_uncanceled_modify k.loads id, by simp⟩
      simp [addTurn, modifyLoad, List.contains_iff_mem.mp hc]
    · refine ⟨_, [.load id], ?_, map_uncanceled_modify k.loads id, by simp⟩
      simp [addTurn, modifyLoad, mt List.contains_iff_mem.mpr hc]
  · exact .refl k

theorem foldl_cancelLoad_stopsLoads (k : Keeper) (ids : List Nat) :
    StopsLoads k (ids.foldl cancelLoad k) := by
  induction ids generalizing k with
  | nil => exact .refl k
  | cons id ids ih => exact (cancelLoad_stopsLoads k id).trans (ih _)

inductive CancelsRun (k : Keeper) (id : Nat) : Keeper → Prop where
  /-- It has ended. -/
  | rests (h : ∀ r, k.runs[id]? = some r → ∃ result, r.point = .finished result) : CancelsRun k id k
  /-- It will see that at its next turn. -/
  | flags {r : Run} (hr : k.runs[id]? = some r) (hp : ∀ result, r.point ≠ .finished result) :
      CancelsRun k id (k.modifyRun id fun r => { r with canceled := true })
  /-- It has its next turn at once. -/
  | wakes {r : Run} (hr : k.runs[id]? = some r) (hp : r.point.isInterruptible = true) :
      CancelsRun k id ({ k with ready := addTurn k.ready (.run id) }.modifyRun id fun r =>
        { r with canceled := true })
  /-- Its loads are told to stop instead. -/
  | stops {r : Run} {g : Group} {k' : Keeper} (hr : k.runs[id]? = some r)
      (hg : r.point.group? = some g) (hd : g.isDone = false) (hs : StopsLoads k k') :
      CancelsRun k id (k'.wait id (r.point.withGroup { g with stopping := true }))

theorem cancelRun_cancelsRun (k : Keeper) (id : Nat) : CancelsRun k id (k.cancelRun id) := by
  unfold cancelRun
  cases hr : k.runs[id]? with
  | none =>
    simp only [point?, hr, Option.map_none]
    exact .rests (by simp [hr])
  | some r =>
    simp only [point?, hr, Option.map_some]
    cases hp : r.point with
    | finished result => exact .rests (by simp [hr, hp])
    | created => exact .flags hr (by simp [hp])
    | yielding d rest => exact .flags hr (by simp [hp])
    | queued => simp only [wakeOnce_eq]; exact .wakes hr (by rw [hp]; rfl)
    | searching d found pattern rest => simp only [wakeOnce_eq]; exact .wakes hr (by rw [hp]; rfl)
    | sleeping time => simp only [wakeOnce_eq]; exact .wakes hr (by rw [hp]; rfl)
    | loading d g rest =>
      dsimp only
      split
      · rename_i h
        have hg : r.point.group? = some g := by rw [hp]; rfl
        have hw := CancelsRun.stops hr hg (by simp_all) (foldl_cancelLoad_stopsLoads k g.loads)
        rw [hp] at hw
        exact hw
      · exact .flags hr (by simp [hp])
    | applying changes g =>
      dsimp only
      split
      · rename_i h
        have hg : r.point.group? = some g := by rw [hp]; rfl
        have hw := CancelsRun.stops hr hg (by simp_all) (foldl_cancelLoad_stopsLoads k g.loads)
        rw [hp] at hw
        exact hw
      · exact .flags hr (by simp [hp])

inductive Cancels : Keeper → Keeper → Prop where
  | refl (k : Keeper) : Cancels k k
  | step {k₁ k₂ k₃ : Keeper} {id : Nat} (h : CancelsRun k₁ id k₂) (h' : Cancels k₂ k₃) :
      Cancels k₁ k₃

/-- What is kept whenever a run is told to stop is kept however many are. -/
theorem Cancels.induction {P : Keeper → Prop} (hstep : ∀ k id k', P k → CancelsRun k id k' → P k')
    {k k' : Keeper} (h : Cancels k k') (hk : P k) : P k' := by
  induction h with
  | refl k => exact hk
  | step h _ ih => exact ih (hstep _ _ _ hk h)

theorem foldl_cancelRun_cancels (k : Keeper) (ids : List Nat) :
    Cancels k (ids.foldl cancelRun k) := by
  induction ids generalizing k with
  | nil => exact .refl k
  | cons id ids ih => exact .step (cancelRun_cancelsRun k id) (ih _)

theorem cancelTimer_cancels (k : Keeper) : Cancels k ((k.timer.map k.cancelRun).getD k) := by
  cases k.timer with
  | none => exact .refl k
  | some id => exact .step (cancelRun_cancelsRun k id) (.refl _)

/-! ## Calls -/

theorem disconnect_eq (k : Keeper) :
    ∃ provider connected, k.disconnect = { k with provider, connected } ∧
      provider.settings = k.provider.settings := by
  unfold disconnect
  split
  · exact ⟨_, false, rfl, rfl⟩
  · exact ⟨k.provider, k.connected, rfl, rfl⟩

theorem dispose_eq (k : Keeper) :
    ∃ k₁ k₂ provider connected changed,
      Cancels { k with disposed := true, runs := k.unwantedRuns } k₁ ∧
      Cancels { k₁ with timer := none, pending := .empty } k₂ ∧
      provider.settings = k₂.provider.settings ∧
      k.dispose =
        { k₂ with subscriptions := k₂.subscriptions.release, provider, connected, changed } := by
  have hcur := supersedeCurrent_eq { k with disposed := true }
  have h₁ := cancelTimer_cancels { k with disposed := true }.supersedeCurrent
  generalize hk₁ : (Option.map _ _).getD _ = k₁ at h₁
  have h₂ := foldl_cancelRun_cancels { k₁ with timer := none, pending := .empty } k₁.background
  generalize hk₂ : List.foldl _ _ _ = k₂ at h₂
  obtain ⟨provider, connected, hd, hp⟩ :=
    disconnect_eq { k₂ with subscriptions := k₂.subscriptions.release }
  rw [hcur] at h₁
  refine ⟨k₁, k₂, provider, connected, k₂.changed.dispose, h₁, h₂, hp, ?_⟩
  simp only [dispose, hk₁, hk₂, hd]

theorem switchMode_eq (k : Keeper) (mode : MatchMode) :
    (∃ c told fault, k.catalog.rematch (k.matcher.inMode mode) = .ok c ∧
      k.switchMode mode =
        ({ k with matcher := k.matcher.inMode mode, catalog := c, events := k.events ++ told },
          fault)) ∨
    ∃ fault, k.catalog.rematch (k.matcher.inMode mode) = .error fault ∧
      k.switchMode mode = ({ k with matcher := k.matcher.inMode mode }, some fault) := by
  unfold switchMode
  cases hr : k.catalog.rematch (k.matcher.inMode mode) with
  | error fault => exact .inr ⟨fault, rfl, by simp only [hr]⟩
  | ok c =>
    obtain ⟨told, fault, ha⟩ :=
      announce_eq { k with matcher := k.matcher.inMode mode, catalog := c }
    exact .inl ⟨c, told, fault, rfl, by simp only [hr]; exact ha⟩

theorem foldl_wakeOnce_eq (k : Keeper) (ts : List Turn) :
    ts.foldl wakeOnce k = { k with ready := ts.foldl addTurn k.ready } := by
  induction ts generalizing k with
  | nil => rfl
  | cons t ts ih => rw [List.foldl_cons, wakeOnce_eq, ih, List.foldl_cons]

/-! ## Settings and modes -/

/-- What every call of a listener keeps is kept when all listeners are called. -/
theorem callAll_induction {α σ : Type} {P : σ → Prop} (call : α → σ → σ × Option Fault)
    (hcall : ∀ a s, P s → P (call a s).1) (as : List α) (s : σ) (h : P s) :
    P (Signal.callAll call as s).1 := by
  induction as generalizing s with
  | nil => exact h
  | cons a as ih =>
    have ha := hcall a s h
    rw [Signal.callAll]
    split
    · rename_i s' he
      rw [he] at ha
      exact ih s' ha
    · rename_i s' fault he
      rw [he] at ha
      split
      · exact ih s' ha
      · exact ha

/-- From one keeper to the next, settings or the mode change.  What is under way is not touched; at
most, runs are started. -/
inductive Reconfigures : Keeper → Keeper → Prop where
  | sets (k : Keeper) (provider : Provider Unit) (settings : Settings) (matcher : Matcher)
      (catalog : Catalog) (subscriptions : Subscriptions) (events : List Event) :
      Reconfigures k { k with provider, settings, matcher, catalog, subscriptions, events }
  | starts (k : Keeper) (background : List Nat) :
      Reconfigures k { (k.start .rebuild).1 with background }
  | trans {k₁ k₂ k₃ : Keeper} (h : Reconfigures k₁ k₂) (h' : Reconfigures k₂ k₃) :
      Reconfigures k₁ k₃

theorem switchMode_reconfigures (k : Keeper) (mode : MatchMode) :
    Reconfigures k (k.switchMode mode).1 := by
  obtain ⟨c, told, fault, -, he⟩ | ⟨fault, -, he⟩ := switchMode_eq k mode
  · rw [he]
    exact .sets k k.provider k.settings (k.matcher.inMode mode) c k.subscriptions _
  · rw [he]
    exact .sets k k.provider k.settings (k.matcher.inMode mode) k.catalog k.subscriptions k.events

theorem spawnRebuild_reconfigures (k : Keeper) : Reconfigures k k.spawnRebuild := by
  unfold spawnRebuild
  split
  · exact .starts k _
  · exact .sets k k.provider k.settings k.matcher k.catalog k.subscriptions k.events

theorem settingsChanged_reconfigures (k : Keeper) : Reconfigures k k.settingsChanged.1 := by
  have hsets := fun matcher subscriptions =>
    Reconfigures.sets k k.provider k.provider.settings matcher k.catalog subscriptions k.events
  unfold settingsChanged
  dsimp only
  split
  · refine .trans ?_ (spawnRebuild_reconfigures _)
    exact hsets _ _
  · split
    · exact .trans (hsets k.matcher k.subscriptions) (switchMode_reconfigures _ _)
    · exact hsets k.matcher k.subscriptions

theorem changeSettings_reconfigures (k : Keeper) (changes : List (Text × Value)) :
    Reconfigures k (k.changeSettings changes).1 := by
  have hsets :=
    fun provider => Reconfigures.sets k provider k.settings k.matcher k.catalog k.subscriptions
      k.events
  unfold changeSettings
  split
  · exact hsets k.provider
  · exact hsets _
  · rename_i provider hu
    have hcall := callAll_induction (P := Reconfigures k) (fun () k => k.settingsChanged)
      (fun _ k' hk => hk.trans (settingsChanged_reconfigures k')) provider.changed.listeners
        { k with provider }
      (hsets provider)
    split
    · rename_i k' hc
      rw [hc] at hcall
      exact hcall
    · rename_i k' fault hc
      rw [hc] at hcall
      exact hcall

end Keeper
end StepAtlas
