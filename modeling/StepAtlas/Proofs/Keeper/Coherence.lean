import StepAtlas.Proofs.Keeper.Stamps
import StepAtlas.Proofs.Keeper.Writes

/-
The catalog of a keeper stays coherent, whatever the order of calls and turns.

Five things write to the catalog: a draft that is published, a refresh of some features, a refresh
that also touches definitions, a switch of the mode, and the entries of oversize files that a draft
takes over.  All of them end by matching the steps that they touch, so what has to be carried from
turn to turn is only that the features are stamped.
-/

namespace StepAtlas
namespace Keeper

/-- The parts of a keeper that have to be in order for its catalog to stay coherent. -/
structure SoundParts (w : Workspace) (settings inForce : Settings) (matcher : Matcher) (c : Catalog)
    (loads : List Load) (runs : List Run) : Prop where
  stamps : w.Stamps
  settings : settings.sameFiles inForce = true
  stamped : c.Stamped
  coherent : c.Coherent matcher
  loaded : ∀ l ∈ loads, l.Sound
  points : ∀ r ∈ runs, r.point.Sound loads

/-- The catalog is coherent, and everything that is under way will leave it so. -/
def Sound (k : Keeper) : Prop :=
  SoundParts k.workspace k.settings k.provider.settings k.matcher k.catalog k.loads k.runs

theorem Sound.allStamped {k : Keeper} (h : k.Sound) : k.Stamped :=
  ⟨h.stamps, h.stamped, h.loaded, h.points⟩

theorem Stamped.sound {k : Keeper} (h : k.Stamped)
    (hs : k.settings.sameFiles k.provider.settings = true) (hc : k.catalog.Coherent k.matcher) :
    k.Sound :=
  ⟨h.stamps, hs, h.catalog, hc, h.loaded, h.points⟩

/-- What a move leaves alone stays in order. -/
theorem Sound.keep {k k' : Keeper} (h : k.Sound) (hst : k'.Stamped)
    (hset : k'.settings = k.settings) (hp : k'.provider.settings = k.provider.settings)
    (hcat : k'.catalog = k.catalog) (hmode : k'.matcher = k.matcher) :
    k'.Sound := by
  refine hst.sound ?_ ?_
  · rw [hset, hp]
    exact h.settings
  · rw [hcat, hmode]
    exact h.coherent

/-! ## Turns -/

theorem provider_giveUp (k : Keeper) (id : Nat) (result : Except Stop Bool) :
    (k.giveUp id result).provider = k.provider := by
  obtain ⟨subscriptions, he⟩ := giveUp_eq k id result
  rw [he]
  rfl

theorem provider_publish (k : Keeper) (id : Nat) (c : Catalog) :
    (k.publish id c).provider = k.provider := by
  obtain ⟨told, subscriptions, he⟩ := publish_eq k id c
  rw [he]
  rfl

theorem Builds.provider {k k' : Keeper} {id : Nat} {d : Draft} {goal : Except Fault Catalog}
    (hb : Builds k id d goal k') : k'.provider = k.provider := by
  cases hb with
  | searches | loads => rfl
  | abandons hw => exact provider_giveUp k id _
  | fails hf => exact provider_giveUp k id _
  | publishes hw hg hr => exact provider_publish k id _

theorem Enters.provider {k k' : Keeper} {id : Nat} {job : Job} (he : Enters k id job k') :
    k'.provider = k.provider := by
  cases he with
  | builds hj hb => exact hb.provider
  | idles hj hp => rw [leave_eq]; rfl
  | takesOver => rfl

theorem Arrives.inForce {k k' : Keeper} {id : Nat} {r : Run} (ha : Arrives k id r k') :
    k'.provider.settings = k.provider.settings := by
  cases ha with
  | rebuild hp hj => rw [supersede_eq]
  | startUp hp hj => rw [supersede_eq]; rfl
  | refresh | wakes => rfl

/-- The settings in force are not for the runs to change. -/
theorem TakesRun.inForce {k k' : Keeper} {id : Nat} {r : Run} (ht : TakesRun k id r k') :
    k'.provider.settings = k.provider.settings := by
  cases ht with
  | enters hc ha hl hq he => rw [he.provider]; exact ha.inForce
  | admitted hp hc he => rw [he.provider]
  | resumes hp hc hb => rw [hb.provider]
  | continues hp hc hb => rw [hb.provider]
  | queues hc ha hl => exact ha.inForce
  | givesUp hp hg => rw [provider_giveUp]
  | leaves hp hl => rw [leave_eq]; rfl
  | breaks hp hc hg hd hre => rw [leave_eq]; rfl
  | rests | stops | sleeps | quits | yields | applies => rfl

theorem not_calm_of_failed {k : Keeper} {id : Nat} {r : Run} (hr : k.runs[id]? = some r)
    (fault : Fault) :
    ¬ (k.finish id (.error (.failed fault))).Calm := by
  intro hc
  have hmem : ({ r with point := .finished (.error (.failed fault)) } : Run) ∈
      (k.finish id (.error (.failed fault))).runs := by
    apply List.mem_iff_getElem?.mpr
    refine ⟨id, ?_⟩
    simp [finish, wait, modifyRun, hr]
  exact absurd (hc _ hmem) (by simp [Run.hasFailed])

theorem TakesRun.sound {k k' : Keeper} {id : Nat} {r : Run} (ht : TakesRun k id r k')
    (hr : k.runs[id]? = some r) (hc : k'.Calm) (h : k.Sound) : k'.Sound := by
  have hst : k'.Stamped := ht.stamped hr h.allStamped
  have hset : k'.settings = k.settings := ht.frame.settings
  have hmode : k'.matcher = k.matcher := ht.frame.matcher
  have hp := h.points r (List.mem_of_getElem? hr)
  refine hst.sound (by rw [hset, ht.inForce]; exact h.settings) ?_
  rw [hmode]
  cases ht.writes with
  | nothing hcat _ => rw [hcat]; exact h.coherent
  | @publishes k₁ c hj hcan hk hw hre =>
    obtain ⟨told, subscriptions, he⟩ := publish_eq k₁ id c
    have hs : r.staged.Stamped := by
      cases hd : r.point.draft? with
      | none => rw [Run.staged_of_draft?_eq_none hd]; exact Catalog.empty_stamped
      | some d => rw [Run.staged_of_draft? hd]; exact hp.staged hd
    rw [he, Catalog.published_eq (Catalog.rematch_stamped hs hre)]
    exact Catalog.rematch_coherent hs hre
  | breaks hpt hcan hg hd hre =>
    rw [leave_eq] at hc
    exact absurd hc (not_calm_of_failed hr _)
  | applies hpt hcan hg hd hre hk =>
    rw [hpt] at hp
    rw [hk]
    exact (Catalog.refresh_coherent h.stamped h.coherent (loadedChanges_stamped h.allStamped hp)
      hre).2

theorem Takes.sound {k k' : Keeper} {t : Turn} (ht : Takes k t k') (hc : k'.Calm) (h : k.Sound) :
    k'.Sound := by
  have hst : k'.Stamped := ht.stamped h.allStamped
  cases ht with
  | run hr hrun => exact hrun.sound hr hc h
  | load hl hload =>
    cases hload with
    | rests | waits | ends => exact h.keep hst rfl rfl rfl rfl
  | report hl hreport =>
    cases hreport with
    | rests | delivers => exact h.keep hst rfl rfl rfl rfl
  | alarm hr hp => exact h
  | idle => exact h

/-! ## Calls -/

/-- Telling runs to stop is nothing to the catalog. -/
theorem CancelsRun.sound {k k' : Keeper} {id : Nat} (hc : CancelsRun k id k') (h : k.Sound) :
    k'.Sound := by
  have hst : k'.Stamped := hc.stamped h.allStamped
  cases hc with
  | rests hp => exact h
  | flags hr hp => exact h.keep hst rfl rfl rfl rfl
  | wakes hr hp => exact h.keep hst rfl rfl rfl rfl
  | stops hr hg hd hs =>
    obtain ⟨loads, ts, rfl, -, -⟩ := hs
    exact h.keep hst rfl rfl rfl rfl

theorem Cancels.sound {k k' : Keeper} (hc : Cancels k k') (h : k.Sound) : k'.Sound :=
  hc.induction (fun _ _ _ hk hcan => hcan.sound hk) h

theorem Sound.start {k : Keeper} (h : k.Sound) (job : Job) : (k.start job).1.Sound :=
  h.keep (h.allStamped.start job) rfl rfl rfl rfl

theorem notify_sound {k : Keeper} (h : k.Sound) (p : Path) (c : Change) : (k.notify p c).Sound := by
  unfold notify
  split
  · exact h
  · exact ((cancelTimer_cancels { k with pending := k.pending.set p c }).sound h).start
      .delayedRefresh

theorem dispose_sound {k : Keeper} (h : k.Sound) : k.dispose.Sound := by
  have hst : k.dispose.Stamped := dispose_stamped h.allStamped
  obtain ⟨k₁, k₂, provider, connected, changed, h₁, h₂, hp, he⟩ := dispose_eq k
  have hs₁ : k₁.Sound := h₁.sound (h.keep h.allStamped.unwantedRuns rfl rfl rfl rfl)
  have hs₂ : k₂.Sound := h₂.sound hs₁
  rw [he] at hst ⊢
  exact hs₂.keep hst rfl hp rfl rfl

/-- A switch of the mode that does not fail leaves the catalog coherent in the new mode. -/
theorem switchMode_sound {k : Keeper} (h : k.Sound) {mode : MatchMode}
    (hok : (k.switchMode mode).2 = none) :
    (k.switchMode mode).1.Sound := by
  obtain ⟨c, told, fault, hr, he⟩ | ⟨fault, hr, he⟩ := switchMode_eq k mode
  · rw [he]
    exact ⟨h.stamps, h.settings, Catalog.rematch_stamped h.stamped hr,
      Catalog.rematch_coherent h.stamped hr, h.loaded, h.points⟩
  · rw [he] at hok
    cases hok

/-! ## Changes of the settings -/

theorem sameFiles_iff {a b : Settings} : a.sameFiles b = true ↔
    a.projectDir.same b.projectDir = true ∧ a.featureGlobs = b.featureGlobs ∧
      a.definitionGlobs = b.definitionGlobs ∧
      a.excludeGlobs = b.excludeGlobs := by
  simp [Settings.sameFiles, and_assoc]

/-- Settings that were taken over before make no difference. -/
theorem settingsChanged_of_eq {k : Keeper} (h : k.settings = k.provider.settings) :
    k.settingsChanged = (k, none) := by
  have hk : { k with settings := k.provider.settings } = k := by rw [← h]
  unfold settingsChanged
  dsimp only
  rw [hk, h, if_neg, if_neg]
  · simp
  · simp [sameFiles_iff.mpr]

theorem callAll_of_fixed {α σ : Type} {call : α → σ → σ × Option Fault} {s : σ}
    (h : ∀ a, call a s = (s, none)) (as : List α) : Signal.callAll call as s = (s, none) := by
  induction as with
  | nil => rfl
  | cons a as ih => rw [Signal.callAll, h a]; exact ih

/-- What the keeper does when the settings change in their mode at most. -/
theorem settingsChanged_sound {k : Keeper} (h : k.Sound) (hok : k.settingsChanged.2 = none) :
    k.settingsChanged.1.Sound ∧
      k.settingsChanged.1.settings = k.settingsChanged.1.provider.settings := by
  have hs : { k with settings := k.provider.settings }.Sound :=
    ⟨h.stamps, by simp [sameFiles_iff], h.stamped, h.coherent, h.loaded, h.points⟩
  have hfiles : (!k.settings.sameFiles k.provider.settings) = false := by rw [h.settings]; rfl
  unfold settingsChanged at hok ⊢
  simp only [hfiles, Bool.false_eq_true, if_false] at hok ⊢
  split at hok
  · rename_i hm
    rw [if_pos hm]
    refine ⟨switchMode_sound hs hok, ?_⟩
    obtain ⟨c, told, fault, hr, he⟩ | ⟨fault, hr, he⟩ := switchMode_eq _ _
    · rw [he]
    · rw [he]
  · rename_i hm
    rw [if_neg hm]
    exact ⟨hs, rfl⟩

/-- A change of settings that leads to the same files, so that no more than the mode changes, and
that the keeper takes over without a failure if it listens. -/
def ChangesMode (k : Keeper) (changes : List (Text × Value)) : Prop :=
  ∀ provider signalled, k.provider.update changes = .ok (provider, signalled) →
    k.provider.settings.sameFiles provider.settings = true ∧
      (signalled = true → provider.changed.listeners ≠ [] →
        { k with provider }.settingsChanged.2 = none)

theorem changeSettings_sound {k : Keeper} (h : k.Sound) {changes : List (Text × Value)}
    (hm : k.ChangesMode changes) :
    (k.changeSettings changes).1.Sound := by
  unfold changeSettings
  cases hu : k.provider.update changes with
  | error fault => exact h
  | ok answer =>
    obtain ⟨provider, signalled⟩ := answer
    obtain ⟨hfiles, hok⟩ := hm provider signalled hu
    have hk : { k with provider }.Sound := by
      refine ⟨h.stamps, ?_, h.stamped, h.coherent, h.loaded, h.points⟩
      have h₁ := sameFiles_iff.mp h.settings
      have h₂ := sameFiles_iff.mp hfiles
      exact sameFiles_iff.mpr
        ⟨Value.same_trans h₁.1 h₂.1, h₁.2.1.trans h₂.2.1, h₁.2.2.1.trans h₂.2.2.1,
          h₁.2.2.2.trans h₂.2.2.2⟩
    cases signalled with
    | false => exact hk
    | true =>
      have hcall : ∃ k', Signal.callAll (fun () k => k.settingsChanged) provider.changed.listeners
            { k with provider } =
          (k', none) ∧ k'.Sound := by
        cases hl : provider.changed.listeners with
        | nil => exact ⟨_, rfl, hk⟩
        | cons u us =>
          -- Only the first connection sees a difference.
          have hok : { k with provider }.settingsChanged.2 = none := hok rfl (by simp [hl])
          obtain ⟨hs, he⟩ := settingsChanged_sound hk hok
          refine ⟨{ k with provider }.settingsChanged.1, ?_, hs⟩
          have hp : { k with provider }.settingsChanged =
              ({ k with provider }.settingsChanged.1, none) := by
            rw [← hok]
          rw [Signal.callAll, hp]
          exact callAll_of_fixed (fun u => settingsChanged_of_eq he) us
      obtain ⟨k', hc, hs⟩ := hcall
      dsimp only
      rw [hc]
      exact hs

/-! ## Courses -/

/-- What may happen: everything but changes of the settings that lead to other files.  Files are
edited at will, as long as their features are stamped. -/
def KeepsFiles (k : Keeper) : Move → Prop
  | .changeSettings changes => k.ChangesMode changes
  | .edit w => w.Stamps
  | _ => True

theorem next_sound {k : Keeper} {m : Move} (h : k.Sound) (hm : k.KeepsFiles m)
    (hraise : (k.perform m).2 = none) (hcalm : (k.next m).Calm) : (k.next m).Sound := by
  have h' := next_moves k m
  generalize k.next m = k' at h' hcalm ⊢
  cases h' with
  | @starts _ job => exact h.start job
  | notify p c => exact notify_sound h p c
  | switchMode mode => exact switchMode_sound h hraise
  | changeSettings changes => exact changeSettings_sound h hm
  | dispose => exact dispose_sound h
  | run hready hr hrun => exact (hrun.takes hr).sound hcalm h
  | works _ _ htake => exact htake.sound hcalm h
  | edit w => exact ⟨hm, h.settings, h.stamped, h.coherent, h.loaded, h.points⟩
  | listen | waits => exact h

theorem new_sound {w : Workspace} (hw : w.Stamps) (provider : Provider Unit) (groupSize : Nat)
    (limit : Int) (delay : Nat) (watchable : Bool) :
    (new w provider groupSize limit delay watchable).Sound := by
  refine (new_stamped hw provider groupSize limit delay watchable).sound ?_
    (Catalog.empty_coherent _)
  simp [new, sameFiles_iff]

/-- In every course in which nothing fails, the stored results of each feature are at all times what
matching its steps against all definitions in the present mode brings, in the order of the steps,
and there are no other results. -/
theorem coherent_after {w : Workspace} (hw : w.Stamps) (provider : Provider Unit) (groupSize : Nat)
    (limit : Int) (delay : Nat) (watchable : Bool) {ms : List Move}
    (h : Quiet KeepsFiles (new w provider groupSize limit delay watchable) ms) :
    ((new w provider groupSize limit delay watchable).after ms).catalog.Coherent
      ((new w provider groupSize limit delay watchable).after ms).matcher :=
  (h.induction (fun _ _ hk hm hraise hcalm => next_sound hk hm hraise hcalm)
    (new_sound hw provider groupSize limit delay watchable)).coherent

/-- The catalog is built while the mode is switched, and then a second feature comes into being. -/
def switchCourse : List Move :=
  [.rebuild, .turn (.run 0), .turn (.load 0), .turn (.report 0), .turn (.run 0), .turn (.run 0),
    .turn (.load 1), .switchMode .expressionOnly, .turn (.report 1), .turn (.run 0), .turn (.run 0),
    .edit (inMemory ((shortPath 'f' 'b', [.scalar 'y']) :: twoFiles)),
    .notify (shortPath 'f' 'b') { cls := .feature, kind := .created }, .refresh, .turn (.run 2),
      .turn (.load 2),
    .turn (.report 2), .turn (.run 2)]

theorem coherent_after_switchCourse :
    Quiet KeepsFiles (ofFiles twoFiles) switchCourse ∧
      ((ofFiles twoFiles).after switchCourse).catalog.results.map (·.found.length) = [1, 0] ∧
      ((ofFiles twoFiles).after switchCourse).catalog.Coherent
        ((ofFiles twoFiles).after switchCourse).matcher := by
  have hq : Quiet KeepsFiles (ofFiles twoFiles) switchCourse := by
    refine Quiet.of_allowed (by decide +kernel) ?_
    simp [switchCourse, KeepsFiles, inMemory_stamps]
  exact ⟨hq, by decide +kernel, coherent_after (inMemory_stamps twoFiles) _ 20 1000 500 false hq⟩

end Keeper
end StepAtlas
