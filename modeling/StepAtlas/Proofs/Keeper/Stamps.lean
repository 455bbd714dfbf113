import StepAtlas.Proofs.Catalog
import StepAtlas.Proofs.Keeper.Order
import StepAtlas.Proofs.Keeper.Runs
import StepAtlas.Proofs.Keeper.Timer

/-
Features name their files, at all times and whatever fails.

Results are told apart by the path that their step names, so everything that is said about them
rests on features being stamped: those of the catalog, of every draft, and of every file that is
loaded and not yet entered.  No move breaks this, not even one that ends in a failure, and so it
holds of every keeper that can come to be.
-/

namespace StepAtlas

/-- If a load has brought a feature, then it is stamped. -/
def Load.Sound (l : Load) : Prop := ∀ x, l.point = .finished (.ok x) → x.StampedBy l.path

/-- A draft is stamped, and each change has the load of its own file. -/
def Point.Sound (loads : List Load) : Point → Prop
  | .searching d _ _ _ | .loading d _ _ | .yielding d _ => d.staged.Stamped
  | .applying changes g =>
    List.Forall₂ (fun e j => ∃ l, loads[j]? = some l ∧ l.path = e.1) changes.entries g.loads
  | _ => True

theorem Point.Sound.mono {loads loads' : List Load} {p : Point} (h : p.Sound loads)
    (hpath : ∀ (j : Nat) (l : Load), loads[j]? = some l → ∃ l' : Load, loads'[j]? = some l' ∧
      l'.path = l.path) :
    p.Sound loads' := by
  cases p with
  | applying changes g =>
    refine List.Forall₂.imp (fun e j he => ?_) h
    obtain ⟨l, hl, hp⟩ := he
    obtain ⟨l', hl', hp'⟩ := hpath j l hl
    exact ⟨l', hl', hp'.trans hp⟩
  | _ => exact h

theorem Point.Sound.staged {loads : List Load} {p : Point} {d : Draft} (h : p.Sound loads)
    (hd : p.draft? = some d) :
    d.staged.Stamped := by
  cases p with
  | searching | loading | yielding => cases hd; exact h
  | _ => cases hd

/-- The loads of a point are those of its group, whatever has been reported. -/
theorem Point.Sound.withGroup {loads : List Load} {p : Point} {g g' : Group} (h : p.Sound loads)
    (hg : p.group? = some g) (hloads : g'.loads = g.loads) : (p.withGroup g').Sound loads := by
  cases p with
  | loading d g₀ rest => exact h
  | applying changes g₀ =>
    cases hg
    show List.Forall₂ _ _ g'.loads
    rw [hloads]
    exact h
  | _ => cases hg

namespace Keeper

structure StampedParts (w : Workspace) (c : Catalog) (loads : List Load) (runs : List Run) :
    Prop where
  stamps : w.Stamps
  catalog : c.Stamped
  loaded : ∀ l ∈ loads, l.Sound
  points : ∀ r ∈ runs, r.point.Sound loads

def Stamped (k : Keeper) : Prop := StampedParts k.workspace k.catalog k.loads k.runs

namespace Stamped
variable {k : Keeper}

/-! ## Fields -/

/-- Runs may change in everything but their points. -/
theorem runs (h : k.Stamped) {runs : List Run}
    (hruns : ∀ r ∈ runs, ∃ r' ∈ k.runs, r.point = r'.point) :
    { k with runs }.Stamped := by
  refine ⟨h.stamps, h.catalog, h.loaded, ?_⟩
  intro r hr
  obtain ⟨r', hr', hp⟩ := hruns r hr
  rw [hp]
  exact h.points r' hr'

theorem modifyRun (h : k.Stamped) (id : Nat) {f : Run → Run} (hf : ∀ r, (f r).point = r.point) :
    (k.modifyRun id f).Stamped := by
  apply h.runs
  intro r hr
  rcases mem_modify hr with hr | ⟨r', hr', rfl⟩
  · exact ⟨r, hr, rfl⟩
  · exact ⟨r', List.mem_of_getElem? hr', hf r'⟩

theorem wait (h : k.Stamped) (id : Nat) {p : Point} (hp : p.Sound k.loads) :
    (k.wait id p).Stamped := by
  refine ⟨h.stamps, h.catalog, h.loaded, ?_⟩
  intro r hr
  rcases mem_modify hr with hr | ⟨r', -, rfl⟩
  · exact h.points r hr
  · exact hp

theorem finish (h : k.Stamped) (id : Nat) (result : Except Stop Bool) :
    (k.finish id result).Stamped :=
  h.wait id trivial

theorem setCatalog (h : k.Stamped) {c : Catalog} (hs : c.Stamped) :
    { k with catalog := c }.Stamped :=
  ⟨h.stamps, hs, h.loaded, h.points⟩

/-- Loads may change as long as they stay in their places and bring stamped features. -/
theorem setLoads (h : k.Stamped) {loads : List Load} (hs : ∀ l ∈ loads, l.Sound)
    (hpath : ∀ (j : Nat) (l : Load), k.loads[j]? = some l → ∃ l' : Load, loads[j]? = some l' ∧
      l'.path = l.path) :
    { k with loads }.Stamped :=
  ⟨h.stamps, h.catalog, hs, fun r hr => (h.points r hr).mono hpath⟩

theorem modifyLoad (h : k.Stamped) {id : Nat} {f : Load → Load} (hpath : ∀ l, (f l).path = l.path)
    (hf : ∀ l, k.loads[id]? = some l → (f l).Sound) : (k.modifyLoad id f).Stamped := by
  apply h.setLoads
  · intro l hl
    rcases mem_modify hl with hl | ⟨l', hl', rfl⟩
    · exact h.loaded l hl
    · exact hf l' hl'
  · intro j l hl
    by_cases hj : id = j
    · exact ⟨f l, by simp [hj, hl], hpath l⟩
    · exact ⟨l, by simp [hj, hl], rfl⟩

theorem start (h : k.Stamped) (job : Job) : (k.start job).1.Stamped := by
  refine ⟨h.stamps, h.catalog, h.loaded, ?_⟩
  intro r hr
  rcases List.mem_append.mp hr with hr | hr
  · exact h.points r hr
  · rw [List.mem_singleton] at hr
    rw [hr]
    trivial

theorem startLoads (h : k.Stamped) (owner : Nat) (files : List (Path × FileClass × Bool)) :
    (k.startLoads owner files).1.Stamped := by
  apply h.setLoads
  · intro l hl
    rcases List.mem_append.mp hl with hl | hl
    · exact h.loaded l hl
    · obtain ⟨file, -, rfl⟩ := List.mem_map.mp hl
      intro x hx
      cases hx
  · intro j l hl
    exact ⟨l, List.getElem?_append_left (List.getElem?_eq_some_iff.mp hl).1 ▸ hl, rfl⟩

theorem giveUp (h : k.Stamped) (id : Nat) (result : Except Stop Bool) :
    (k.giveUp id result).Stamped := by
  obtain ⟨subscriptions, he⟩ := giveUp_eq k id result
  rw [he]
  exact Stamped.finish h id result

theorem leave (h : k.Stamped) (id : Nat) (result : Except Stop Bool) :
    (k.leave id result).Stamped := by
  rw [leave_eq]
  exact Stamped.finish h id result

theorem publish (h : k.Stamped) (id : Nat) {c : Catalog} (hs : c.Stamped) :
    (k.publish id c).Stamped := by
  obtain ⟨told, subscriptions, he⟩ := publish_eq k id c
  rw [he, Catalog.published_eq hs]
  exact Stamped.finish (h.setCatalog hs) id _

theorem unwantedRuns (h : k.Stamped) : { k with runs := k.unwantedRuns }.Stamped := by
  apply h.runs
  intro r hr
  obtain ⟨i, hi⟩ := List.mem_iff_getElem?.mp hr
  rw [Keeper.unwantedRuns, List.getElem?_mapIdx] at hi
  obtain ⟨r', hr', rfl⟩ := Option.map_eq_some_iff.mp hi
  exact ⟨r', List.mem_of_getElem? hr', rfl⟩

theorem supersede (h : k.Stamped) (id : Nat) : (k.supersede id).Stamped := by
  rw [supersede_eq]
  exact Stamped.modifyRun h.unwantedRuns id fun r => rfl

end Stamped

/-! ## Turns -/

theorem Builds.stamped {k k' : Keeper} {id : Nat} {d : Draft} {goal : Except Fault Catalog}
    (hb : Builds k id d goal k') (h : k.Stamped) (hd : d.staged.Stamped) : k'.Stamped := by
  cases hb with
  | searches hs hst hg =>
    refine h.wait id ?_
    show Catalog.Stamped _
    rw [hst]
    exact hd
  | loads hs hst hg =>
    refine Stamped.wait (h.startLoads id _) id ?_
    show Catalog.Stamped _
    rw [hst]
    exact hd
  | abandons hw => exact h.giveUp id _
  | fails hf => exact h.giveUp id _
  | publishes hw hg hr => exact h.publish id (Catalog.rematch_stamped hd hr)

/-- The loads that are started for changes are those of their own files. -/
theorem applying_sound (k : Keeper) (id : Nat) :
    (Point.applying k.pending
      ({ k with pending := .empty }.startLoads id (changedFiles k.pending)).2).Sound
      ({ k with pending := .empty }.startLoads id (changedFiles k.pending)).1.loads := by
  have h := startLoads_group { k with pending := .empty } id (changedFiles k.pending)
  refine (List.forall₂_map_left_iff.mp h).imp fun e j he => ?_
  exact ⟨_, he, rfl⟩

theorem Enters.stamped {k k' : Keeper} {id : Nat} {job : Job} (he : Enters k id job k')
    (h : k.Stamped) :
    k'.Stamped := by
  cases he with
  | builds hj hb => exact hb.stamped h Catalog.empty_stamped
  | idles hj hp =>
    refine Stamped.leave ?_ id _
    exact h
  | takesOver hj hp hd => exact Stamped.wait (Stamped.startLoads h id _) id (applying_sound k id)

theorem Arrives.stamped {k k' : Keeper} {id : Nat} {r : Run} (ha : Arrives k id r k')
    (h : k.Stamped) :
    k'.Stamped := by
  cases ha with
  | rebuild hp hj => exact h.supersede id
  | startUp hp hj => exact Stamped.supersede (k := k.connect) h id
  | refresh hp hj => exact h
  | wakes hp => exact h

theorem loaded_stampedBy {k : Keeper} (h : k.Stamped) {j : Nat} {l : Load}
    (hl : k.loads[j]? = some l) :
    (k.loaded j).StampedBy l.path := by
  unfold loaded loadPoint?
  rw [hl]
  split
  · rename_i x hx
    exact h.loaded l (List.mem_of_getElem? hl) x (by simpa using hx)
  · intro f hf
    cases hf

theorem enterLoads_stamped {k : Keeper} (h : k.Stamped) {d : Draft} (hd : d.staged.Stamped)
    (g : Group) :
    (k.enterLoads d g).staged.Stamped := by
  unfold enterLoads
  dsimp only
  generalize d.staged = c at hd
  induction g.loads generalizing c with
  | nil => exact hd
  | cons j js ih =>
    rw [List.foldl_cons]
    apply ih
    cases hl : k.loads[j]? with
    | none => exact hd
    | some l => exact Catalog.stage_stamped hd h.catalog d.cls (loaded_stampedBy h hl)

theorem loadedChanges_stamped {k : Keeper} (h : k.Stamped) {changes : PathMap Change} {g : Group}
    (hp : (Point.applying changes g).Sound k.loads) :
    ∀ e ∈ k.loadedChanges changes g, e.2.2.StampedBy e.1 := by
  intro e he
  obtain ⟨⟨⟨p, c⟩, j⟩, hj, rfl⟩ := List.mem_map.mp he
  obtain ⟨l, hl, hpath⟩ := List.forall₂_iff_zip.mp hp |>.2 hj
  have hst := loaded_stampedBy h hl
  rw [hpath] at hst
  exact hst

/-- What a run that applies changes enters: each change with what its file has brought. -/
theorem map_loadedChanges {k : Keeper} {changes : PathMap Change} {g : Group}
    (h : (Point.applying changes g).Sound k.loads) :
    (k.loadedChanges changes g).map (fun e => (e.1, e.2.1)) = changes.entries := by
  rw [loadedChanges, List.map_map]
  exact List.map_fst_zip (Nat.le_of_eq h.length_eq)

theorem nodup_loadedChanges {k : Keeper} {changes : PathMap Change} {g : Group}
    (h : (Point.applying changes g).Sound k.loads) :
    ((k.loadedChanges changes g).map (·.1)).Nodup := by
  have hmap : (k.loadedChanges changes g).map (·.1) = changes.entries.map Prod.fst := by
    rw [← map_loadedChanges h, List.map_map]
    rfl
  rw [hmap]
  exact changes.unique

theorem get?_of_mem_loadedChanges {k : Keeper} {changes : PathMap Change} {g : Group}
    {e : Path × Change × Loaded} (he : e ∈ k.loadedChanges changes g) :
    changes.get? e.1 = some e.2.1 := by
  obtain ⟨⟨⟨p, c⟩, j⟩, hj, rfl⟩ := List.mem_map.mp he
  exact PathMap.mem_entries_iff.mp (List.of_mem_zip hj).1

theorem loadedChanges_of_get?_eq_none {k : Keeper} {changes : PathMap Change} {g : Group} {p : Path}
    (h : changes.get? p = none) : p ∉ (k.loadedChanges changes g).map (·.1) := by
  intro hp
  obtain ⟨e, he, rfl⟩ := List.mem_map.mp hp
  rw [get?_of_mem_loadedChanges he] at h
  cases h

theorem TakesRun.stamped {k k' : Keeper} {id : Nat} {r : Run} (ht : TakesRun k id r k')
    (hr : k.runs[id]? = some r) (h : k.Stamped) : k'.Stamped := by
  have hp := h.points r (List.mem_of_getElem? hr)
  -- A refresh enters the changes whether or not it fails after that.
  have hrefresh : ∀ {changes : PathMap Change} {g : Group} {c : Catalog} {fault : Option Fault},
      r.point = .applying changes g → k.catalog.refresh k.matcher (k.loadedChanges changes g) =
        (c, fault) → c.Stamped := by
    intro changes g c fault hpt hre
    rw [hpt] at hp
    have hs := Catalog.applyChanges_stamped h.catalog (loadedChanges_stamped h hp)
    exact Catalog.stamped_of_features_eq (Catalog.entries_of_refresh hre).1 hs
  cases ht with
  | rests hpt => exact h
  | stops hpt hcan => exact h.finish id _
  | sleeps hpt hj hcan => exact Stamped.wait h id trivial
  | queues hcan ha hl => exact Stamped.wait (ha.stamped h) id trivial
  | enters hcan ha hl hq he => exact he.stamped (ha.stamped h)
  | quits hpt hcan => exact Stamped.finish h id _
  | admitted hpt hcan he => exact he.stamped h
  | resumes hpt hcan hb => exact hb.stamped h (hp.staged (by rw [hpt]; rfl))
  | yields hpt hcan hg hs =>
    exact Stamped.wait h id (enterLoads_stamped h (hp.staged (by rw [hpt]; rfl)) _)
  | continues hpt hcan hb => exact hb.stamped h (hp.staged (by rw [hpt]; rfl))
  | givesUp hpt hg => exact h.giveUp id _
  | leaves hpt hl => exact h.leave id _
  | breaks hpt hcan hg hd hre => exact (h.setCatalog (hrefresh hpt hre)).leave id _
  | applies hpt hcan hg hd hre => exact Stamped.finish (h.setCatalog (hrefresh hpt hre)) id _

theorem EndsLoad.stampedBy {k : Keeper} {l : Load} {es : List Event} {result : Except Stop Loaded}
    {x : Loaded} (he : EndsLoad k l es result) (hw : k.workspace.Stamps) (hx : result = .ok x) :
    x.StampedBy l.path := by
  cases he with
  | canceled hc => cases hx
  | gone hg =>
    cases hx
    intro f hf
    cases hf
  | reads hg =>
    cases hl : k.workspace.load k.sizeLimit l.cls l.path with
    | error fault => rw [hl] at hx; cases hx
    | ok y =>
      rw [hl] at hx
      cases hx
      exact Workspace.load_stampedBy hw hl

theorem TakesLoad.stamped {k k' : Keeper} {id : Nat} {l : Load} (ht : TakesLoad k id l k')
    (hl : k.loads[id]? = some l) (h : k.Stamped) : k'.Stamped := by
  cases ht with
  | rests hp => exact h
  | waits hp hg =>
    refine h.modifyLoad (fun _ => rfl) fun l' _ x hx => ?_
    cases hx
  | ends hp he =>
    refine Stamped.modifyLoad h (fun _ => rfl) fun l' hl' x hx => ?_
    have hll : l = l' := Option.some.inj (hl.symm.trans hl')
    subst hll
    exact he.stampedBy h.stamps (LoadPoint.finished.inj hx)

theorem TakesReport.stamped {k k' : Keeper} {id : Nat} {l : Load} (ht : TakesReport k id l k')
    (h : k.Stamped) :
    k'.Stamped := by
  cases ht with
  | rests => exact h
  | delivers hl hr hg hd ha =>
    exact Stamped.wait h l.owner
      ((h.points _ (List.mem_of_getElem? hr)).withGroup hg (Group.loads_report _ _ _))

theorem Takes.stamped {k k' : Keeper} {t : Turn} (ht : Takes k t k') (h : k.Stamped) :
    k'.Stamped := by
  cases ht with
  | run hr hrun => exact hrun.stamped hr h
  | load hl hload => exact hload.stamped hl h
  | report hl hreport => exact hreport.stamped h
  | alarm hr hp => exact h
  | idle => exact h

/-! ## Calls -/

/-- Telling loads to stop changes nothing that they bring. -/
theorem StopsLoads.stamped {k k' : Keeper} (hs : StopsLoads k k') (h : k.Stamped) : k'.Stamped := by
  have hget := hs.loads
  obtain ⟨loads, ts, rfl, -, -⟩ := hs
  refine Stamped.setLoads h ?_ ?_
  · intro l hmem
    obtain ⟨j, hj⟩ := List.mem_iff_getElem?.mp hmem
    have hu := hget j
    rw [hj] at hu
    obtain ⟨l', hl', he⟩ := Option.map_eq_some_iff.mp hu.symm
    rw [Load.eq_of_uncanceled_eq he.symm]
    exact h.loaded l' (List.mem_of_getElem? hl')
  · intro j l hj
    have hu := hget j
    rw [hj] at hu
    obtain ⟨l', hl', he⟩ := Option.map_eq_some_iff.mp hu
    refine ⟨l', hl', ?_⟩
    rw [Load.eq_of_uncanceled_eq he]

theorem CancelsRun.stamped {k k' : Keeper} {id : Nat} (hc : CancelsRun k id k') (h : k.Stamped) :
    k'.Stamped := by
  cases hc with
  | rests hp => exact h
  | flags hr hp => exact h.modifyRun id fun r => rfl
  | wakes hr hp => exact Stamped.modifyRun h id fun r => rfl
  | @stops r g k₁ hr hg hd hs =>
    have h₁ := hs.stamped h
    have hr₁ : k₁.runs[id]? = some r := by
      obtain ⟨loads, ts, rfl, -, -⟩ := hs
      exact hr
    exact h₁.wait id ((h₁.points r (List.mem_of_getElem? hr₁)).withGroup hg rfl)

theorem Cancels.stamped {k k' : Keeper} (hc : Cancels k k') (h : k.Stamped) : k'.Stamped :=
  hc.induction (fun _ _ _ hk hcan => hcan.stamped hk) h

theorem notify_stamped {k : Keeper} (h : k.Stamped) (p : Path) (c : Change) :
    (k.notify p c).Stamped := by
  unfold notify
  split
  · exact h
  · exact ((cancelTimer_cancels { k with pending := k.pending.set p c }).stamped h).start
      .delayedRefresh

theorem dispose_stamped {k : Keeper} (h : k.Stamped) : k.dispose.Stamped := by
  obtain ⟨k₁, k₂, provider, connected, changed, h₁, h₂, -, he⟩ := dispose_eq k
  have hs₁ : k₁.Stamped := h₁.stamped h.unwantedRuns
  have hs₂ : k₂.Stamped := h₂.stamped hs₁
  rw [he]
  exact hs₂

theorem switchMode_stamped {k : Keeper} (h : k.Stamped) (mode : MatchMode) :
    (k.switchMode mode).1.Stamped := by
  obtain ⟨c, told, fault, hr, he⟩ | ⟨fault, hr, he⟩ := switchMode_eq k mode
  · rw [he]
    exact h.setCatalog (Catalog.rematch_stamped h.catalog hr)
  · rw [he]
    exact h

theorem settingsChanged_stamped {k : Keeper} (h : k.Stamped) : k.settingsChanged.1.Stamped := by
  unfold settingsChanged
  dsimp only
  split
  · unfold spawnRebuild
    split
    · exact Stamped.start (k := { k with settings := _, matcher := _, subscriptions := _ }) h
        .rebuild
    · exact h
  · split
    · exact switchMode_stamped (k := { k with settings := k.provider.settings }) h _
    · exact h

theorem changeSettings_stamped {k : Keeper} (h : k.Stamped) (changes : List (Text × Value)) :
    (k.changeSettings changes).1.Stamped := by
  unfold changeSettings
  split
  · exact h
  · exact h
  · rename_i provider hu
    have hcall := callAll_induction (P := Stamped) (fun () k => k.settingsChanged)
      (fun _ k' hk => settingsChanged_stamped hk) provider.changed.listeners { k with provider } h
    split
    · rename_i k' hc
      rw [hc] at hcall
      exact hcall
    · rename_i k' fault hc
      rw [hc] at hcall
      exact hcall

/-! ## Courses -/

theorem next_stamped {k : Keeper} {m : Move} (h : k.Stamped) (hm : ∀ w, m = .edit w → w.Stamps) :
    (k.next m).Stamped := by
  have h' := next_moves k m
  generalize k.next m = k' at h' ⊢
  cases h' with
  | @starts _ job => exact h.start job
  | notify p c => exact notify_stamped h p c
  | switchMode mode => exact switchMode_stamped h mode
  | changeSettings changes => exact changeSettings_stamped h changes
  | dispose => exact dispose_stamped h
  | run hready hr hrun => exact (hrun.takes hr).stamped h
  | works _ _ htake => exact htake.stamped h
  | edit w => exact ⟨hm w rfl, h.catalog, h.loaded, h.points⟩
  | listen | waits => exact h

theorem new_stamped {w : Workspace} (hw : w.Stamps) (provider : Provider Unit) (groupSize : Nat)
    (limit : Int) (delay : Nat) (watchable : Bool) :
    (new w provider groupSize limit delay watchable).Stamped := by
  refine ⟨hw, Catalog.empty_stamped, ?_, ?_⟩
  · intro l hl
    cases hl
  · intro r hr
    cases hr

theorem inMemory_stamps (files : List (Path × Text)) : (inMemory files).Stamps := by
  intro p t f h
  cases h
  exact ⟨rfl, by simp [Feature.steps]⟩

end Keeper
end StepAtlas
