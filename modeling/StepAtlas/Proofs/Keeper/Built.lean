import StepAtlas.Proofs.Keeper.Coherence
import StepAtlas.Proofs.Keeper.Loads
import StepAtlas.Proofs.Keeper.Order

/-
The first catalog of a keeper.  As long as the files stay the same, the goal of the draft stays the
same from turn to turn: what a group of loads has brought is what entering its files one after the
other would.  So the catalog that is published shows every file, however the turns of the loads
interleave.
-/

namespace StepAtlas

theorem Catalog.stageAll_append (w : Workspace) (limit : Int) (before : Catalog) (cls : FileClass)
    (c : Catalog) (files rest : List Path) :
    stageAll w limit before cls c (files ++ rest) =
      stageAll w limit before cls c files >>= fun c => stageAll w limit before cls c rest := by
  rw [stageAll, List.foldlM_append]
  rfl

/-- Two catalogs with the same features and definitions. -/
structure Catalog.SameEntries (c c' : Catalog) : Prop where
  features : c'.features = c.features
  definitions : c'.definitions = c.definitions

/-- Of the catalog before, only its entries matter. -/
theorem Catalog.SameEntries.stage {before before' : Catalog} (h : SameEntries before before')
    (c : Catalog) (cls : FileClass) (p : Path) (x : Loaded) :
    c.stage before' cls p x = c.stage before cls p x := by
  cases cls with
  | feature =>
    cases x with
    | oversize => rw [Catalog.stage, Catalog.stage, h.features]
    | _ => rfl
  | definition =>
    cases x with
    | oversize => rw [Catalog.stage, Catalog.stage, h.definitions]
    | _ => rfl

theorem Draft.goal_congr {k k' : Keeper} (hw : k'.workspace = k.workspace)
    (hl : k'.sizeLimit = k.sizeLimit) (he : Catalog.SameEntries k.catalog k'.catalog) (d : Draft) :
    d.goal k' = d.goal k := by
  have hall : ∀ cls c files, Catalog.stageAll k'.workspace k'.sizeLimit k'.catalog cls c files =
      Catalog.stageAll k.workspace k.sizeLimit k.catalog cls c files := by
    intro cls c files
    simp only [Catalog.stageAll, hw, hl, he.stage]
  funext files
  unfold Draft.goal
  simp only [hall]
  rw [hw]

/-- Only the files that are still to come are to be entered. -/
theorem Draft.goal_append {d d' : Draft} {k : Keeper} {files : List Path}
    (h : Catalog.stageAll k.workspace k.sizeLimit k.catalog d.cls d.staged files = .ok d'.staged)
    (hc : d'.cls = d.cls) (hs : d'.settings = d.settings) (rest : List Path) :
    d.goal k (files ++ rest) = d'.goal k rest := by
  unfold Draft.goal
  cases hcls : d.cls with
  | feature =>
    rw [hcls] at hc h
    rw [hc, hs]
    dsimp only
    rw [Catalog.stageAll_append, h]
    rfl
  | definition =>
    rw [hcls] at hc h
    rw [hc]
    dsimp only
    rw [Catalog.stageAll_append, h]
    rfl

namespace Keeper

def hasEnded (k : Keeper) (id : Nat) : Bool :=
  match k.point? id with
  | some (.finished _) => true
  | _ => false

/-- A keeper that was created for a workspace and has built its catalog once, and nothing failed. -/
inductive FreshlyBuilt (w : Workspace) (provider : Provider Unit) (limit : Int) :
    Keeper → Prop where
  | intro (groupSize delay : Nat) (watchable : Bool) {ms : List Move}
      (hq : Quiet Works ((new w provider groupSize limit delay watchable).next .rebuild) ms)
      (he : (((new w provider groupSize limit delay watchable).next .rebuild).after ms).hasEnded 0 =
        true) :
      FreshlyBuilt w provider limit
        (((new w provider groupSize limit delay watchable).next .rebuild).after ms)

/-! ## Entering a group -/

/-- What the loads of a group have brought is what entering their files one after the other
brings. -/
theorem stageAll_enterLoads {k : Keeper} {d : Draft} {g : Group} {files : List Path}
    (hf : List.Forall₂ (k.Brings d.cls) files g.loads) (he : ∀ j ∈ g.loads, Ended k.loads j) :
    Catalog.stageAll k.workspace k.sizeLimit k.catalog d.cls d.staged files =
      .ok (k.enterLoads d g).staged := by
  unfold enterLoads
  dsimp only
  generalize d.staged = c
  generalize g.loads = js at hf he
  induction hf generalizing c with
  | nil => rfl
  | @cons p j files js hb _ ih =>
    obtain ⟨l, hl, hb⟩ := hb
    obtain ⟨l', x, hl', hx⟩ := he j List.mem_cons_self
    rw [hl] at hl'
    cases hl'
    have hloaded : k.loaded j = x := by
      rw [loaded, loadPoint?, hl, Option.map_some, hx]
    have hload : k.workspace.load k.sizeLimit d.cls p = .ok x := hb.brought hx
    rw [Catalog.stageAll, List.foldlM_cons, hload, List.foldl_cons, hl]
    dsimp only
    rw [hb.path, hloaded]
    exact ih _ fun j hj => he j (List.mem_cons_of_mem _ hj)

/-! ## How far the first run is -/

inductive Drafts (k : Keeper) (goal : Except Fault Catalog) : Point → Prop where
  | searching {d : Draft} {found : List Path} {pattern : Text} {rest : List Text}
      (h : (k.workspace.searchOn d.settings.excludeGlobs found (pattern :: rest) >>= d.goal k) =
        goal) :
      Drafts k goal (.searching d found pattern rest)
  | loading {d : Draft} {g : Group} {files rest : List Path} (h : d.goal k (files ++ rest) = goal)
      (hf : List.Forall₂ (k.Brings d.cls) files g.loads) : Drafts k goal (.loading d g rest)
  | yielding {d : Draft} {rest : List Path} (h : d.goal k rest = goal) :
      Drafts k goal (.yielding d rest)

inductive Stage (k : Keeper) (goal : Except Fault Catalog) (p : Point) : Prop where
  | waits (hp : p = .created ∨ p = .queued) (h : k.newGoal = goal)
  | drafts (h : Drafts k goal p)
  | done {result : Except Stop Bool} {c : Catalog} (hp : p = .finished result) (hg : goal = .ok c)
      (h : c.rematch k.matcher = .ok k.catalog)

def builder (p : Point) : Run :=
  { job := .rebuild, point := p, canceled := false, superseded := false }

def Building (k : Keeper) (goal : Except Fault Catalog) : Prop :=
  ∃ p, k.runs = [builder p] ∧ Stage k goal p

theorem eq_builder {k : Keeper} {p : Point} (hruns : k.runs = [builder p]) {id : Nat} {r : Run}
    (hr : k.runs[id]? = some r) : id = 0 ∧ builder p = r := by
  rw [hruns] at hr
  obtain ⟨hlt, rfl⟩ := List.getElem?_eq_some_iff.mp hr
  obtain rfl : id = 0 := Nat.lt_one_iff.mp hlt
  exact ⟨rfl, rfl⟩

theorem runs_wait_singleton {k : Keeper} {r : Run} (hr : k.runs = [r]) (p : Point) :
    (k.wait 0 p).runs = [{ r with point := p }] := by
  simp [wait, modifyRun, hr]

theorem not_calm_giveUp {k : Keeper} {id : Nat} {r : Run} (hr : k.runs[id]? = some r)
    (fault : Fault) :
    ¬ (k.giveUp id (.error (.failed fault))).Calm := by
  obtain ⟨subscriptions, he⟩ := giveUp_eq k id (.error (.failed fault))
  rw [he]
  exact not_calm_of_failed (k := { k with .. }) hr fault

theorem Builds.building {k k' : Keeper} {d : Draft} {goal : Except Fault Catalog}
    (hb : Builds k 0 d goal k') {p : Point} (hruns : k.runs = [builder p]) (hd : d.staged.Stamped)
    (hcalm : k'.Calm) : k'.Building goal := by
  have hr : k.runs[0]? = some (builder p) := by
    rw [hruns]
    rfl
  have hwanted : k.isSuperseded 0 = false := by
    rw [isSuperseded, hr]
    rfl
  cases hb with
  | searches hs hst hg => exact ⟨_, runs_wait_singleton hruns _, .drafts (.searching hg)⟩
  | @loads d' files rest hs hst hg =>
    have hgroup := startLoads_group k 0 (files.map fun p => (p, d'.cls, false))
    rw [List.forall₂_map_left_iff] at hgroup
    refine ⟨_, runs_wait_singleton (k := (k.startLoads 0 (files.map fun p => (p, d'.cls, false))).1)
      hruns _, .drafts (.loading hg (hgroup.imp fun p j hj => ?_))⟩
    exact ⟨_, hj, fun x hx => (by cases hx), rfl, rfl, rfl⟩
  | abandons hw =>
    rw [hwanted] at hw
    cases hw
  | fails hf => exact absurd hcalm (not_calm_giveUp hr _)
  | @publishes c hw hg hre =>
    obtain ⟨told, subscriptions, he⟩ := publish_eq k 0 c
    rw [he, Catalog.published_eq (Catalog.rematch_stamped hd hre)]
    exact ⟨_, runs_wait_singleton (k := { k with .. }) hruns _, .done rfl hg hre⟩

/-- The run that comes to the lock begins its draft. -/
theorem Enters.building {k k' : Keeper} (he : Enters k 0 .rebuild k') {p : Point}
    (hruns : k.runs = [builder p]) {goal : Except Fault Catalog} (hg : k.newGoal = goal)
    (hcalm : k'.Calm) : k'.Building goal := by
  cases he with
  | builds hj hb =>
    rw [hg] at hb
    exact hb.building hruns Catalog.empty_stamped hcalm
  | idles hj hp => cases hj
  | takesOver hj hp hd => cases hj

theorem Stage.draft {k : Keeper} {goal : Except Fault Catalog} {p : Point} (h : Stage k goal p)
    {d : Draft} (hd : p.draft? = some d) : Drafts k goal p := by
  cases h with
  | drafts h => exact h
  | waits hp hg => rcases hp with rfl | rfl <;> cases hd
  | done hp hg hc =>
    rw [hp] at hd
    cases hd

theorem Stage.newGoal {k : Keeper} {goal : Except Fault Catalog} {p : Point} (h : Stage k goal p)
    (hp : p = .created ∨ p = .queued) : k.newGoal = goal := by
  cases h with
  | waits _ hg => exact hg
  | drafts h => rcases hp with rfl | rfl <;> cases h
  | done hf _ _ => rcases hp with rfl | rfl <;> cases hf

theorem Stage.ne_applying {k : Keeper} {goal : Except Fault Catalog} {p : Point}
    (h : Stage k goal p) (changes : PathMap Change) (g : Group) : p ≠ .applying changes g := by
  rintro rfl
  cases h with
  | waits hp hg => rcases hp with hp | hp <;> cases hp
  | drafts h => cases h
  | done hp hg hc => cases hp

/-- A run that asks for the lock is still wanted, and so is its catalog. -/
theorem Arrives.building {k k' : Keeper} {p : Point} (ha : Arrives k 0 (builder p) k')
    (hu : k.Undisturbed) (hruns : k.runs = [builder p]) {goal : Except Fault Catalog}
    (h : Stage k goal p) :
    k'.runs = [builder p] ∧ k'.newGoal = goal := by
  cases ha with
  | rebuild hp hj =>
    have hd : k.disposed = false := hu.disposed
    rw [supersede_eq]
    exact ⟨by simp [supersededRuns, unwantedRuns, hruns, hd, builder], h.newGoal (.inl hp)⟩
  | startUp hp hj => cases hj
  | refresh hp hj => cases hj
  | wakes hp => cases (hu.run 0 (builder p) (by rw [hruns]; rfl)).sleeping _ hp

theorem TakesRun.building {k k' : Keeper} {id : Nat} {r : Run} (ht : TakesRun k id r k')
    (hr : k.runs[id]? = some r) (hu : k.Undisturbed) (hs : k.Sound)
    (hdone : ∀ g, r.point.group? = some g → g.isDone = true) (hreported : k.Reported)
    (hcalm : k'.Calm) {goal : Except Fault Catalog} (hb : k.Building goal) :
    k'.Building goal := by
  obtain ⟨p, hruns, hstage⟩ := hb
  obtain ⟨rfl, rfl⟩ := eq_builder hruns hr
  have hstamped : ∀ d, p.draft? = some d → d.staged.Stamped :=
    fun d hd => (hs.points _ (List.mem_of_getElem? hr)).staged hd
  -- The only run is a rebuild that nobody stops; whatever else a turn can be does not come up.
  cases ht with
  | rests hp => exact ⟨p, hruns, hstage⟩
  | stops hp hc => cases hc
  | sleeps hp hj hc => cases hj
  | queues hc ha hl =>
    obtain ⟨hruns₀, hgoal⟩ := ha.building hu hruns hstage
    exact ⟨_, runs_wait_singleton hruns₀ _, .waits (.inr rfl) hgoal⟩
  | enters hc ha hl hq he =>
    obtain ⟨hruns₀, hgoal⟩ := ha.building hu hruns hstage
    exact he.building hruns₀ hgoal hcalm
  | quits hp hc => cases hc
  | admitted hp hc he => exact he.building hruns (hstage.newGoal (.inr hp)) hcalm
  | @resumes d found pattern rest _ hp hc hb =>
    obtain rfl : p = .searching d found pattern rest := hp
    cases hstage.draft rfl with
    | searching h =>
      rw [h] at hb
      exact hb.building hruns (hstamped d rfl) hcalm
  | @yields d g rest hp hc hg hsup =>
    obtain rfl : p = .loading d g rest := hp
    have hended : ∀ j ∈ g.loads, Ended k.loads j :=
      fun j hj => hreported.ended (point?_of_run hr) rfl hg (hdone g rfl) hj
    cases hstage.draft rfl with
    | loading h hf =>
      have hgoal : (k.enterLoads d g).goal k rest = goal :=
        (Draft.goal_append (stageAll_enterLoads hf hended) rfl rfl rest).symm.trans h
      exact ⟨_, runs_wait_singleton (k := { k with ready := _ }) hruns _, .drafts (.yielding hgoal)⟩
  | @continues d rest _ hp hc hb =>
    obtain rfl : p = .yielding d rest := hp
    cases hstage.draft rfl with
    | yielding h =>
      rw [h] at hb
      exact hb.building hruns (hstamped d rfl) hcalm
  | givesUp hp hg =>
    cases hg with
    | canceled hc => cases hc
    | @stopped g stop hgr hstop =>
      cases stop with
      | failed fault => exact absurd hcalm (not_calm_giveUp hr fault)
      | canceled => exact absurd hstop ((hu.run 0 _ hr).group g hgr).2
    | superseded hsup =>
      rw [isSuperseded, hr] at hsup
      cases hsup
  | leaves hp hl => exact absurd hp (hstage.ne_applying _ _)
  | breaks hp hc hg hd hre => exact absurd hp (hstage.ne_applying _ _)
  | applies hp hc hg hd hre => exact absurd hp (hstage.ne_applying _ _)

theorem Drafts.keep {k k' : Keeper} {goal : Except Fault Catalog} {p : Point} (h : Drafts k goal p)
    (hw : k'.workspace = k.workspace) (hl : k'.sizeLimit = k.sizeLimit)
    (he : Catalog.SameEntries k.catalog k'.catalog)
    (hbrings : ∀ cls q j, k.Brings cls q j → k'.Brings cls q j) :
    Drafts k' goal p := by
  have hgoal := Draft.goal_congr hw hl he
  cases h with
  | @searching d _ _ _ h => exact .searching (by rw [hw, hgoal d]; exact h)
  | @loading d _ files _ h hf =>
    exact .loading (by rw [hgoal d]; exact h) (hf.imp fun q j => hbrings d.cls q j)
  | @yielding d _ h => exact .yielding (by rw [hgoal d]; exact h)

theorem newGoal_congr {k k' : Keeper} (hsite : k'.site = k.site)
    (he : Catalog.SameEntries k.catalog k'.catalog) :
    k'.newGoal = k.newGoal := by
  have hw : k'.workspace = k.workspace := congrArg Site.workspace hsite
  have hl : k'.sizeLimit = k.sizeLimit := congrArg Site.sizeLimit hsite
  have hset : k'.settings = k.settings := congrArg Site.settings hsite
  unfold newGoal newDraft
  rw [hw, hset, Draft.goal_congr hw hl he]

theorem Stage.keep {k k' : Keeper} {goal : Except Fault Catalog} {p : Point} (h : Stage k goal p)
    (hsite : k'.site = k.site) (hcatalog : k'.catalog = k.catalog) (hmode : k'.matcher = k.matcher)
    (hbrings : ∀ cls q j, k.Brings cls q j → k'.Brings cls q j) : Stage k' goal p := by
  have he : Catalog.SameEntries k.catalog k'.catalog := by rw [hcatalog]; exact ⟨rfl, rfl⟩
  cases h with
  | waits hp hg => exact .waits hp ((newGoal_congr hsite he).trans hg)
  | drafts h =>
    exact .drafts (h.keep (congrArg Site.workspace hsite) (congrArg Site.sizeLimit hsite) he
      hbrings)
  | done hp hg hre => exact .done hp hg (by rw [hmode, hcatalog]; exact hre)

theorem Building.keep {k k' : Keeper} {goal : Except Fault Catalog} (hb : k.Building goal)
    (hruns : k'.runs = k.runs) (hsite : k'.site = k.site) (hcatalog : k'.catalog = k.catalog)
    (hmode : k'.matcher = k.matcher) (hbrings : ∀ cls q j, k.Brings cls q j → k'.Brings cls q j) :
    k'.Building goal := by
  obtain ⟨p, hp, hstage⟩ := hb
  exact ⟨p, hruns.trans hp, hstage.keep hsite hcatalog hmode hbrings⟩

theorem TakesReport.building {k k' : Keeper} {id : Nat} {l : Load} (ht : TakesReport k id l k')
    {goal : Except Fault Catalog} (hb : k.Building goal) : k'.Building goal := by
  cases ht with
  | rests => exact hb
  | @delivers r g result hl hr hg hd ha =>
    obtain ⟨p, hruns, hstage⟩ := hb
    obtain ⟨howner, rfl⟩ := eq_builder hruns hr
    rw [howner] at hr ⊢
    refine ⟨_, runs_wait_singleton (k := { k with ready := _ }) hruns _, ?_⟩
    refine Stage.keep (k := k) ?_ rfl rfl rfl fun _ _ _ h => h
    cases hstage with
    | waits hp hgoal => rcases hp with rfl | rfl <;> cases hg
    | drafts h =>
      cases h with
      | searching h => cases hg
      | loading h hf =>
        cases hg
        exact .drafts (.loading h (by rw [Group.loads_report]; exact hf))
      | yielding h => cases hg
    | done hp hgoal hre =>
      subst hp
      cases hg

theorem next_building {k : Keeper} (ho : k.Orderly) (hu : k.Undisturbed) (hs : k.Sound)
    (hreported : k.Reported) {m : Move} (hm : Works k m) (hcalm : (k.next m).Calm)
    {goal : Except Fault Catalog} (hb : k.Building goal) :
    (k.next m).Building goal := by
  have hinf : Informs (fun _ => .feature) k m := hm.informs
  obtain ⟨w, rfl, -⟩ | ⟨-, hsite, hmode⟩ := next_site hu hinf
  · exact hm.elim
  have hbrings : ∀ cls q j, k.Brings cls q j → (k.next m).Brings cls q j :=
    fun cls q j => next_brings hu hinf.ne_dispose (by rw [hsite])
  have h := next_moves k m
  generalize k.next m = k' at h hcalm hsite hmode hbrings ⊢
  cases h with
  | @run id r _ hmem hr hrun =>
    have hb' : { k with ready := k.ready.erase (.run id) }.Building goal :=
      hb.keep rfl rfl rfl rfl fun _ _ _ h => h
    exact hrun.building hr hu hs (fun g hg => ho.awaits id r g hr hg hmem) hreported hcalm hb'
  | @works t runs loads ready es ht hes htake =>
    have hb' : { k with ready := k.ready.erase t }.Building goal :=
      hb.keep rfl rfl rfl rfl fun _ _ _ h => h
    generalize { k with runs, loads, ready, events := k.events ++ es } = k'
      at htake hcalm hsite hmode hbrings ⊢
    cases htake with
    | run => exact absurd rfl (ht _)
    | load hl hload => exact hb.keep hload.pending.2.2 hsite hload.catalog hmode hbrings
    | report hl hreport => exact hreport.building hb'
    | alarm hr hp => exact hb'.keep rfl rfl rfl rfl fun _ _ _ h => h
    | idle => exact hb'
  | listen | waits => exact hb.keep rfl rfl rfl rfl fun _ _ _ h => h
  | @starts m job hj => cases m <;> first | exact hm.elim | cases hj
  | notify | switchMode | changeSettings | dispose | edit => exact hm.elim

/-! ## The first catalog -/

/-- What is known of a keeper at any time, if it is not ended and nothing has failed. -/
structure Healthy (k : Keeper) : Prop where
  orderly : k.Orderly
  undisturbed : k.Undisturbed
  sound : k.Sound
  reported : k.Reported

theorem Informs.keepsFiles {cls : Path → FileClass} {k : Keeper} {m : Move} (hm : Informs cls k m) :
    KeepsFiles k m := by
  cases m with
  | edit w => exact hm.1
  | changeSettings changes => exact hm.elim
  | _ => trivial

theorem next_healthy {cls : Path → FileClass} {k : Keeper} (h : k.Healthy) {m : Move}
    (hm : Informs cls k m) (hraise : (k.perform m).2 = none) (hcalm : (k.next m).Calm) :
    (k.next m).Healthy where
  orderly := next_orderly h.orderly m
  undisturbed := next_undisturbed h.undisturbed hm.ne_dispose
  sound := next_sound h.sound hm.keepsFiles hraise hcalm
  reported := next_reported h.undisturbed h.reported hm.ne_dispose

theorem new_next_rebuild_healthy {w : Workspace} (hw : w.Stamps) (provider : Provider Unit)
    (groupSize : Nat) (limit : Int) (delay : Nat) (watchable : Bool) :
    ((new w provider groupSize limit delay watchable).next .rebuild).Healthy where
  orderly := (new_orderly w provider groupSize limit delay watchable).start .rebuild
  undisturbed := (new_undisturbed w provider groupSize limit delay watchable).start (by simp)
  sound := (new_sound hw provider groupSize limit delay watchable).start .rebuild
  reported := by
    intro i p g hp hg
    rcases point?_start (new w provider groupSize limit delay watchable) .rebuild i with he
      | ⟨-, he⟩
    · have hnone : (new w provider groupSize limit delay watchable).point? i = some p :=
        he.symm.trans hp
      cases hnone
    · have hcreated : some Point.created = some p := he.symm.trans hp
      cases hcreated
      cases hg

structure First (s : Site) (matcher : Matcher) (goal : Except Fault Catalog) (k : Keeper) :
    Prop where
  healthy : k.Healthy
  building : k.Building goal
  site : k.site = s
  matcher : k.matcher = matcher
  pending : k.pending = .empty

theorem First.next {s : Site} {matcher : Matcher} {goal : Except Fault Catalog} {k : Keeper}
    (h : First s matcher goal k) {m : Move} (hm : Works k m) (hraise : (k.perform m).2 = none)
    (hcalm : (k.next m).Calm) :
    First s matcher goal (k.next m) := by
  have hinf : Informs (fun _ => .feature) k m := hm.informs
  have hu := h.healthy.undisturbed
  obtain ⟨w, rfl, -⟩ | ⟨-, hsite, hmode⟩ := next_site hu hinf
  · exact hm.elim
  · refine ⟨next_healthy h.healthy hinf hraise hcalm,
      next_building h.healthy.orderly hu h.healthy.sound h.healthy.reported hm hcalm h.building,
      hsite.trans h.site, hmode.trans h.matcher, ?_⟩
    rcases next_pending hu hinf.ne_dispose with ⟨p, c, rfl, -⟩ | ⟨-, he⟩ | ⟨id, g, rfl, hover⟩
    · exact hm.elim
    · exact he.trans h.pending
    · exact absurd (by rw [h.pending]; rfl) hover.nonempty

/-- The files that a fresh keeper has entered are all there are. -/
theorem shows_of_newGoal {k : Keeper} (hk : k.catalog = .empty) {c : Catalog}
    (h : k.newGoal = .ok c) (p : Path) :
    c.Shows k.site p := by
  rw [newGoal, bind_eq_ok_iff] at h
  obtain ⟨features, hf, h⟩ := h
  have h' :
      (Catalog.stageAll k.workspace k.sizeLimit k.catalog .feature .empty features >>= fun c =>
        k.workspace.search k.settings.excludeGlobs k.settings.definitionGlobs >>= fun files =>
          Catalog.stageAll k.workspace k.sizeLimit k.catalog .definition c files) = .ok c := h
  rw [bind_eq_ok_iff] at h'
  obtain ⟨c₁, h₁, h'⟩ := h'
  rw [bind_eq_ok_iff] at h'
  obtain ⟨definitions, hd, h₂⟩ := h'
  rw [hk] at h₁ h₂
  exact Catalog.stageAll_shows (s := k.site) hf h₁ hd h₂ p

/-- What is known of a keeper that has built its first catalog: it shows every file. -/
structure UpToDate (s : Site) (matcher : Matcher) (k : Keeper) : Prop where
  healthy : k.Healthy
  site : k.site = s
  matcher : k.matcher = matcher
  pending : k.pending = .empty
  ended : ∀ r ∈ k.runs, ∃ result, r.point = .finished result
  shows : ∀ p, k.catalog.Shows k.site p

theorem FreshlyBuilt.upToDate {w : Workspace} {provider : Provider Unit} {limit : Int} {k : Keeper}
    (hb : FreshlyBuilt w provider limit k) (hw : w.Stamps) :
    UpToDate { workspace := w, settings := provider.settings, sizeLimit := limit } provider.matcher
      k := by
  obtain ⟨groupSize, delay, watchable, hq, he⟩ := hb
  have h₀ : First { workspace := w, settings := provider.settings, sizeLimit := limit }
      provider.matcher
      (new w provider groupSize limit delay watchable).newGoal
      ((new w provider groupSize limit delay watchable).next .rebuild) :=
    ⟨new_next_rebuild_healthy hw provider groupSize limit delay watchable,
      ⟨.created, rfl, .waits (.inl rfl) rfl⟩, rfl, rfl, rfl⟩
  have h := hq.induction (fun _ _ hk hm hraise hcalm => First.next hk hm hraise hcalm) h₀
  generalize ((new w provider groupSize limit delay watchable).next .rebuild).after _ = k at h he
  obtain ⟨p, hruns, hstage⟩ := h.building
  have hp : k.point? 0 = some p := by
    rw [point?, hruns]
    rfl
  rw [hasEnded, hp] at he
  cases hstage with
  | waits hpt _ => rcases hpt with rfl | rfl <;> cases he
  | drafts hd => cases hd <;> cases he
  | @done result c hpt hgoal hre =>
    refine ⟨h.healthy, h.site, h.matcher, h.pending, ?_, ?_⟩
    · intro r hr
      rw [hruns, List.mem_singleton] at hr
      rw [hr]
      exact ⟨result, hpt⟩
    · intro q cls x
      have hc :=
        shows_of_newGoal (k := new w provider groupSize limit delay watchable) rfl hgoal q cls x
      obtain ⟨hf, hd⟩ := Catalog.features_of_rematch hre
      rw [Catalog.listed?_congr hf hd, h.site]
      exact hc

end Keeper
end StepAtlas
