import Mathlib.Data.List.NodupEquivFin
import StepAtlas.Proofs.Keeper.History
import StepAtlas.Proofs.Keeper.Watching

/-
The end of a keeper.  It can come at any time: while runs wait for the lock, for a search, for their
files or for the clock.  Each of them finds out at a turn of its own, so what the end means is said
about all moves after it.

`Hushed` holds after every end: runs leave the catalog alone and return that they did, no listener
is called, nothing is pending and nothing is watched.  `Detached` says that the keeper has no
connection to the settings any more, and that a change of them leaves the catalog alone.  This fails
in one way: a start-up that is called before the end and has its first turn after it connects all
the same.
-/

namespace StepAtlas

def Move.isStartUp : Move → Bool
  | .startUp => true
  | _ => false

def Run.startsUp (r : Run) : Bool := r.opens && decide (r.job = .startUp)

namespace Keeper

/-- The connection of a keeper to the settings: who listens to their changes, and whether the keeper
can take back its last connection. -/
structure Link where
  changed : Signal Unit
  connected : Bool

def link (k : Keeper) : Link := { changed := k.provider.changed, connected := k.connected }

def jobs (k : Keeper) : List Job := k.runs.map Run.job

/-! ## Silence -/

/-- In a keeper that has ended nobody listens, nothing is pending and nothing is watched. -/
structure SilentParts (disposed : Bool) (changed : Signal Listener) (pending : PathMap Change)
    (watches : List Watch) : Prop where
  disposed : disposed = true
  changed : changed = { listeners := [], disposed := true }
  pending : pending = .empty
  watches : watches = []

def Silent (k : Keeper) : Prop := SilentParts k.disposed k.changed k.pending k.watches

namespace Silent
variable {k : Keeper}

theorem setUpWatches (h : k.Silent) : k.setUpWatches.Silent := by
  refine ⟨h.disposed, h.changed, h.pending, ?_⟩
  simp only [Keeper.setUpWatches, show k.disposed = true from h.disposed, Bool.not_true,
    Bool.and_false, Bool.false_eq_true, if_false]
  exact Subscriptions.live_release h.watches

theorem finishBuild (h : k.Silent) (id : Nat) (result : Except Stop Bool) :
    (k.finishBuild id result).Silent := by
  unfold Keeper.finishBuild
  cases result with
  | error stop => exact h
  | ok b =>
    dsimp only
    split
    · exact h.setUpWatches
    · exact h

theorem giveUp (h : k.Silent) (id : Nat) (result : Except Stop Bool) :
    (k.giveUp id result).Silent := by
  simp only [Keeper.giveUp, dropCurrent_eq, unlock_eq]
  apply finishBuild
  exact h

theorem leave (h : k.Silent) (id : Nat) (result : Except Stop Bool) :
    (k.leave id result).Silent := by
  rw [leave_eq]
  exact h

theorem publish (h : k.Silent) (id : Nat) (c : Catalog) : (k.publish id c).Silent := by
  simp only [Keeper.publish, dropCurrent_eq, unlock_eq]
  obtain ⟨told, fault, ha⟩ := announce_eq { k with
    current := k.currentWithout id, catalog := c.published, locked := false
    ready := callHead k.ready k.queue }
  rw [ha]
  cases fault with
  | none | some fault =>
    apply finishBuild
    exact h

theorem spawnRebuild (h : k.Silent) : k.spawnRebuild.Silent := by
  unfold Keeper.spawnRebuild
  split
  · exact h
  · exact h

end Silent

section
variable {k k' : Keeper} {id : Nat}

theorem Builds.silent {d : Draft} {goal : Except Fault Catalog} (hb : Builds k id d goal k')
    (h : k.Silent) :
    k'.Silent := by
  cases hb with
  | searches | loads => exact h
  | abandons | fails => exact h.giveUp id _
  | publishes => exact h.publish id _

theorem Enters.silent {job : Job} (he : Enters k id job k') (h : k.Silent) : k'.Silent := by
  cases he with
  | builds hj hb => exact hb.silent h
  | idles =>
    have hempty : Silent { k with pending := .empty } := ⟨h.disposed, h.changed, rfl, h.watches⟩
    exact hempty.leave id _
  | takesOver hj hp hd =>
    rw [show k.disposed = true from h.disposed] at hd
    cases hd

theorem Arrives.silent {r : Run} (ha : Arrives k id r k') (h : k.Silent) : k'.Silent := by
  obtain ⟨_, _, _, _, _, rfl⟩ := ha.eq
  exact h

theorem TakesRun.silent {r : Run} (ht : TakesRun k id r k') (h : k.Silent) : k'.Silent := by
  cases ht with
  | rests | stops | sleeps | quits | yields => exact h
  | queues hc ha => exact ha.silent h
  | enters hc ha hl hq he => exact he.silent (ha.silent h)
  | admitted hp hc he => exact he.silent h
  | resumes hp hc hb | continues hp hc hb => exact hb.silent h
  | givesUp => exact h.giveUp id _
  | leaves => exact h.leave id _
  | breaks hp hc hg hd | applies hp hc hg hd =>
    rw [show k.disposed = true from h.disposed] at hd
    cases hd

end

theorem switchMode_silent {k : Keeper} (h : k.Silent) (mode : MatchMode) :
    (k.switchMode mode).1.Silent := by
  obtain ⟨c, told, fault, -, he⟩ | ⟨fault, -, he⟩ := switchMode_eq k mode
  · rw [he]
    exact h
  · rw [he]
    exact h

theorem settingsChanged_silent {k : Keeper} (h : k.Silent) : k.settingsChanged.1.Silent := by
  unfold settingsChanged
  dsimp only
  split
  · apply Silent.spawnRebuild
    apply Silent.setUpWatches
    exact h
  · split
    · apply switchMode_silent
      exact h
    · exact h

theorem changeSettings_silent {k : Keeper} (h : k.Silent) (changes : List (Text × Value)) :
    (k.changeSettings changes).1.Silent := by
  unfold changeSettings
  split
  · exact h
  · exact h
  · rename_i provider hu
    have hcall := callAll_induction (P := Silent) (fun () k => k.settingsChanged)
      (fun _ _ hk => settingsChanged_silent hk) provider.changed.listeners { k with provider } h
    split
    · rename_i k' hc
      rw [hc] at hcall
      exact hcall
    · rename_i k' fault hc
      rw [hc] at hcall
      exact hcall

structure Aside (k k' : Keeper) : Prop where
  pending : k'.pending = k.pending
  events : k'.events = k.events
  link : k'.link = k.link
  jobs : k'.jobs = k.jobs

theorem jobs_modifyRun (k : Keeper) (id : Nat) {f : Run → Run} (hf : ∀ r, (f r).job = r.job) :
    (k.modifyRun id f).jobs = k.jobs := by
  apply List.ext_getElem?
  intro i
  simp only [jobs, modifyRun, List.getElem?_map, List.getElem?_modify]
  cases k.runs[i]? with
  | none => rfl
  | some r => by_cases hi : id = i <;> simp [hi, hf]

theorem CancelsRun.aside {k k' : Keeper} {id : Nat} (hc : CancelsRun k id k') : Aside k k' := by
  cases hc with
  | rests => exact ⟨rfl, rfl, rfl, rfl⟩
  | flags | wakes => exact ⟨rfl, rfl, rfl, jobs_modifyRun k id fun _ => rfl⟩
  | stops hr hg hd hs =>
    obtain ⟨loads, ts, rfl, -, -⟩ := hs
    exact ⟨rfl, rfl, rfl, jobs_modifyRun k id fun _ => rfl⟩

theorem Cancels.aside {k k' : Keeper} (hc : Cancels k k') : Aside k k' := by
  refine hc.induction (P := Aside k) ?_ ⟨rfl, rfl, rfl, rfl⟩
  intro k₁ id k₂ hk hcan
  have h := hcan.aside
  exact ⟨h.pending.trans hk.pending, h.events.trans hk.events, h.link.trans hk.link,
    h.jobs.trans hk.jobs⟩

theorem dispose_silent {k : Keeper} (h : k.subscriptions.release.live = []) : k.dispose.Silent := by
  obtain ⟨k₁, k₂, provider, connected, changed, h₁, h₂, -, he⟩ := dispose_eq k
  refine ⟨(dispose_current k).2, rfl, ?_, ?_⟩
  · rw [he]
    exact h₂.aside.pending
  · have hs : k.dispose.subscriptions = _ := congrArg Scope.subscriptions (dispose_scope k)
    rw [watches, hs]
    exact h

/-- Whatever happens to it, a keeper that has ended stays silent. -/
theorem next_silent {k : Keeper} (h : k.Silent) (m : Move) : (k.next m).Silent := by
  have hm := next_moves k m
  generalize k.next m = k' at hm ⊢
  cases hm with
  | notify p c =>
    rw [notify, if_pos (show k.disposed = true from h.disposed)]
    exact h
  | switchMode mode => exact switchMode_silent h mode
  | changeSettings changes => exact changeSettings_silent h changes
  | listen l =>
    refine ⟨h.disposed, ?_, h.pending, h.watches⟩
    show k.changed.connect l = _
    rw [show k.changed = _ from h.changed]
    rfl
  | dispose => exact dispose_silent (Subscriptions.live_release h.watches)
  | run hready hr hrun => exact hrun.silent h
  | starts | edit | works | waits => exact h

/-! ## What is left undone -/

/-- Whoever publishes is wanted, and after the end nobody is. -/
theorem Publishes.not_disposed {k : Keeper} {i : Nat} (h : Publishes k i (k.next (.turn (.run i))))
    (hst : k.Standing) :
    k.disposed = false := by
  have hpublished : k.PublishedAt [.turn (.run i)] i 0 := ⟨rfl, h⟩
  exact (next_disposed_eq_false.mp (hpublished.not_disposed hst)).2

/-- A run that has its turn after the end leaves the catalog alone and tells nobody anything. -/
theorem Goes.idle {k : Keeper} {m : Move} {i : Nat} {r : Run} (hg : Goes k m i r)
    (hr : k.runs[i]? = some r) (hd : k.disposed = true) (hst : k.Standing) (hs : RunSuited r) :
    (k.next m).catalog = k.catalog ∧ (k.next m).events = k.events := by
  have ht := hg.takes
  cases hj : r.job.refreshes with
  | false =>
    rcases ht.publishes_or_same hr hj hs with hp | hsame
    · rw [hg.move] at hp
      rw [hp.of_ready.not_disposed hst] at hd
      cases hd
    · exact hsame
  | true =>
    generalize k.next m = k' at ht
    cases ht.writes with
    | nothing hc he => exact ⟨hc, he⟩
    | publishes hdraft =>
      obtain ⟨d, hdraft⟩ := Option.isSome_iff_exists.mp (hdraft hj)
      rw [hs.draft d hdraft] at hj
      cases hj
    | breaks hp hc hgs hlive | applies hp hc hgs hlive =>
      rw [show k.disposed = false from hlive] at hd
      cases hd

/-- A run that applies changes and ends after the end of the keeper returns that it has applied
none, or it raises. -/
theorem TakesRun.ok_false_of_disposed {k k' : Keeper} {id : Nat} {r : Run} (ht : TakesRun k id r k')
    (hr : k.runs[id]? = some r) (hd : k.disposed = true) (hj : r.job.refreshes = true)
    (hs : RunSuited r) (hn : ∀ result, r.point ≠ .finished result) {b : Bool}
    (hb : k'.point? id = some (.finished (.ok b))) :
    b = false := by
  have henters : ∀ {k₀ : Keeper} {s : Run}, Enters k₀ id r.job k' → k₀.runs[id]? = some s →
      k₀.disposed = true → b = false := by
    intro k₀ s he hs₀ hd₀
    cases he with
    | builds hj' => rw [hj] at hj'; cases hj'
    | idles =>
      have hp := point?_leave_self (k := { k₀ with pending := .empty }) hs₀ (.ok false)
      cases eq_of_point?_finished hb hp
      rfl
    | takesOver _ _ hlive => rw [hd₀] at hlive; cases hlive
  have hdraft : ∀ d, r.point.draft? ≠ some d := by
    intro d hd'
    rw [hs.draft d hd'] at hj
    cases hj
  cases ht with
  | rests hp => exact absurd hp (hn _)
  | stops => cases eq_of_point?_finished hb (point?_wait_self hr _)
  | sleeps => cases hb.symm.trans (point?_wait_self (k := { k with ready := _ }) hr _)
  | @queues k₀ hc ha =>
    obtain ⟨superseded, hr₀⟩ := ha.run hr
    cases hb.symm.trans (point?_wait_self (k := { k₀ with queue := _ }) hr₀ _)
  | enters hc ha hl hq he =>
    obtain ⟨superseded, hr₀⟩ := ha.run hr
    exact henters he hr₀ (ha.disposed.trans hd)
  | quits =>
    cases eq_of_point?_finished hb (point?_wait_self (k := { k with queue := _, ready := _ }) hr _)
  | admitted hp hc he => exact henters he hr hd
  | resumes hp | yields hp | continues hp => exact absurd (by rw [hp]; rfl) (hdraft _)
  | givesUp hp => exact absurd hp (hdraft _)
  | leaves hp hl =>
    have hresult := eq_of_point?_finished hb (point?_leave_self hr _)
    cases hl with
    | canceled | stopped => cases hresult
    | disposed =>
      cases hresult
      rfl
  | breaks hp hc hg hlive | applies hp hc hg hlive => rw [hd] at hlive; cases hlive

theorem Silent.announce_eq {k : Keeper} (h : k.Silent) : k.announce = (k, none) := by
  rw [announce, show k.changed = _ from h.changed]
  rfl

theorem switchMode_events {k : Keeper} (h : k.Silent) (mode : MatchMode) :
    (k.switchMode mode).1.events = k.events := by
  unfold switchMode
  dsimp only
  cases k.catalog.rematch (k.matcher.inMode mode) with
  | error fault => rfl
  | ok c =>
    dsimp only
    rw [Silent.announce_eq (k := { k with matcher := k.matcher.inMode mode, catalog := c }) h]

theorem settingsChanged_events {k : Keeper} (h : k.Silent) :
    k.settingsChanged.1.events = k.events := by
  unfold settingsChanged
  dsimp only
  split
  · unfold spawnRebuild
    split
    · rfl
    · rfl
  · split
    · exact switchMode_events (k := { k with settings := k.provider.settings }) h _
    · rfl

theorem changeSettings_events {k : Keeper} (h : k.Silent) (changes : List (Text × Value)) :
    (k.changeSettings changes).1.events = k.events := by
  unfold changeSettings
  split
  · rfl
  · rfl
  · rename_i provider hu
    have hcall :=
      callAll_induction (P := fun k' => k'.Silent ∧ k'.events = k.events)
        (fun () k => k.settingsChanged)
      (fun _ _ hk => ⟨settingsChanged_silent hk.1, (settingsChanged_events hk.1).trans hk.2⟩)
      provider.changed.listeners { k with provider } ⟨h, rfl⟩
    split
    · rename_i k' hc
      rw [hc] at hcall
      exact hcall.2
    · rename_i k' fault hc
      rw [hc] at hcall
      exact hcall.2

theorem dispose_events (k : Keeper) : k.dispose.events = k.events := by
  obtain ⟨k₁, k₂, provider, connected, changed, h₁, h₂, -, he⟩ := dispose_eq k
  rw [he]
  exact h₂.aside.events.trans h₁.aside.events

/-- Whatever happens after the end, no listener is called. -/
theorem next_events {k : Keeper} (h : k.Silent) (hst : k.Standing) (hs : k.Suited) (m : Move) :
    ∃ es, (k.next m).events = k.events ++ es ∧ ∀ l, Event.called l ∉ es := by
  have hsame : (k.next m).events = k.events →
      ∃ es, (k.next m).events = k.events ++ es ∧ ∀ l, Event.called l ∉ es :=
    fun he => ⟨[], by rw [he, List.append_nil], by simp⟩
  have hm := next_moves k m
  generalize hk' : k.next m = k' at hm hsame ⊢
  cases hm with
  | notify p c =>
    apply hsame
    rw [notify, if_pos (show k.disposed = true from h.disposed)]
  | switchMode mode => exact hsame (switchMode_events h mode)
  | changeSettings changes => exact hsame (changeSettings_events h changes)
  | dispose => exact hsame (dispose_events k)
  | @run i r _ hready hr hrun =>
    exact hsame (hk' ▸ ((goes_of_ready hr hready).idle hr h.disposed hst (hs i r hr)).2)
  | works ht hes => exact ⟨_, rfl, hes⟩
  | starts | listen | edit | waits => exact hsame rfl

/-- After the end only a switch of the mode or a change of the settings may change the catalog. -/
theorem next_catalog_of_silent {k : Keeper} (h : k.Silent) (hst : k.Standing) (hs : k.Suited)
    {m : Move} (hm : ∀ mode, m ≠ .switchMode mode) (hm' : ∀ changes, m ≠ .changeSettings changes) :
    (k.next m).catalog = k.catalog := by
  have hd : k.disposed ≠ false := by simp [show k.disposed = true from h.disposed]
  have ha := next_alters hs m
  generalize hk' : k.next m = k' at ha ⊢
  cases ha with
  | keeps hc => exact congrArg Content.catalog hc
  | edits => rfl
  | switches mode => exact absurd rfl (hm mode)
  | resets changes => exact absurd rfl (hm' changes)
  | publishes hp => exact absurd (Publishes.not_disposed (hk'.symm ▸ hp) hst) hd
  | applies ha => exact absurd ha.disposed hd

/-- A building run that ends after the end of the keeper returns that it has published nothing, or
it raises. -/
theorem Goes.ok_false_of_disposed {k : Keeper} {m : Move} {i : Nat} {r : Run} (hg : Goes k m i r)
    (hr : k.runs[i]? = some r) (hd : k.disposed = true) (hst : k.Standing) (hs : RunSuited r)
    (hn : ∀ result, r.point ≠ .finished result) {b : Bool}
    (hb : (k.next m).point? i = some (.finished (.ok b))) :
    b = false := by
  cases hj : r.job.refreshes with
  | true => exact hg.takes.ok_false_of_disposed hr hd hj hs hn hb
  | false =>
    have hresult :=
      hg.result hr hj hs hn (fun hc => isSuperseded_of_hopeless hst (.inl hd) hr hj hn hc hg) hb
    cases hh : k.hindrance? r with
    | some stop => rw [hh] at hresult; cases hresult
    | none => rw [hh] at hresult; cases hresult; rfl

/-! ## The connection to the settings -/

def Link.tie (l : Link) : Link := { changed := l.changed.connect (), connected := true }

def Link.cut (l : Link) : Link :=
  if l.connected then { changed := l.changed.disconnect (), connected := false } else l

theorem link_disconnect (k : Keeper) : k.disconnect.link = k.link.cut := by
  cases hc : k.connected with
  | true | false => simp [disconnect, link, Link.cut, hc]

theorem dispose_link (k : Keeper) : k.dispose.link = k.link.cut := by
  have h₁ := (cancelTimer_cancels { k with disposed := true }.supersedeCurrent).aside.link
  rw [supersedeCurrent_eq] at h₁
  generalize hk₁ : (Option.map _ _).getD _ = k₁ at h₁
  have h₂ :=
    (foldl_cancelRun_cancels { k₁ with timer := none, pending := .empty } k₁.background).aside.link
  generalize hk₂ : List.foldl _ _ _ = k₂ at h₂
  have hd := link_disconnect { k₂ with subscriptions := k₂.subscriptions.release }
  have hlink : { k₂ with subscriptions := k₂.subscriptions.release }.link = k.link := h₂.trans h₁
  rw [hlink] at hd
  rw [← hd]
  simp only [dispose, supersedeCurrent_eq, hk₁, hk₂]
  rfl

section
variable {k k' : Keeper} {id : Nat}

theorem link_giveUp (k : Keeper) (id : Nat) (result : Except Stop Bool) :
    (k.giveUp id result).link = k.link := by
  obtain ⟨subscriptions, he⟩ := giveUp_eq k id result
  rw [he]
  rfl

theorem link_leave (k : Keeper) (id : Nat) (result : Except Stop Bool) :
    (k.leave id result).link = k.link := by
  rw [leave_eq]
  rfl

theorem Builds.link {d : Draft} {goal : Except Fault Catalog} (hb : Builds k id d goal k') :
    k'.link = k.link := by
  cases hb with
  | searches | loads => rfl
  | abandons | fails => exact link_giveUp k id _
  | @publishes c =>
    obtain ⟨told, subscriptions, he⟩ := publish_eq k id c
    rw [he]
    rfl

theorem Enters.link {job : Job} (he : Enters k id job k') : k'.link = k.link := by
  cases he with
  | builds hj hb => exact hb.link
  | idles => exact link_leave _ id _
  | takesOver => rfl

/-- Before the lock is asked for only a start-up connects. -/
theorem Arrives.link {r : Run} (ha : Arrives k id r k') (hc : r.canceled = false) :
    k'.link = if r.startsUp then k.link.tie else k.link := by
  have hother : k'.link = k.link → r.job ≠ .startUp → k'.link = if r.startsUp then k.link.tie
      else k.link := by
    intro hl hj
    simp [hl, Run.startsUp, hj]
  cases ha with
  | rebuild hp hj => exact hother (by rw [supersede_eq]; rfl) (by simp [hj])
  | startUp hp hj =>
    have hs : r.startsUp = true := by
      simp [Run.startsUp, Run.opens_iff.mpr ⟨hp, by rw [hj]; rfl, hc⟩, hj]
    rw [if_pos hs, supersede_eq]
    rfl
  | refresh hp hj => exact hother rfl (by simp [hj])
  | wakes hp =>
    have ho : r.opens = false := Run.opens_eq_false_of_ne (by simp [hp])
    rw [Run.startsUp, ho]
    rfl

/-- The turn of a run touches the connection to the settings only if it is the first one of a
start-up. -/
theorem TakesRun.link {r : Run} (ht : TakesRun k id r k') :
    k'.link = if r.startsUp then k.link.tie else k.link := by
  have hlater : k'.link = k.link → r.opens = false → k'.link = if r.startsUp then k.link.tie
      else k.link := by
    intro hl ho
    simp [hl, Run.startsUp, ho]
  have hne : r.point ≠ .created → r.opens = false := Run.opens_eq_false_of_ne
  cases ht with
  | rests hp => exact hlater rfl (hne (by simp [hp]))
  | stops hp hc =>
    refine hlater rfl (Bool.eq_false_iff.mpr fun ho => ?_)
    rw [(Run.opens_iff.mp ho).2.2] at hc
    cases hc
  | sleeps hp hj hc => simp [Run.startsUp, hj]; rfl
  | queues hc ha => exact ha.link hc
  | enters hc ha hl hq he => exact he.link.trans (ha.link hc)
  | quits hp => exact hlater rfl (hne (by simp [hp]))
  | admitted hp hc he => exact hlater he.link (hne (by simp [hp]))
  | resumes hp hc hb | continues hp hc hb => exact hlater hb.link (hne (by simp [hp]))
  | yields hp => exact hlater rfl (hne (by simp [hp]))
  | givesUp hp =>
    exact hlater (link_giveUp k id _) (hne fun h => by rw [h] at hp; cases hp)
  | leaves hp => exact hlater (link_leave k id _) (hne (by simp [hp]))
  | breaks hp => exact hlater (link_leave _ id _) (hne (by simp [hp]))
  | applies hp => exact hlater rfl (hne (by simp [hp]))

end

theorem switchMode_link (k : Keeper) (mode : MatchMode) : (k.switchMode mode).1.link = k.link := by
  obtain ⟨c, told, fault, -, he⟩ | ⟨fault, -, he⟩ := switchMode_eq k mode
  · rw [he]
    rfl
  · rw [he]
    rfl

theorem settingsChanged_link (k : Keeper) : k.settingsChanged.1.link = k.link := by
  unfold settingsChanged
  dsimp only
  split
  · unfold spawnRebuild
    split
    · rfl
    · rfl
  · split
    · exact switchMode_link _ _
    · rfl

theorem changed_of_update {provider provider' : Provider Unit} {changes : List (Text × Value)}
    {signalled : Bool} (h : provider.update changes = .ok (provider', signalled)) :
    provider'.changed = provider.changed := by
  unfold Provider.update at h
  cases hs : provider.settings.change changes with
  | error fault => rw [hs] at h; cases h
  | ok settings =>
    rw [hs] at h
    change Except.ok (provider.take settings) = _ at h
    unfold Provider.take at h
    split at h
    · cases h
      rfl
    · cases h
      rfl

theorem changeSettings_link (k : Keeper) (changes : List (Text × Value)) :
    (k.changeSettings changes).1.link = k.link := by
  have hset : ∀ {provider : Provider Unit} {signalled : Bool}, k.provider.update changes =
      .ok (provider, signalled) → { k with provider }.link = k.link := by
    intro provider signalled hu
    simp only [link, changed_of_update hu]
  unfold changeSettings
  split
  · rfl
  · rename_i hu
    exact hset hu
  · rename_i provider hu
    have hcall :=
      callAll_induction (P := fun k' => k'.link = k.link) (fun () k => k.settingsChanged)
        (fun _ k' hk => (settingsChanged_link k').trans hk) provider.changed.listeners
        { k with provider } (hset hu)
    split
    · rename_i k' hc
      rw [hc] at hcall
      exact hcall
    · rename_i k' fault hc
      rw [hc] at hcall
      exact hcall

def StartsUp (k : Keeper) (m : Move) : Prop :=
  ∃ i r, k.opening? m = some i ∧ k.runs[i]? = some r ∧ r.job = .startUp

theorem next_link_of_startsUp {k : Keeper} {m : Move} (h : k.StartsUp m) :
    (k.next m).link = k.link.tie := by
  obtain ⟨i, r, hc, hr, hj⟩ := h
  obtain ⟨s, rfl, hready, hs, ho⟩ := opening?_eq_some_iff.mp hc
  rw [hr] at hs
  cases hs
  have hl := (goes_of_ready hr hready).takes.link
  rw [if_pos (by simp [Run.startsUp, ho, hj])] at hl
  exact hl

/-- Other than by the first turn of a start-up and by the end, the connection is not touched. -/
theorem next_link {k : Keeper} {m : Move} (hm : ¬ k.StartsUp m) (hd : m ≠ .dispose) :
    (k.next m).link = k.link := by
  have h := next_moves k m
  generalize k.next m = k' at h ⊢
  cases h with
  | dispose => exact absurd rfl hd
  | notify p c =>
    unfold notify
    split
    · rfl
    · exact (cancelTimer_cancels { k with pending := k.pending.set p c }).aside.link
  | switchMode mode => exact switchMode_link k mode
  | changeSettings changes => exact changeSettings_link k changes
  | @run i r _ hready hr hrun =>
    have hs : r.startsUp = false := by
      by_contra hs
      obtain ⟨ho, hj⟩ : r.opens = true ∧ r.job = .startUp := by simpa [Run.startsUp] using hs
      exact hm ⟨i, r, by rw [opening?_turn hr hready, if_pos ho], hr, hj⟩
    have hl := hrun.link
    rw [hs] at hl
    exact hl
  | starts | listen | edit | works | waits => rfl

/-! ## Start-ups -/

theorem jobs_start (k : Keeper) (job : Job) : (k.start job).1.jobs = k.jobs ++ [job] := by
  simp [jobs, start_eq, newRun]

theorem dispose_jobs (k : Keeper) : k.dispose.jobs = k.jobs := by
  obtain ⟨k₁, k₂, provider, connected, changed, h₁, h₂, -, he⟩ := dispose_eq k
  have hjobs : ({ k with disposed := true, runs := k.unwantedRuns } : Keeper).jobs = k.jobs := by
    apply List.ext_getElem?
    intro i
    simp only [jobs, unwantedRuns, List.getElem?_map, List.getElem?_mapIdx, Option.map_map]
    rfl
  rw [he]
  exact h₂.aside.jobs.trans (h₁.aside.jobs.trans hjobs)

theorem TakesRun.jobs {k k' : Keeper} {id : Nat} {r : Run} (ht : TakesRun k id r k') :
    k'.jobs = k.jobs := by
  have hlen : k'.runs.length = k.runs.length := ht.frame.length
  apply List.ext_getElem?
  intro i
  simp only [Keeper.jobs, List.getElem?_map]
  cases hr : k.runs[i]? with
  | none =>
    rw [List.getElem?_eq_none_iff, ← hlen, ← List.getElem?_eq_none_iff] at hr
    rw [hr]
  | some s =>
    obtain ⟨p, superseded, hr', -⟩ := ht.frame.runs i s hr
    rw [show k'.runs[i]? = _ from hr']
    rfl

theorem Reconfigures.count_startUp {k k' : Keeper} (hc : Reconfigures k k') :
    k'.jobs.count .startUp = k.jobs.count .startUp := by
  induction hc with
  | sets => rfl
  | starts k background =>
    show (k.start .rebuild).1.jobs.count .startUp = _
    simp [jobs_start]
  | trans _ _ ih ih' => exact ih'.trans ih

/-- There are as many start-ups as were asked for. -/
theorem next_count_startUp (k : Keeper) (m : Move) :
    (k.next m).jobs.count .startUp = k.jobs.count .startUp + if m.isStartUp then 1 else 0 := by
  have h := next_moves k m
  generalize k.next m = k' at h ⊢
  cases h with
  | @starts m job hm =>
    rw [jobs_start, List.count_append]
    cases m <;> cases hm <;> rfl
  | notify p c =>
    unfold notify
    split
    · rfl
    · have h := (cancelTimer_cancels { k with pending := k.pending.set p c }).aside.jobs
      dsimp only
      generalize (Option.map _ _).getD _ = k₁ at h ⊢
      show (k₁.start .delayedRefresh).1.jobs.count .startUp = _
      rw [jobs_start, h]
      simp [jobs, Move.isStartUp]
  | switchMode mode => exact (switchMode_reconfigures k mode).count_startUp
  | changeSettings changes => exact (changeSettings_reconfigures k changes).count_startUp
  | dispose => exact congrArg _ (dispose_jobs k)
  | listen | edit => rfl
  | run hready hr hrun => exact congrArg _ hrun.jobs
  | @works t runs loads ready es ht hes htake =>
    generalize { k with runs, loads, ready, events := k.events ++ es } = k' at htake ⊢
    cases htake with
    | run => exact absurd rfl (ht _)
    | load hl hload => cases hload with
      | rests | waits | ends => rfl
    | report hl hreport => cases hreport with
      | rests => rfl
      | delivers => exact congrArg _ (jobs_modifyRun _ _ fun _ => rfl)
    | alarm | idle => rfl
  | @waits m hm => cases m <;> first | rfl | cases hm

/-- A course in which at most one start-up is asked for has at most one. -/
theorem startUp_unique {k : Keeper} (hk : k.runs = []) {ms : List Move}
    (hms : ms.countP Move.isStartUp ≤ 1) {t i j : Nat} {r s : Run}
    (hr : (k.moment ms t).runs[i]? = some r) (hi : r.job = .startUp)
    (hs : (k.moment ms t).runs[j]? = some s) (hj : s.job = .startUp) : i = j := by
  -- The jobs are counted along the moves.  Two start-ups would be one job twice in the list.
  have hcount : ∀ (ms : List Move) (k : Keeper),
      (k.after ms).jobs.count .startUp = k.jobs.count .startUp + ms.countP Move.isStartUp := by
    intro ms
    induction ms with
    | nil => intro k; rfl
    | cons m ms ih =>
      intro k
      rw [after_cons, ih, next_count_startUp, List.countP_cons, Nat.add_right_comm, Nat.add_assoc]
  have hle : (k.moment ms t).jobs.count .startUp ≤ 1 := by
    rw [moment, hcount, jobs, hk]
    simpa using Nat.le_trans (List.take_sublist t ms).countP_le hms
  have hjob : ∀ {n : Nat} {r : Run}, (k.moment ms t).runs[n]? = some r →
      (k.moment ms t).jobs[n]? = some r.job := by
    intro n r hr
    rw [jobs, List.getElem?_map, hr]
    rfl
  have hone : ∀ {n l : Nat}, n < l → (k.moment ms t).jobs[n]? = some .startUp →
      (k.moment ms t).jobs[l]? ≠ some .startUp := by
    intro n l hnl hn hl
    obtain ⟨hlt, hn⟩ := List.getElem?_eq_some_iff.mp hn
    obtain ⟨hlt', hl⟩ := List.getElem?_eq_some_iff.mp hl
    have htwo : (k.moment ms t).jobs.Duplicate .startUp :=
      List.duplicate_iff_exists_distinct_get.mpr ⟨⟨n, hlt⟩, ⟨l, hlt'⟩, hnl, hn.symm, hl.symm⟩
    exact absurd (List.duplicate_iff_two_le_count.mp htwo) (by omega)
  have hr := hjob hr
  have hs := hjob hs
  rw [hi] at hr
  rw [hj] at hs
  rcases Nat.lt_trichotomy i j with hlt | heq | hgt
  · exact absurd hs (hone hlt hr)
  · exact heq
  · exact absurd hr (hone hgt hs)

/-- At most one connection is there, that of a start-up that has begun, and the keeper can take it
back. -/
structure Linked (k : Keeper) : Prop where
  live : k.link.changed.disposed = false
  listens : k.link.connected = false ∧ k.link.changed.listeners = [] ∨
    k.link.connected = true ∧ k.link.changed.listeners = [()] ∧
      ∃ i r, k.runs[i]? = some r ∧ r.job = .startUp ∧ k.Begun i

theorem Linked.of_link {k k' : Keeper} (h : k.Linked) (hl : k'.link = k.link)
    (hb : ∀ i r, k.runs[i]? = some r → r.job = .startUp → k.Begun i →
      ∃ r', k'.runs[i]? = some r' ∧ r'.job = .startUp ∧ k'.Begun i) : k'.Linked := by
  refine ⟨by rw [hl]; exact h.live, ?_⟩
  rw [hl]
  refine h.listens.imp_right ?_
  rintro ⟨hc, hls, i, r, hr, hj, hbegun⟩
  exact ⟨hc, hls, i, hb i r hr hj hbegun⟩

/-- After the end there is no connection. -/
theorem Linked.cut {k : Keeper} (h : k.Linked) :
    k.link.cut = { changed := .new, connected := false } := by
  have hsignal : ∀ {s : Signal Unit}, s.disposed = false → s.listeners = [] → s = .new := by
    intro s hd hl
    cases s
    cases hd
    cases hl
    rfl
  rcases h.listens with ⟨hc, hl⟩ | ⟨hc, hl, -⟩
  · rw [Link.cut, hc, if_neg (by simp), ← hsignal h.live hl, ← hc]
  · have hcut : (k.link.changed.disconnect ()).listeners = [] := by
      rw [Signal.disconnect, hl]
      rfl
    rw [Link.cut, hc, if_pos rfl, hsignal (s := k.link.changed.disconnect ()) h.live hcut]

/-- With at most one start-up every move keeps to one connection. -/
theorem next_linked {k : Keeper} (h : k.Linked) (m : Move)
    (hone : ∀ (i j : Nat) (r s : Run), k.runs[i]? = some r → r.job = .startUp →
      k.runs[j]? = some s → s.job = .startUp → i = j) :
    (k.next m).Linked := by
  have hkept : ∀ i r, k.runs[i]? = some r → r.job = .startUp → k.Begun i →
      ∃ r', (k.next m).runs[i]? = some r' ∧ r'.job = .startUp ∧ (k.next m).Begun i := by
    intro i r hr hj hb
    obtain ⟨r', hr', hj', -⟩ := next_run hr m
    exact ⟨r', hr', hj'.trans hj, next_begun hb m⟩
  by_cases hs : k.StartsUp m
  · have hl := next_link_of_startsUp hs
    obtain ⟨i, r, hc, hr, hj⟩ := hs
    have hfirst : k.link.changed.listeners = [] := by
      rcases h.listens with ⟨-, hls⟩ | ⟨-, -, j, s, hsj, hjob, hb⟩
      · exact hls
      · cases hone i j r s hr hj hsj hjob
        exact absurd hc (opening?_ne_of_begun hb m)
    obtain ⟨r', hr', hj', -⟩ := next_run hr m
    refine ⟨?_, .inr ⟨?_, ?_, i, r', hr', hj'.trans hj, begun_of_opening hc⟩⟩
    · rw [hl, Link.tie, Signal.connect, h.live]
      rfl
    · rw [hl, Link.tie]
    · rw [hl, Link.tie, Signal.connect, h.live, hfirst]
      rfl
  · by_cases hd : m = .dispose
    · subst hd
      have hl : (k.next .dispose).link = _ := (dispose_link k).trans h.cut
      exact ⟨by rw [hl]; rfl, .inl (by rw [hl]; exact ⟨rfl, rfl⟩)⟩
    · exact h.of_link (next_link hs hd) hkept

/-- Settings that nobody listens to are changed without consequence. -/
theorem changeSettings_catalog {k : Keeper} (h : k.provider.changed.listeners = [])
    (changes : List (Text × Value)) :
    (k.changeSettings changes).1.catalog = k.catalog := by
  unfold changeSettings
  split
  · rfl
  · rfl
  · rename_i provider hu
    have hnone : provider.changed.listeners = [] :=
      (congrArg Signal.listeners (changed_of_update hu)).trans h
    rw [hnone]
    rfl

/-! ## The end in a course -/

/-- After the move at a time, which ends the keeper, runs and calls do nothing any more. -/
structure Hushed (k : Keeper) (ms : List Move) (t : Nat) : Prop where
  /-- Only a switch of the mode or a change of the settings can change the catalog. -/
  catalog : ∀ u m, t < u → ms[u]? = some m → (∀ mode, m ≠ .switchMode mode) →
    (∀ changes, m ≠ .changeSettings changes) →
    (k.moment ms (u + 1)).catalog = (k.moment ms u).catalog
  /-- A run that had not ended before returns that it has changed nothing, if it returns. -/
  returns : ∀ u i b, t < u → (k.moment ms (t + 1)).result? i = none →
    (k.moment ms u).result? i = some (.ok b) → b = false
  listeners : ∀ u, t < u → ∃ es, (k.moment ms u).events = (k.moment ms (t + 1)).events ++ es ∧
    ∀ l, Event.called l ∉ es
  pending : ∀ u, t < u → (k.moment ms u).pending = .empty
  watches : ∀ u, t < u → (k.moment ms u).watches = []

/-- After the move at a time the keeper has no connection to the settings, and changes of them leave
its catalog alone. -/
structure Detached (k : Keeper) (ms : List Move) (t : Nat) : Prop where
  listeners : ∀ u, t < u → (k.moment ms u).provider.changed.listeners = []
  catalog : ∀ u changes, t < u → ms[u]? = some (.changeSettings changes) →
    (k.moment ms (u + 1)).catalog = (k.moment ms u).catalog

section
variable {k : Keeper} {ms : List Move} {t : Nat}

theorem hushed (hst : ∀ u, (k.moment ms u).Standing) (hsuited : ∀ u, (k.moment ms u).Suited)
    (hsound : ∀ u, (k.moment ms u).scope.Sound) (hend : ms[t]? = some .dispose) :
    k.Hushed ms t := by
  have hsilent : ∀ u, t < u → (k.moment ms u).Silent := by
    intro u hu
    refine moment_induction (P := Silent) ?_ (fun _ m _ _ h => next_silent h m) hu
    rw [moment_succ hend]
    exact dispose_silent (congrArg Subscriptions.live (hsound t).tidy.release_eq)
  refine ⟨?_, ?_, ?_, fun u hu => (hsilent u hu).pending, fun u hu => (hsilent u hu).watches⟩
  · intro u m hu hm hmode hchanges
    rw [moment_succ hm]
    exact next_catalog_of_silent (hsilent u hu) (hst u) (hsuited u) hmode hchanges
  · intro u i b hu hnone hsome
    obtain ⟨v, r, hv, -, hr, hn, hm, hg, hresult⟩ := exists_end hnone hu hsome
    rw [moment_succ hm, result?_eq_some_iff] at hresult
    exact hg.ok_false_of_disposed hr (hsilent v hv).disposed (hst v) (hsuited v i r hr) hn hresult
  · intro u hu
    -- The events that come after the end are collected move by move.
    refine (moment_induction (t := t + 1)
      (P := fun k' => ∃ es, k'.events = (k.moment ms (t + 1)).events ++ es ∧
        ∀ l, Event.called l ∉ es) ⟨[], by rw [List.append_nil], by simp⟩ ?_ hu)
    rintro v m hv - ⟨es, he, hes⟩
    obtain ⟨es', he', hes'⟩ := next_events (hsilent v hv) (hst v) (hsuited v) m
    refine ⟨es ++ es', by rw [he', he, List.append_assoc], ?_⟩
    intro l hl
    rcases List.mem_append.mp hl with hl | hl
    · exact hes l hl
    · exact hes' l hl

/-- The connection is gone for good unless a start-up begins after the end. -/
theorem detached_iff (hlinked : ∀ u, (k.moment ms u).Linked) (hend : ms[t]? = some .dispose) :
    k.Detached ms t ↔ ∀ u m, t < u → ms[u]? = some m → ¬ (k.moment ms u).StartsUp m := by
  constructor
  · intro h u m hu hm hs
    have hl := next_link_of_startsUp hs
    rw [← moment_succ hm] at hl
    have hnone : (k.moment ms (u + 1)).link.changed.listeners = [] := h.listeners (u + 1) (by omega)
    rw [hl, Link.tie, Signal.connect, (hlinked u).live] at hnone
    simp at hnone
  · intro h
    have hlink : ∀ u, t < u → (k.moment ms u).link = { changed := .new, connected := false } := by
      intro u hu
      refine moment_induction (P := fun k => k.link = { changed := .new, connected := false }) ?_ ?_
        hu
      · rw [moment_succ hend]
        exact (dispose_link _).trans (hlinked t).cut
      · intro v m hv hm hk
        by_cases hd : m = .dispose
        · subst hd
          exact (dispose_link _).trans (hlinked v).cut
        · exact (next_link (h v m hv hm) hd).trans hk
    have hnone : ∀ u, t < u → (k.moment ms u).provider.changed.listeners = [] :=
      fun u hu => congrArg (fun l => l.changed.listeners) (hlink u hu)
    refine ⟨hnone, ?_⟩
    intro u changes hu hm
    rw [moment_succ hm]
    exact changeSettings_catalog (hnone u hu) changes

end

/-- Once a keeper has ended, at whatever point its runs are, nothing happens any more.  The one way
back is a start-up that begins after the end: it connects to the settings, and a change of them can
then change the catalog. -/
theorem hushed_and_detached_iff (w : Workspace) (machine : Machine) (dir : Path)
    (settings : Settings) (groupSize : Nat) (limit : Int) (delay : Nat) (watchable : Bool)
    {ms : List Move} {t : Nat} (hend : ms[t]? = some .dispose)
    (hone : ms.countP Move.isStartUp ≤ 1) :
    (new w (.new machine dir settings) groupSize limit delay watchable).Hushed ms t ∧
      ((new w (.new machine dir settings) groupSize limit delay watchable).Detached ms t ↔
        ∀ u m, t < u → ms[u]? = some m →
          ¬ ((new w (.new machine dir settings) groupSize limit delay watchable).moment
            ms u).StartsUp m) := by
  have hstanding := new_standing w (.new machine dir settings) groupSize limit delay watchable
  have hsuited := new_suited w (.new machine dir settings) groupSize limit delay watchable
  have hsound := new_scope_sound w (.new machine dir settings) groupSize limit delay watchable
  have hruns : (new w (.new machine dir settings) groupSize limit delay watchable).runs = [] := rfl
  have hlinked : (new w (.new machine dir settings) groupSize limit delay watchable).Linked :=
    ⟨rfl, .inl ⟨rfl, rfl⟩⟩
  generalize new w (.new machine dir settings) groupSize limit delay watchable = k at *
  have hstanding : ∀ u, (k.moment ms u).Standing := fun u =>
    moment_induction (k := k) (t := 0) hstanding (fun _ m _ _ h => next_standing h m)
      (Nat.zero_le u)
  have hsuited : ∀ u, (k.moment ms u).Suited := fun u =>
    moment_induction (k := k) (t := 0) hsuited (fun _ m _ _ h => next_suited h m) (Nat.zero_le u)
  have hsound : ∀ u, (k.moment ms u).scope.Sound := fun u =>
    moment_induction (P := fun k => k.scope.Sound) (t := 0) hsound
      (fun v m _ _ h => next_scope_sound h (hsuited v) m) (Nat.zero_le u)
  have hlinked : ∀ u, (k.moment ms u).Linked := fun u =>
    moment_induction (k := k) (t := 0) hlinked
      (fun _ m _ _ h => next_linked h m fun _ _ _ _ hr hi hs hj =>
        startUp_unique hruns hone hr hi hs hj)
      (Nat.zero_le u)
  exact ⟨hushed hstanding hsuited hsound hend, detached_iff hlinked hend⟩

/-- The keeper ends while its start-up waits for a file, and then the settings are changed. -/
def interruption : List Move :=
  [.startUp, .turn (.run 0), .turn (.load 0), .dispose, .turn (.report 0), .turn (.run 0),
    .changeSettings [("match_mode", .text "regex")]]

theorem hushed_and_detached_interruption :
    (ofFiles twoFiles).Hushed interruption 3 ∧ (ofFiles twoFiles).Detached interruption 3 ∧
      ((ofFiles twoFiles).moment interruption 4).result? 0 = none ∧
      ((ofFiles twoFiles).moment interruption 7).result? 0 = some (.ok false) := by
  have hend : interruption[3]? = some .dispose := rfl
  have h :=
    hushed_and_detached_iff (inMemory twoFiles) .boundless default shortSettings 20 1000 500 false
      hend (by decide)
  have hopens : ∀ u < 7, 3 < u →
      (interruption[u]?).all (fun m => (((ofFiles twoFiles).moment interruption u).opening?
        m).isNone) = true := by decide +kernel
  refine ⟨h.1, h.2.mpr ?_, by decide +kernel, by decide +kernel⟩
  rintro u m hu hm ⟨i, r, hc, -⟩
  have hnone := hopens u (List.getElem?_eq_some_iff.mp hm).1 hu
  rw [hm] at hnone
  simp [show ((ofFiles twoFiles).moment interruption u).opening? m = some i from hc] at hnone

/-- A start-up is asked for before the end and begins after it, and then the settings are
changed. -/
def belatedStartUp : List Move :=
  [.rebuild, .turn (.run 0), .turn (.load 0), .turn (.report 0), .turn (.run 0), .turn (.run 0),
    .turn (.load 1), .turn (.report 1), .turn (.run 0), .turn (.run 0), .startUp, .dispose,
    .turn (.run 1), .changeSettings [("match_mode", .text "regex")]]

/-- The start-up connects although the keeper has ended, and with the change of the settings a step
that was served is so no longer. -/
theorem belatedStartUp_connects :
    belatedStartUp.countP Move.isStartUp = 1 ∧ belatedStartUp[11]? = some .dispose ∧
      ((ofFiles twoFiles).moment belatedStartUp 12).provider.changed.listeners = [] ∧
      ((ofFiles twoFiles).moment belatedStartUp 13).provider.changed.listeners = [()] ∧
      ((ofFiles twoFiles).moment belatedStartUp 13).catalog.stats.undefinedSteps = 0 ∧
      ((ofFiles twoFiles).moment belatedStartUp 14).catalog.stats.undefinedSteps = 1 :=
  ⟨by decide, rfl, by decide +kernel, by decide +kernel, by decide +kernel, by decide +kernel⟩

end Keeper
end StepAtlas
