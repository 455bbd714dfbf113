import StepAtlas.Proofs.Keeper.Built

/-
Following the changes of files is as good as building the catalog anew.

Of each file, what is told last is the case.  It is pending, or a run applies it, or it was applied
and the catalog shows the file: `Told` says this of one file, and it is kept until the file changes
again.  When all changes have been told and a refresh that began after that has ended, nothing is
pending and nothing is being applied.  So the catalog shows every file, as one that was built from
scratch does.
-/

namespace StepAtlas

def Point.work? : Point → Option (PathMap Change × List Nat)
  | .applying changes g => some (changes, g.loads)
  | _ => none

theorem Point.work?_of_holds {p : Point} (h : p.holds = false) : p.work? = none := by
  cases p with
  | applying => cases h
  | _ => rfl

theorem Point.work?_withGroup {p : Point} {g g' : Group} (hg : p.group? = some g)
    (hl : g'.loads = g.loads) :
    (p.withGroup g').work? = p.work? := by
  cases p with
  | applying changes g₀ =>
    cases hg
    rw [withGroup, work?, work?, hl]
  | _ => rfl

theorem Point.draft?_withGroup (p : Point) (g : Group) : (p.withGroup g).draft? = p.draft? := by
  cases p with
  | _ => rfl

/-- A run that applies changes, or has ended. -/
def Run.Refreshes (r : Run) : Prop :=
  (r.job.refreshes = true ∧ r.point.draft? = none) ∨ ∃ result, r.point = .finished result

namespace Keeper

def work? (k : Keeper) (i : Nat) : Option (PathMap Change × List Nat) :=
  (k.point? i).bind Point.work?

/-! ## The turn of a run that applies changes -/

/-- What the turn of a run that applies changes comes to, if nothing fails. -/
inductive Advances (k : Keeper) (id : Nat) (r : Run) (k' : Keeper) : Prop where
  | rests {result : Except Stop Bool} (hp : r.point = .finished result) (h : k' = k)
  | moves {p : Point} (hj : r.job.refreshes = true) (hold : r.point.holds = false)
      (hp : k'.point? id = some p) (hnew : p.holds = false) (hpending : k'.pending = k.pending)
      (hcatalog : k'.catalog = k.catalog) (hwait : r.canceled = false → p = .queued ∨
        (r.job = .delayedRefresh ∧ ∃ time, p = .sleeping time))
  | idles {result : Except Stop Bool} (hj : r.job.refreshes = true) (hold : r.point.holds = false)
      (hfree : k.locked = false) (hp : k'.point? id = some (.finished result))
      (hempty : k.pending.entries = []) (hpending : k'.pending = k.pending)
      (hcatalog : k'.catalog = k.catalog)
  | takesOver {g : Group} (hj : r.job.refreshes = true) (hold : r.point.holds = false)
      (hfree : k.locked = false) (h : TakesOver k.pending k.loads.length id g k')
      (hcatalog : k'.catalog = k.catalog)
  | applies {changes : PathMap Change} {g : Group} {result : Except Stop Bool}
      (hj : r.job.refreshes = true) (hr : r.point = .applying changes g) (hstop : g.stop = none)
      (hp : k'.point? id = some (.finished result)) (hpending : k'.pending = k.pending)
      (h : k.catalog.refresh k.matcher (k.loadedChanges changes g) = (k'.catalog, none))

/-- A run comes to the lock in `k₀`, which differs from `k` in nothing that matters here. -/
theorem Enters.advances {k k₀ k' : Keeper} {id : Nat} {r : Run} (he : Enters k₀ id r.job k')
    (hr : k₀.runs[id]? = some r) (hj : r.job.refreshes = true) (hd : k₀.disposed = false)
    (hold : r.point.holds = false) (hfree : k.locked = false) (hp : k₀.pending = k.pending)
    (hl : k₀.loads = k.loads) (hc : k₀.catalog = k.catalog) : Advances k id r k' := by
  cases he with
  | builds hj' hb =>
    rw [hj] at hj'
    cases hj'
  | idles _ hempty =>
    have hnil : k.pending.entries = [] := hp ▸ hempty.resolve_right (by rw [hd]; simp)
    refine .idles hj hold hfree (point?_leave_self (k := { k₀ with pending := .empty }) hr _)
      hnil ?_ ?_
    · rw [leave_eq]
      exact PathMap.eq_of_entries_eq hnil.symm
    · rw [leave_eq]
      exact hc
  | takesOver _ hne hd' =>
    have hover := takesOver_startLoads hr hj hne
    refine .takesOver hj hold hfree
      (g := ({ k₀ with pending := .empty }.startLoads id (changedFiles k₀.pending)).2) ?_ hc
    rw [← hp, ← hl]
    exact hover

theorem TakesRun.advances {k k' : Keeper} {id : Nat} {r : Run} (ht : TakesRun k id r k')
    (hr : k.runs[id]? = some r) (hu : k.Undisturbed) (hrun : r.Refreshes)
    (hfree : r.point = .queued → r.canceled = false → k.locked = false) (hcalm : k'.Calm) :
    Advances k id r k' := by
  have hd : k.disposed = false := hu.disposed
  have hjob : (∀ result, r.point ≠ .finished result) → r.job.refreshes = true ∧
      r.point.draft? = none :=
    fun hne => hrun.resolve_right fun ⟨result, hf⟩ => hne result hf
  -- A run that refreshes neither builds nor has a draft, which leaves no more than half of the
  -- cases.
  have hbuild : r.point = .created → r.job.refreshes = false → False := by
    intro hp hj
    rw [(hjob (by rw [hp]; simp)).1] at hj
    cases hj
  have hdraft : ∀ {d}, r.point.draft? = some d → False := by
    intro d hd
    have hne : ∀ result, r.point ≠ .finished result := fun result hf => by rw [hf] at hd; cases hd
    rw [(hjob hne).2] at hd
    cases hd
  cases ht with
  | rests hp => exact .rests hp rfl
  | stops hp hc =>
    have hold : r.point.holds = false := by rcases hp with hp | ⟨time, hp⟩ <;> rw [hp] <;> rfl
    have hne : ∀ result, r.point ≠ .finished result := by
      rcases hp with hp | ⟨time, hp⟩ <;> rw [hp] <;> simp
    exact .moves (hjob hne).1 hold (point?_finish_self hr _) rfl rfl rfl fun hc' => by
      rw [hc] at hc'; cases hc'
  | sleeps hp hj hc =>
    exact .moves (by rw [hj]; rfl) (by rw [hp]; rfl)
      (point?_wait_self (k := { k with ready := _ }) hr _) rfl rfl rfl
      fun _ => .inr ⟨hj, _, rfl⟩
  | queues hc ha hl =>
    cases ha with
    | rebuild hp hj => exact (hbuild hp (by rw [hj]; rfl)).elim
    | startUp hp hj => exact (hbuild hp (by rw [hj]; rfl)).elim
    | refresh hp hj =>
      exact .moves (by rw [hj]; rfl) (by rw [hp]; rfl)
        (point?_wait_self (k := { k with queue := _ }) hr _) rfl rfl rfl
        fun _ => .inl rfl
    | wakes hp =>
      exact .moves (hjob (by rw [hp]; simp)).1 (by rw [hp]; rfl)
        (point?_wait_self (k := { k with queue := _, timer := _ }) hr _) rfl rfl rfl fun _ =>
          .inl rfl
  | enters hc ha hl hq he =>
    cases ha with
    | rebuild hp hj => exact (hbuild hp (by rw [hj]; rfl)).elim
    | startUp hp hj => exact (hbuild hp (by rw [hj]; rfl)).elim
    | refresh hp hj =>
      exact he.advances hr (hjob (by rw [hp]; simp)).1 hd (by rw [hp]; rfl) hl rfl rfl rfl
    | wakes hp =>
      exact he.advances hr (hjob (by rw [hp]; simp)).1 hd (by rw [hp]; rfl) hl rfl rfl rfl
  | quits hp hc =>
    rw [hu.not_canceled hr (by rw [hp]; rfl) (by rw [hp]; simp)] at hc
    cases hc
  | admitted hp hc he =>
    exact he.advances hr (hjob (by rw [hp]; simp)).1 hd (by rw [hp]; rfl) (hfree hp hc) rfl rfl rfl
  | @resumes d _ _ _ _ hp hc hb => exact (hdraft (d := d) (by rw [hp]; rfl)).elim
  | @yields d _ _ hp hc hg hs => exact (hdraft (d := d) (by rw [hp]; rfl)).elim
  | @continues d _ _ hp hc hb => exact (hdraft (d := d) (by rw [hp]; rfl)).elim
  | givesUp hp hg => exact (hdraft hp).elim
  | leaves hp hl =>
    cases hl with
    | canceled hc =>
      rw [hu.not_canceled hr (by rw [hp]; rfl) (by rw [hp]; simp)] at hc
      cases hc
    | @stopped stop hs =>
      cases stop with
      | failed fault =>
        rw [leave_eq] at hcalm
        exact absurd hcalm (not_calm_of_failed (k := { k with .. }) hr _)
      | canceled => exact absurd hs ((hu.run id r hr).group _ (by rw [hp]; rfl)).2
    | disposed hd' =>
      rw [hd] at hd'
      cases hd'
  | breaks hp hc hg hd hre =>
    rw [leave_eq] at hcalm
    exact absurd hcalm (not_calm_of_failed (k := { k with .. }) hr _)
  | applies hp hc hg hd hre =>
    exact .applies (hjob (by rw [hp]; simp)).1 hp hg (point?_finish_self (k := { k with .. }) hr _)
      rfl hre

/-! ## The state of a file -/

/-- What was told last of a file is the case, and it is pending, or being applied, or the catalog
shows the file. -/
inductive Told (cls : Path → FileClass) (k : Keeper) (p : Path) : Prop where
  | pending {c : Change} (h : k.pending.get? p = some c) (hd : k.site.Describes cls p c)
  | applying {i j : Nat} {c : Change} {changes : PathMap Change} {loads : List Nat}
      (hn : k.pending.get? p = none) (hw : k.work? i = some (changes, loads))
      (hj : ((p, c), j) ∈ changes.entries.zip loads) (hd : k.site.Describes cls p c)
      (hb : c.kind ≠ .deleted → k.Brings c.cls p j)
  | shown (hn : k.pending.get? p = none)
      (hw : ∀ i changes loads, k.work? i = some (changes, loads) → changes.get? p = none)
      (hs : k.catalog.Shows k.site p)

/-- It stays so if the file stays the same and nothing is done about its changes. -/
theorem Told.keep {cls : Path → FileClass} {k k' : Keeper} {p : Path} (h : k.Told cls p)
    (hn : k'.pending.get? p = k.pending.get? p) (hw : ∀ i, k'.work? i = k.work? i)
    (hsame : k.site.SameFile k'.site p) (hc : k'.catalog = k.catalog)
    (hb : ∀ c j, k.Brings c p j → k'.Brings c p j) : k'.Told cls p := by
  cases h with
  | pending h hd => exact .pending (hn.trans h) (hsame.describes hd)
  | applying hn' hw' hj hd hb' =>
    exact .applying (hn.trans hn') ((hw _).trans hw') hj (hsame.describes hd) fun hk =>
      hb _ _ (hb' hk)
  | shown hn' hw' hs =>
    refine .shown (hn.trans hn')
      (fun i changes loads hi => hw' i changes loads ((hw i).symm.trans hi)) ?_
    intro cls' x
    rw [hc, hsame.offers]
    exact hs cls' x

/-- All that holds of a keeper that is told of the changes of files of known classes. -/
structure Tended (cls : Path → FileClass) (k : Keeper) : Prop where
  healthy : k.Healthy
  refreshes : ∀ r ∈ k.runs, r.Refreshes
  sorted : k.site.Sorted cls
  pending : ∀ p c, k.pending.get? p = some c → c.cls = cls p
  work : ∀ i changes loads, k.work? i = some (changes, loads) → ∀ p c, changes.get? p = some c →
    c.cls = cls p
  catalog : ∀ p c x, k.catalog.listed? c p = some x → c = cls p

theorem Tended.erase {cls : Path → FileClass} {k : Keeper} (h : k.Tended cls) (t : Turn) :
    { k with ready := k.ready.erase t }.Tended cls :=
  ⟨⟨h.healthy.orderly.erase t, h.healthy.undisturbed, h.healthy.sound, h.healthy.reported⟩,
    h.refreshes, h.sorted, h.pending, h.work, h.catalog⟩

/-! ## What is being applied -/

theorem work?_eq {k k' : Keeper} {i : Nat} (h : k'.point? i = k.point? i) :
    k'.work? i = k.work? i := by
  rw [work?, work?, h]

theorem work?_eq_none {k : Keeper} {i : Nat} {p : Point} (hp : k.point? i = some p)
    (h : p.holds = false) :
    k.work? i = none := by
  rw [work?, hp]
  exact Point.work?_of_holds h

theorem work?_of_run {k : Keeper} {i : Nat} {r : Run} (hr : k.runs[i]? = some r) :
    k.work? i = r.point.work? := by
  rw [work?, point?_of_run hr]
  rfl

theorem holds_of_work? {k : Keeper} {i : Nat} {w : PathMap Change × List Nat}
    (h : k.work? i = some w) :
    ∃ r, k.runs[i]? = some r ∧ r.point.holds = true := by
  obtain ⟨p, hp, hw⟩ := Option.bind_eq_some_iff.mp h
  obtain ⟨r, hr, rfl⟩ := Option.map_eq_some_iff.mp hp
  refine ⟨r, hr, ?_⟩
  by_contra hn
  rw [Point.work?_of_holds (by simpa using hn)] at hw
  cases hw

/-- Changes are applied by one run at a time. -/
theorem Orderly.work?_unique {k : Keeper} (h : k.Orderly) {i j : Nat}
    {w w' : PathMap Change × List Nat} (hi : k.work? i = some w) (hj : k.work? j = some w') :
    i = j := by
  obtain ⟨r, hr, hh⟩ := holds_of_work? hi
  obtain ⟨s, hs, hh'⟩ := holds_of_work? hj
  exact h.alone i j r s hr hs hh hh'

/-- While nobody holds the lock, nothing is being applied. -/
theorem Orderly.work?_eq_none {k : Keeper} (h : k.Orderly) (hl : k.locked = false) (i : Nat) :
    k.work? i = none := by
  cases hw : k.work? i with
  | none => rfl
  | some w =>
    obtain ⟨r, hr, hh⟩ := holds_of_work? hw
    rw [h.holds_eq_false hl hr] at hh
    cases hh

theorem TakesLoad.work? {k k' : Keeper} {id : Nat} {l : Load} (ht : TakesLoad k id l k') (i : Nat) :
    k'.work? i = k.work? i :=
  work?_eq (by rw [point?, ht.pending.2.2]; rfl)

theorem TakesReport.work? {k k' : Keeper} {id : Nat} {l : Load} (ht : TakesReport k id l k')
    (i : Nat) :
    k'.work? i = k.work? i := by
  rcases ht.point? i with h | ⟨p, g, result, hp, hg, -, -, -, hp'⟩
  · exact work?_eq h
  · rw [Keeper.work?, Keeper.work?, hp, hp']
    exact Point.work?_withGroup hg (Group.loads_report _ _ _)

theorem TakesOver.work? {pending : PathMap Change} {n id : Nat} {g : Group} {k' : Keeper}
    (h : TakesOver pending n id g k') : k'.work? id = some (pending, g.loads) := by
  obtain ⟨r, hr, -, hp⟩ := h.applies
  rw [work?_of_run hr, hp]
  rfl

/-- A call does not touch what is being applied. -/
theorem next_work? {cls : Path → FileClass} {k : Keeper} (h : k.Undisturbed) {m : Move}
    (hm : Informs cls k m) (ht : ∀ t, m ≠ .turn t) (i : Nat) : (k.next m).work? i = k.work? i := by
  rcases next_point? h hm.ne_dispose ht i with he | ⟨he, he'⟩
  · exact work?_eq he
  · rw [work?, work?, he, he']
    rfl

theorem next_catalog {cls : Path → FileClass} {k : Keeper} (h : k.Undisturbed) {m : Move}
    (hm : Informs cls k m) (ht : ∀ t, m ≠ .turn t) : (k.next m).catalog = k.catalog := by
  have h' := next_moves k m
  generalize k.next m = k' at h' ⊢
  cases h' with
  | notify p c =>
    obtain ⟨ready, he⟩ := h.notify_eq p c
    rw [he]
  | run => exact absurd rfl (ht _)
  | starts | listen | edit | works | waits => rfl
  | switchMode | changeSettings | dispose => exact hm.elim

/-! ## Applying changes -/

theorem Tended.shows_of_applies {cls : Path → FileClass} {k : Keeper} (h : k.Tended cls) {id : Nat}
    {r : Run} (hr : k.runs[id]? = some r) {changes : PathMap Change} {g : Group}
    (hp : r.point = .applying changes g) (hstop : g.stop = none) (hdone : g.isDone = true)
    {c' : Catalog} (hre : k.catalog.refresh k.matcher (k.loadedChanges changes g) = (c', none))
    {p : Path} {c : Change} {j : Nat} (hj : ((p, c), j) ∈ changes.entries.zip g.loads)
    (hd : k.site.Describes cls p c) (hb : c.kind ≠ .deleted → k.Brings c.cls p j) :
    c'.Shows k.site p := by
  have hsound : (Point.applying changes g).Sound k.loads :=
    hp ▸ h.healthy.sound.points r (List.mem_of_getElem? hr)
  have hmem : (p, c, k.loaded j) ∈ k.loadedChanges changes g := List.mem_map.mpr ⟨_, hj, rfl⟩
  have hload : c.kind ≠ .deleted → k.site.load c.cls p = .ok (k.loaded j) := by
    intro hk
    obtain ⟨l, hl, hbr⟩ := hb hk
    obtain ⟨l', x, hl', hx⟩ :=
      h.healthy.reported.ended (p := .applying changes g) (hp ▸ point?_of_run hr) rfl hstop
        hdone (List.of_mem_zip hj).2
    rw [hl] at hl'
    cases hl'
    rw [loaded, loadPoint?, hl, Option.map_some, hx]
    exact hbr.brought hx
  intro cls' x
  rw [Catalog.listed?_refresh hre, Catalog.listed?_applyChanges_of_mem
    _ _ (nodup_loadedChanges hsound) hmem]
  exact Catalog.applyChange_shows h.sorted hd hload (fun cls' y => h.catalog p cls' y) cls' x

/-! ## From move to move -/

/-- A run that takes over the pending changes applies what was pending of a file. -/
theorem TakesOver.told {cls : Path → FileClass} {k k' : Keeper} {id : Nat} {g : Group}
    (hover : TakesOver k.pending k.loads.length id g k') (hnone : k.work? id = none)
    (hcatalog : k'.catalog = k.catalog) (hwork : ∀ i, i ≠ id → k'.work? i = k.work? i)
    (hsite : k'.site = k.site) {p : Path} (hbrings : ∀ c j, k.Brings c p j → k'.Brings c p j)
    (ht : k.Told cls p) : k'.Told cls p := by
  have hn : k'.pending.get? p = none := by rw [hover.empties]; rfl
  cases ht with
  | @pending c hget hd =>
    obtain ⟨j, hj, hload⟩ := hover.exists_load hget
    refine .applying hn hover.work? hj (hsite ▸ hd) fun hk => ?_
    refine ⟨_, hload, ?_, rfl, rfl, by simpa [newLoad] using hk⟩
    intro x hx
    cases hx
  | @applying i j c changes loads _ hw hj hd hb =>
    have hi : i ≠ id := by
      rintro rfl
      rw [hnone] at hw
      cases hw
    exact .applying hn ((hwork i hi).trans hw) hj (hsite ▸ hd) fun hk => hbrings _ _ (hb hk)
  | shown hget hw hs =>
    refine .shown hn (fun i changes loads hi => ?_) (by rw [hcatalog, hsite]; exact hs)
    by_cases hid : i = id
    · subst hid
      rw [hover.work?] at hi
      cases hi
      exact hget
    · exact hw i changes loads ((hwork i hid).symm.trans hi)

/-- When a run has applied its changes, the catalog shows their files, and all others as before. -/
theorem Tended.told_of_applies {cls : Path → FileClass} {k k' : Keeper} (h : k.Tended cls)
    {id : Nat} {r : Run} (hr : k.runs[id]? = some r) {changes : PathMap Change} {g : Group}
    (hp : r.point = .applying changes g) (hstop : g.stop = none) (hdone : g.isDone = true)
    (hnone : k'.work? id = none) (hpending : k'.pending = k.pending)
    (hre : k.catalog.refresh k.matcher (k.loadedChanges changes g) = (k'.catalog, none))
    (hwork : ∀ i, i ≠ id → k'.work? i = k.work? i) (hsite : k'.site = k.site) {p : Path}
    (ht : k.Told cls p) :
    k'.Told cls p := by
  have hn : k'.pending.get? p = k.pending.get? p := by rw [hpending]
  have hwid : k.work? id = some (changes, g.loads) := by rw [work?_of_run hr, hp]; rfl
  -- Only the run itself was applying changes, and it has done so.
  have hidle : ∀ i, k'.work? i = none := by
    intro i
    by_cases hid : i = id
    · rw [hid, hnone]
    · rw [hwork i hid]
      cases hw : k.work? i with
      | none => rfl
      | some w => exact absurd (h.healthy.orderly.work?_unique hw hwid) hid
  have hno : ∀ i changes loads, k'.work? i = some (changes, loads) → changes.get? p = none := by
    intro i changes loads hi
    rw [hidle i] at hi
    cases hi
  cases ht with
  | pending hget hd => exact .pending (hn.trans hget) (hsite ▸ hd)
  | @applying i j c changes' loads hget hw hj hd hb =>
    obtain rfl : i = id := h.healthy.orderly.work?_unique hw hwid
    rw [hwid] at hw
    cases hw
    refine .shown (hn.trans hget) hno ?_
    rw [hsite]
    exact h.shows_of_applies hr hp hstop hdone hre hj hd hb
  | shown hget hw hs =>
    refine .shown (hn.trans hget) hno fun cls' x => ?_
    rw [Catalog.listed?_refresh hre, Catalog.listed?_applyChanges_of_not_mem _ _
      (loadedChanges_of_get?_eq_none (hw id changes g.loads hwid)), hsite]
    exact hs cls' x

/-- A turn of a run that applies changes goes on with what is told. -/
theorem Advances.told {cls : Path → FileClass} {k k' : Keeper} {id : Nat} {r : Run}
    (ha : Advances k id r k') (hr : k.runs[id]? = some r) (h : k.Tended cls)
    (hdone : ∀ g, r.point.group? = some g → g.isDone = true)
    (hwork : ∀ i, i ≠ id → k'.work? i = k.work? i) (hsite : k'.site = k.site) {p : Path}
    (hbrings : ∀ c j, k.Brings c p j → k'.Brings c p j) (ht : k.Told cls p) : k'.Told cls p := by
  -- Nothing changes for the file if the run was not applying anything and still is not.
  have hkeep : r.point.holds = false → ∀ {q}, k'.point? id = some q → q.holds = false →
      k'.pending = k.pending → k'.catalog = k.catalog → k'.Told cls p := by
    intro hold q hq hnew hpending hcatalog
    refine ht.keep (by rw [hpending]) (fun i => ?_) (by rw [hsite]; exact .refl _ p) hcatalog
      hbrings
    by_cases hi : i = id
    · rw [hi, work?_eq_none hq hnew, work?_of_run hr, Point.work?_of_holds hold]
    · exact hwork i hi
  cases ha with
  | rests hp he =>
    rw [he]
    exact ht
  | moves hj hold hp hnew hpending hcatalog hwait => exact hkeep hold hp hnew hpending hcatalog
  | idles hj hold hfree hp hempty hpending hcatalog => exact hkeep hold hp rfl hpending hcatalog
  | takesOver hj hold hfree hover hcatalog =>
    have hnone : k.work? id = none := by rw [work?_of_run hr, Point.work?_of_holds hold]
    exact hover.told hnone hcatalog hwork hsite hbrings ht
  | @applies changes g result hj hp hstop hfin hpending hre =>
    exact h.told_of_applies hr hp hstop (hdone g (by rw [hp]; rfl)) (work?_eq_none hfin rfl)
      hpending hre hwork hsite ht

theorem Tended.advances {cls : Path → FileClass} {k k' : Keeper} (h : k.Tended cls) {id : Nat}
    {r : Run} (hmem : Turn.run id ∈ k.ready) (hr : k.runs[id]? = some r)
    (ht : TakesRun { k with ready := k.ready.erase (.run id) } id r k') (hcalm : k'.Calm) :
    Advances { k with ready := k.ready.erase (.run id) } id r k' :=
  ht.advances hr h.healthy.undisturbed (h.refreshes r (List.mem_of_getElem? hr))
    (fun hq hc => (h.healthy.orderly.summoned id r hr hq hc hmem).1) hcalm

/-- What is told of a file stays so until the file changes. -/
theorem next_told {cls : Path → FileClass} {k : Keeper} (h : k.Tended cls) {m : Move}
    (hm : Informs cls k m) (hcalm : (k.next m).Calm) {p : Path} (hn : ∀ c, m ≠ .notify p c)
    (hsame : k.site.SameFile (k.next m).site p) (ht : k.Told cls p) : (k.next m).Told cls p := by
  have hu := h.healthy.undisturbed
  have hbrings : ∀ c j, k.Brings c p j → (k.next m).Brings c p j :=
    fun c j => next_brings hu hm.ne_dispose (hsame.load c)
  by_cases hturn : ∃ t, m = .turn t
  · obtain ⟨t, rfl⟩ := hturn
    obtain ⟨w, ⟨⟩, -⟩ | ⟨-, hsite, -⟩ := next_site hu hm
    rcases next_turn k t with he | ⟨hmem, htake⟩
    · rw [he]
      exact ht
    · generalize k.next (.turn t) = k' at htake hcalm hsame hbrings hsite ⊢
      cases htake with
      | @run id r _ hr hrun =>
        refine (h.advances hmem hr hrun hcalm).told hr (h.erase _)
          (fun g hg => h.healthy.orderly.awaits id r g hr hg hmem)
            (fun i hi => work?_eq (hrun.frame.point? hi)) hsite
          hbrings ?_
        exact ht.keep rfl (fun _ => rfl) (.refl _ p) rfl fun _ _ hb => hb
      | load hl hload =>
        exact ht.keep (by rw [hload.pending.1]) hload.work? hsame hload.catalog hbrings
      | report hl hreport =>
        exact ht.keep (by rw [hreport.pending.1]) hreport.work? hsame hreport.catalog hbrings
      | alarm hr hp => exact ht.keep rfl (fun _ => rfl) hsame rfl hbrings
      | idle => exact ht.keep rfl (fun _ => rfl) hsame rfl hbrings
  · have hturn' : ∀ t, m ≠ .turn t := fun t he => hturn ⟨t, he⟩
    refine ht.keep ?_ (next_work? hu hm hturn') hsame (next_catalog hu hm hturn') hbrings
    rcases next_pending hu hm.ne_dispose with ⟨q, c, rfl, he⟩ | ⟨-, he⟩ | ⟨id, g, rfl, -⟩
    · rw [he, PathMap.get?_set, if_neg]
      rintro rfl
      exact hn c rfl
    · rw [he]
    · exact absurd rfl (hturn' _)

/-- A run that applies changes does not begin to build the catalog. -/
theorem Advances.refreshes {k k' : Keeper} {id : Nat} {r r' : Run} (ha : Advances k id r k')
    (hr : k.runs[id]? = some r) (hr' : k'.runs[id]? = some r') (hj : r'.job = r.job)
    (h : r.Refreshes) :
    r'.Refreshes := by
  have hp : k'.point? id = some r'.point := point?_of_run hr'
  cases ha with
  | rests hfin he =>
    rw [he, hr] at hr'
    cases hr'
    exact h
  | moves hjob hold hq hnew hpending hcatalog hwait =>
    rw [hp] at hq
    refine .inl ⟨hj ▸ hjob, ?_⟩
    cases hd : r'.point.draft? with
    | none => rfl
    | some d =>
      rw [← Option.some.inj hq, Point.holds_of_draft? hd] at hnew
      cases hnew
  | idles hjob hold hfree hq hempty hpending hcatalog =>
    rw [hp] at hq
    exact .inr ⟨_, Option.some.inj hq⟩
  | takesOver hjob hold hfree hover hcatalog =>
    obtain ⟨s, hs, -, hsp⟩ := hover.applies
    rw [hr'] at hs
    cases hs
    exact .inl ⟨hj ▸ hjob, by rw [hsp]; rfl⟩
  | applies hjob happ hstop hq hpending hre =>
    rw [hp] at hq
    exact .inr ⟨_, Option.some.inj hq⟩

theorem TakesRun.refreshes {k k' : Keeper} {id : Nat} {r : Run} (ht : TakesRun k id r k')
    (hr : k.runs[id]? = some r) (ha : Advances k id r k') (h : ∀ r ∈ k.runs, r.Refreshes) :
    ∀ r ∈ k'.runs, r.Refreshes := by
  intro r' hr'
  obtain ⟨i, hi⟩ := List.mem_iff_getElem?.mp hr'
  have hlt : i < k.runs.length := ht.frame.length ▸ (List.getElem?_eq_some_iff.mp hi).1
  have hs : k.runs[i]? = some k.runs[i] := List.getElem?_eq_getElem hlt
  obtain ⟨p, superseded, hs', hp⟩ := ht.frame.runs i k.runs[i] hs
  have he : r' = { k.runs[i] with point := p, superseded } := Option.some.inj (hi.symm.trans hs')
  have hold := h _ (List.getElem_mem hlt)
  by_cases hid : i = id
  · subst hid
    obtain rfl : k.runs[i] = r := Option.some.inj (hs.symm.trans hr)
    exact ha.refreshes hr hi (by rw [he]) hold
  · rw [he, hp hid]
    exact hold

/-- The changes that are told of a file, the changes that are applied to it, and its entry are all
of its class. -/
theorem Advances.classed {cls : Path → FileClass} {k k' : Keeper} {id : Nat} {r : Run}
    (ha : Advances k id r k') (hr : k.runs[id]? = some r) (h : k.Tended cls)
    (hwork : ∀ i, i ≠ id → k'.work? i = k.work? i) :
    (∀ p c, k'.pending.get? p = some c → c.cls = cls p) ∧
    (∀ i changes loads, k'.work? i = some (changes, loads) → ∀ p c, changes.get? p = some c →
      c.cls = cls p) ∧
    ∀ p c x, k'.catalog.listed? c p = some x → c = cls p := by
  have hothers : ∀ i changes loads, i ≠ id → k'.work? i = some (changes, loads) →
      ∀ p c, changes.get? p = some c → c.cls = cls p :=
    fun i changes loads hi hw => h.work i changes loads ((hwork i hi).symm.trans hw)
  have hnone : k'.work? id = none → ∀ i changes loads, k'.work? i = some (changes, loads) →
      ∀ p c, changes.get? p = some c → c.cls = cls p := by
    intro hid i changes loads hi
    refine hothers i changes loads (fun he => ?_) hi
    rw [he, hid] at hi
    cases hi
  cases ha with
  | rests hp he =>
    rw [he]
    exact ⟨h.pending, h.work, h.catalog⟩
  | moves hj hold hp hnew hpending hcatalog hwait =>
    rw [hpending, hcatalog]
    exact ⟨h.pending, hnone (work?_eq_none hp hnew), h.catalog⟩
  | idles hj hold hfree hp hempty hpending hcatalog =>
    rw [hpending, hcatalog]
    exact ⟨h.pending, hnone (work?_eq_none hp rfl), h.catalog⟩
  | takesOver hj hold hfree hover hcatalog =>
    rw [hover.empties, hcatalog]
    refine ⟨fun p c hp => (by cases hp), fun i changes loads hi => ?_, h.catalog⟩
    by_cases hid : i = id
    · rw [hid, hover.work?] at hi
      cases hi
      exact h.pending
    · exact hothers i changes loads hid hi
  | @applies changes g result hj hp hstop hfin hpending hre =>
    rw [hpending]
    refine ⟨h.pending, hnone (work?_eq_none hfin rfl), fun p c x hx => ?_⟩
    rw [Catalog.listed?_refresh hre] at hx
    refine Catalog.applyChanges_classed h.catalog (fun e he => ?_) p c x hx
    obtain ⟨⟨⟨q, change⟩, j⟩, hj, rfl⟩ := List.mem_map.mp he
    have hwid : k.work? id = some (changes, g.loads) := by rw [work?_of_run hr, hp]; rfl
    exact h.work id changes g.loads hwid q
      change (PathMap.mem_entries_iff.mp (List.of_mem_zip hj).1)

theorem TakesReport.frame {k k' : Keeper} {id : Nat} {l : Load} (ht : TakesReport k id l k') :
    Frame l.owner k.core k'.core := by
  cases ht with
  | rests => exact .refl _ _
  | delivers hl hr hg hd ha => exact Frame.wait k l.owner _

theorem TakesReport.refreshes {k k' : Keeper} {id : Nat} {l : Load} (ht : TakesReport k id l k')
    (h : ∀ r ∈ k.runs, r.Refreshes) : ∀ r ∈ k'.runs, r.Refreshes := by
  cases ht with
  | rests => exact h
  | @delivers r g result hl hr hg hd ha =>
    intro r' hr'
    rcases mem_modify hr' with hr' | ⟨s, hs, rfl⟩
    · exact h r' hr'
    · obtain rfl : r = s := Option.some.inj (hr.symm.trans hs)
      rcases h r (List.mem_of_getElem? hs) with ⟨hj, hdraft⟩ | ⟨result', hfin⟩
      · exact .inl ⟨hj, (Point.draft?_withGroup _ _).trans hdraft⟩
      · rw [hfin] at hg
        cases hg

/-- A call starts only runs that apply changes. -/
theorem next_refreshes {cls : Path → FileClass} {k : Keeper} (hu : k.Undisturbed)
    (h : ∀ r ∈ k.runs, r.Refreshes) {m : Move} (hm : Informs cls k m) (hturn : ∀ t, m ≠ .turn t) :
    ∀ r ∈ (k.next m).runs, r.Refreshes := by
  have hstart : ∀ job : Job, job.refreshes = true → (newRun job).Refreshes :=
    fun _ hj => .inl ⟨hj, rfl⟩
  have h' := next_moves k m
  generalize k.next m = k' at h' ⊢
  cases h' with
  | @starts m job hj =>
    obtain rfl : job = .refresh := by
      cases m <;> cases hj
      · exact hm.elim
      · exact hm.elim
      · rfl
    intro r hr
    rcases List.mem_append.mp hr with hr | hr
    · exact h r hr
    · rw [List.mem_singleton.mp hr]
      exact hstart .refresh rfl
  | notify p c =>
    obtain ⟨ready, he⟩ := hu.notify_eq p c
    rw [he]
    intro r hr
    rcases List.mem_append.mp hr with hr | hr
    · obtain ⟨s, hs, rfl⟩ := List.mem_map.mp hr
      have hs' := h s hs
      unfold Run.stopTimer
      split
      · exact hs'
      · exact hs'
    · rw [List.mem_singleton.mp hr]
      exact hstart _ rfl
  | run | works => exact absurd rfl (hturn _)
  | listen | edit | waits => exact h
  | switchMode | changeSettings | dispose => exact hm.elim

theorem next_tended {cls : Path → FileClass} {k : Keeper} (h : k.Tended cls) {m : Move}
    (hm : Informs cls k m) (hraise : (k.perform m).2 = none) (hcalm : (k.next m).Calm) :
    (k.next m).Tended cls := by
  have hu := h.healthy.undisturbed
  have hhealthy := next_healthy h.healthy hm hraise hcalm
  have hsorted : (k.next m).site.Sorted cls := by
    obtain ⟨w, rfl, hsite, -⟩ | ⟨-, hsite, -⟩ := next_site hu hm
    · rw [hsite]
      exact hm.2
    · rw [hsite]
      exact h.sorted
  by_cases hturn : ∃ t, m = .turn t
  · obtain ⟨t, rfl⟩ := hturn
    rcases next_turn k t with he | ⟨hmem, htake⟩
    · rw [he]
      exact h
    · generalize k.next (.turn t) = k' at htake hcalm hhealthy hsorted ⊢
      cases htake with
      | run hr hrun =>
        have ha := h.advances hmem hr hrun hcalm
        obtain ⟨hp, hw, hc⟩ := ha.classed hr (h.erase _) fun i hi => work?_eq (hrun.frame.point? hi)
        exact ⟨hhealthy, hrun.refreshes hr ha h.refreshes, hsorted, hp, hw, hc⟩
      | load hl hload =>
        obtain ⟨hp, -, hruns⟩ := hload.pending
        refine ⟨hhealthy, hruns ▸ h.refreshes, hsorted, hp ▸ h.pending, ?_,
          hload.catalog ▸ h.catalog⟩
        exact fun i changes loads hi => h.work i changes loads ((hload.work? i).symm.trans hi)
      | report hl hreport =>
        refine ⟨hhealthy, hreport.refreshes h.refreshes, hsorted, hreport.pending.1 ▸ h.pending, ?_,
          hreport.catalog ▸ h.catalog⟩
        exact fun i changes loads hi => h.work i changes loads ((hreport.work? i).symm.trans hi)
      | alarm hr hp => exact ⟨hhealthy, h.refreshes, hsorted, h.pending, h.work, h.catalog⟩
      | idle => exact ⟨hhealthy, h.refreshes, hsorted, h.pending, h.work, h.catalog⟩
  · have hturn' : ∀ t, m ≠ .turn t := fun t he => hturn ⟨t, he⟩
    refine ⟨hhealthy, next_refreshes hu h.refreshes hm hturn', hsorted, ?_, ?_, ?_⟩
    · rcases next_pending hu hm.ne_dispose with ⟨q, d, rfl, he⟩ | ⟨-, he⟩ | ⟨id, g, rfl, -⟩
      · intro p c hp
        rw [he, PathMap.get?_set] at hp
        by_cases hq : p = q
        · rw [if_pos hq] at hp
          cases hp
          rw [hq]
          exact hm.cls
        · rw [if_neg hq] at hp
          exact h.pending p c hp
      · rw [he]
        exact h.pending
      · exact absurd rfl (hturn' _)
    · intro i changes loads hi
      exact h.work i changes loads ((next_work? hu hm hturn' i).symm.trans hi)
    · rw [next_catalog hu hm hturn']
      exact h.catalog

/-! ## The last refresh -/

/-- A refresh that has not come to the lock yet, or has left nothing to any other run. -/
def Flushing (id : Nat) (k : Keeper) : Prop :=
  ∃ r, k.runs[id]? = some r ∧ r.job = .refresh ∧ r.canceled = false ∧
    (r.point = .created ∨ r.point = .queued ∨
      (k.pending.entries = [] ∧ ∀ i, i ≠ id → k.work? i = none))

/-- Runs do not forget what they are for. -/
theorem Frame.run {id : Nat} {k k' : Keeper} (hf : Frame id k.core k'.core) {i : Nat} {r : Run}
    (hr : k.runs[i]? = some r) :
    ∃ r', k'.runs[i]? = some r' ∧ r'.job = r.job ∧ r'.canceled = r.canceled ∧
      (i ≠ id → r'.point = r.point) := by
  obtain ⟨p, superseded, hr', hp⟩ := hf.runs i r hr
  exact ⟨_, hr', rfl, rfl, hp⟩

theorem Advances.flushing {k k' : Keeper} {id i : Nat} {r : Run} (ha : Advances k i r k')
    (hr : k.runs[i]? = some r) (ho : k.Orderly) (hf : Frame i k.core k'.core) (h : Flushing id k) :
    Flushing id k' := by
  obtain ⟨s, hs, hj, hc, hstate⟩ := h
  obtain ⟨s', hs', hj', hc', hpoint⟩ := hf.run hs
  have hwork : ∀ j, j ≠ i → k'.work? j = k.work? j := fun j hne => work?_eq (hf.point? hne)
  refine ⟨s', hs', hj'.trans hj, hc'.trans hc, ?_⟩
  by_cases hi : i = id
  · subst hi
    obtain rfl : r = s := Option.some.inj (hr.symm.trans hs)
    have hp' : k'.point? i = some s'.point := point?_of_run hs'
    -- Once it has the lock, there is nobody else who applies changes.
    have hfirst : k.locked = false → ∀ j, j ≠ i → k'.work? j = none :=
      fun hfree j hne => (hwork j hne).trans (ho.work?_eq_none hfree j)
    cases ha with
    | rests hfin he =>
      rw [he, hs] at hs'
      cases hs'
      rw [he]
      exact hstate
    | moves hjob hold hq hnew hpending hcatalog hwait =>
      rw [hp'] at hq
      cases hq
      rcases hwait hc with hq | ⟨hd, -⟩
      · exact .inr (.inl hq)
      · rw [hj] at hd
        cases hd
    | idles hjob hold hfree hq hempty hpending hcatalog =>
      exact .inr (.inr ⟨by rw [hpending]; exact hempty, hfirst hfree⟩)
    | takesOver hjob hold hfree hover hcatalog =>
      exact .inr (.inr ⟨by rw [hover.empties]; rfl, hfirst hfree⟩)
    | applies hjob happ hstop hq hpending hre =>
      rcases hstate with hp | hp | ⟨hempty, hothers⟩
      · rw [hp] at happ
        cases happ
      · rw [hp] at happ
        cases happ
      · exact .inr
          (.inr ⟨by rw [hpending]; exact hempty, fun j hne => (hwork j hne).trans (hothers j hne)⟩)
  · rw [hpoint (Ne.symm hi)]
    refine hstate.imp_right (Or.imp_right ?_)
    rintro ⟨hempty, hothers⟩
    have hnone : k.work? i = none := hothers i hi
    have hall : k'.work? i = none → ∀ j, j ≠ id → k'.work? j = none := by
      intro hw j hne
      by_cases hji : j = i
      · rw [hji]
        exact hw
      · exact (hwork j hji).trans (hothers j hne)
    cases ha with
    | rests hfin he =>
      rw [he]
      exact ⟨hempty, hothers⟩
    | moves hjob hold hq hnew hpending hcatalog hwait =>
      exact ⟨by rw [hpending]; exact hempty, hall (work?_eq_none hq hnew)⟩
    | idles hjob hold hfree hq _ hpending hcatalog =>
      exact ⟨by rw [hpending]; exact hempty, hall (work?_eq_none hq rfl)⟩
    | takesOver hjob hold hfree hover hcatalog => exact absurd hempty hover.nonempty
    | applies hjob happ hstop hq hpending hre =>
      rw [work?_of_run hr, happ] at hnone
      cases hnone

theorem next_flushing {cls : Path → FileClass} {k : Keeper} (h : k.Tended cls) {m : Move}
    (hm : Works k m) (hcalm : (k.next m).Calm) {id : Nat} (hf : Flushing id k) :
    Flushing id (k.next m) := by
  have h' := next_moves k m
  generalize k.next m = k' at h' hcalm ⊢
  cases h' with
  | run hmem hr hrun =>
    exact (h.advances hmem hr hrun hcalm).flushing hr (h.healthy.orderly.erase _) hrun.frame hf
  | @works t runs loads ready es ht hes htake =>
    generalize { k with runs, loads, ready, events := k.events ++ es } = k' at htake hcalm ⊢
    cases htake with
    | run => exact absurd rfl (ht _)
    | load hl hload =>
      obtain ⟨hp, -, hruns⟩ := hload.pending
      obtain ⟨r, hr, hj, hc, hstate⟩ := hf
      refine ⟨r, hruns ▸ hr, hj, hc, hstate.imp_right (Or.imp_right ?_)⟩
      rintro ⟨hempty, hothers⟩
      exact ⟨hp ▸ hempty, fun i hi => (hload.work? i).trans (hothers i hi)⟩
    | report hl hreport =>
      obtain ⟨r, hr, hj, hc, hstate⟩ := hf
      obtain ⟨r', hr', hj', hc', -⟩ := hreport.frame.run hr
      have hp : k.point? id = some r.point := point?_of_run hr
      have hp' : k'.point? id = some r'.point := point?_of_run hr'
      have hearly : r.point.group? = none → r'.point = r.point := by
        intro hg
        rcases hreport.point? id with he | ⟨q, g, result, hq, hg', -⟩
        · exact Option.some.inj (hp'.symm.trans (he.trans hp))
        · obtain rfl : r.point = q := Option.some.inj (hp.symm.trans hq)
          rw [hg] at hg'
          cases hg'
      refine ⟨r', hr', hj'.trans hj, hc'.trans hc, ?_⟩
      rcases hstate with hcr | hqu | ⟨hempty, hothers⟩
      · exact .inl ((hearly (by rw [hcr]; rfl)).trans hcr)
      · exact .inr (.inl ((hearly (by rw [hqu]; rfl)).trans hqu))
      · refine .inr (.inr ⟨by rw [hreport.pending.1]; exact hempty, fun i hi => ?_⟩)
        exact (hreport.work? i).trans (hothers i hi)
    | alarm | idle => exact hf
  | listen | waits => exact hf
  | @starts m job hj => cases m <;> first | exact hm.elim | cases hj
  | notify | switchMode | changeSettings | dispose | edit => exact hm.elim

/-- When the refresh has ended, there is nothing left to be applied. -/
theorem Flushing.shows {cls : Path → FileClass} {id : Nat} {k : Keeper} (hf : Flushing id k)
    (he : k.hasEnded id = true) {p : Path} (ht : k.Told cls p) : k.catalog.Shows k.site p := by
  obtain ⟨r, hr, -, -, hstate⟩ := hf
  have hp : k.point? id = some r.point := point?_of_run hr
  rw [hasEnded, hp] at he
  obtain ⟨result, hfin⟩ : ∃ result, r.point = .finished result := by
    cases hpt : r.point with
    | finished result => exact ⟨result, rfl⟩
    | _ => rw [hpt] at he; cases he
  rcases hstate with hcr | hqu | ⟨hempty, hothers⟩
  · rw [hfin] at hcr
    cases hcr
  · rw [hfin] at hqu
    cases hqu
  · have hpending : k.pending.get? p = none := by rw [PathMap.get?, hempty]; rfl
    have hwork : ∀ i, k.work? i = none := by
      intro i
      by_cases hi : i = id
      · rw [hi]
        exact work?_eq_none hp (by rw [hfin]; rfl)
      · exact hothers i hi
    cases ht with
    | pending hget hd =>
      rw [hpending] at hget
      cases hget
    | applying hget hw hj hd hb =>
      rw [hwork] at hw
      cases hw
    | shown hget hw hs => exact hs

/-! ## Whole courses -/

/-- Whenever a file changes in a course, it is told of later in the course. -/
def TellsAll (k : Keeper) (ms : List Move) : Prop :=
  ∀ before w later p, ms = before ++ .edit w :: later →
    ¬ (k.after before).site.SameFile ((k.after before).site.edited w) p →
    ∃ c, Move.notify p c ∈ later

theorem TellsAll.tail {k : Keeper} {m : Move} {ms : List Move} (h : k.TellsAll (m :: ms)) :
    (k.next m).TellsAll ms := by
  intro before w later p hms hp
  exact h (m :: before) w later p (by rw [hms]; rfl) hp

/-- In the end of a course in which every change is told later, each file is told of. -/
theorem after_told {cls : Path → FileClass} {k : Keeper} {ms : List Move} (h : k.Tended cls)
    (hq : Quiet (Informs cls) k ms) (htells : k.TellsAll ms)
    (ht : ∀ p, k.Told cls p ∨ ∃ c, Move.notify p c ∈ ms) :
    (k.after ms).Tended cls ∧ ∀ p, (k.after ms).Told cls p := by
  induction ms generalizing k with
  | nil => exact ⟨h, fun p => (ht p).resolve_right (by simp)⟩
  | cons m ms ih =>
    obtain ⟨hm, hraise, hcalm, hrest⟩ := hq
    refine ih (next_tended h hm hraise hcalm) hrest htells.tail fun p => ?_
    by_cases hlater : ∃ c, Move.notify p c ∈ ms
    · exact .inr hlater
    · refine .inl ?_
      have hu := h.healthy.undisturbed
      by_cases hnow : ∃ c, m = .notify p c
      · obtain ⟨c, rfl⟩ := hnow
        obtain ⟨w, ⟨⟩, -⟩ | ⟨-, hsite, -⟩ := next_site hu hm
        refine .pending (c := c) ?_ (by rw [hsite]; exact hm)
        obtain ⟨ready, he⟩ := hu.notify_eq p c
        show (k.notify p c).pending.get? p = _
        rw [he, PathMap.get?_set, if_pos rfl]
      · have hp : k.Told cls p := by
          refine (ht p).resolve_right ?_
          rintro ⟨c, hc⟩
          rcases List.mem_cons.mp hc with rfl | hc
          · exact hnow ⟨c, rfl⟩
          · exact hlater ⟨c, hc⟩
        refine next_told h hm hcalm (fun c he => hnow ⟨c, he⟩) ?_ hp
        obtain ⟨w, rfl, hsite, -⟩ | ⟨-, hsite, -⟩ := next_site hu hm
        · rw [hsite]
          by_contra hn
          exact hlater (htells [] w ms p rfl hn)
        · rw [hsite]
          exact .refl _ p

theorem after_settings {cls : Path → FileClass} {k : Keeper} {ms : List Move} (hu : k.Undisturbed)
    (hq : Quiet (Informs cls) k ms) :
    (k.after ms).site = k.site.edited (k.after ms).workspace ∧
      (k.after ms).matcher = k.matcher := by
  induction ms generalizing k with
  | nil => exact ⟨rfl, rfl⟩
  | cons m ms ih =>
    obtain ⟨hm, -, -, hrest⟩ := hq
    obtain ⟨hsite, hmode⟩ := ih (next_undisturbed hu hm.ne_dispose) hrest
    rw [after_cons]
    obtain ⟨w, -, hsite', hmode'⟩ | ⟨-, hsite', hmode'⟩ := next_site hu hm
    · exact ⟨by rw [hsite, hsite']; rfl, hmode.trans hmode'⟩
    · exact ⟨by rw [hsite, hsite'], hmode.trans hmode'⟩

/-- While a refresh that was begun after all was told goes on, each file stays told of. -/
theorem after_flushing {cls : Path → FileClass} {k : Keeper} {ms : List Move} {id : Nat}
    (h : k.Tended cls) (ht : ∀ p, k.Told cls p) (hf : Flushing id k) (hq : Quiet Works k ms) :
    (k.after ms).Tended cls ∧ (∀ p, (k.after ms).Told cls p) ∧ Flushing id (k.after ms) := by
  refine hq.induction (P := fun k => k.Tended cls ∧ (∀ p, k.Told cls p) ∧ Flushing id k) ?_
    ⟨h, ht, hf⟩
  rintro k m ⟨h, ht, hf⟩ hm hraise hcalm
  have hinf : Informs cls k m := hm.informs
  refine ⟨next_tended h hinf hraise hcalm, fun p => ?_, next_flushing h hm hcalm hf⟩
  refine next_told h hinf hcalm ?_ ?_ (ht p)
  · rintro c rfl
    exact hm
  · obtain ⟨w, rfl, -⟩ | ⟨-, hsite, -⟩ := next_site h.healthy.undisturbed hinf
    · exact hm.elim
    · rw [hsite]
      exact .refl _ p

theorem UpToDate.tended {s : Site} {matcher : Matcher} {cls : Path → FileClass} {k : Keeper}
    (h : UpToDate s matcher k) (hs : s.Sorted cls) : k.Tended cls ∧ ∀ p, k.Told cls p := by
  have hwork : ∀ i, k.work? i = none := by
    intro i
    cases hr : k.runs[i]? with
    | none => rw [work?, point?, hr]; rfl
    | some r =>
      obtain ⟨result, hp⟩ := h.ended r (List.mem_of_getElem? hr)
      rw [work?_of_run hr, hp]
      rfl
  have hpending : ∀ p, k.pending.get? p = none := fun p => by rw [h.pending]; rfl
  refine ⟨⟨h.healthy, fun r hr => .inr (h.ended r hr), by rw [h.site]; exact hs, ?_, ?_, ?_⟩,
    fun p => .shown (hpending p) ?_ (h.shows p)⟩
  · intro p c hp
    rw [hpending] at hp
    cases hp
  · intro i changes loads hi
    rw [hwork] at hi
    cases hi
  · intro p c x hx
    have ho := (h.shows p c x).mp hx
    rw [h.site] at ho
    exact hs.eq_of_finds ho.finds
  · intro i changes loads hi
    rw [hwork] at hi
    cases hi

/-- Following the changes of files is as good as building the catalog anew.  A keeper builds its
catalog.  Then files change, in any number of steps, and each change is told; runs apply what is
told, in whatever order turns are taken.  If a refresh that began after all was told has ended, then
the catalog is the one that a fresh keeper builds from the files as they are now, up to the order of
results and of the definitions in each. -/
theorem refreshed_eq_rebuilt {cls : Path → FileClass} {w : Workspace} {provider : Provider Unit}
    {limit : Int} {k fresh : Keeper} {course work : List Move} (hw : w.Stamps)
    (hs : Site.Sorted cls { workspace := w, settings := provider.settings, sizeLimit := limit })
    (hk : FreshlyBuilt w provider limit k) (hq : Quiet (Informs cls) k (course ++ [.refresh]))
    (htells : k.TellsAll course) (hwork : Quiet Works (k.after (course ++ [.refresh])) work)
    (hend : (k.after (course ++ .refresh :: work)).hasEnded (k.after course).runs.length = true)
    (hfresh : FreshlyBuilt (k.after (course ++ .refresh :: work)).workspace provider limit fresh) :
    (∀ p, (k.after (course ++ .refresh :: work)).catalog.features.get? p =
      fresh.catalog.features.get? p) ∧
    (∀ p, (k.after (course ++ .refresh :: work)).catalog.definitions.get? p =
      fresh.catalog.definitions.get? p) ∧
    Catalog.SameResults (k.after (course ++ .refresh :: work)).catalog.results
      fresh.catalog.results := by
  have hup := hk.upToDate hw
  obtain ⟨h₀, ht₀⟩ := hup.tended hs
  -- Nothing but files changes.
  have hall : Quiet (Informs cls) k (course ++ .refresh :: work) := by
    rw [List.append_cons, quiet_append]
    exact ⟨hq, hwork.imp fun _ _ => Works.informs⟩
  obtain ⟨hsite, hmode⟩ := after_settings h₀.healthy.undisturbed hall
  rw [hup.site] at hsite
  rw [hup.matcher] at hmode
  -- Each file is told of before the last refresh, and shown after it.
  rw [quiet_append] at hq
  obtain ⟨hcourse, ⟨hm, hraise, hcalm, -⟩⟩ := hq
  obtain ⟨h₁, ht₁⟩ := after_told h₀ hcourse htells fun p => .inl (ht₀ p)
  have h₂ := next_tended h₁ hm hraise hcalm
  have ht₂ : ∀ p, ((k.after course).next .refresh).Told cls p :=
    fun p => next_told h₁ hm hcalm (by simp) (.refl _ p) (ht₁ p)
  have hf₂ : Flushing (k.after course).runs.length ((k.after course).next .refresh) :=
    ⟨_, runs_start_self _ .refresh, rfl, rfl, .inl rfl⟩
  rw [after_append] at hwork
  obtain ⟨h₃, ht₃, hf₃⟩ := after_flushing h₂ ht₂ hf₂ hwork
  have hafter : k.after (course ++ .refresh :: work) =
      ((k.after course).next .refresh).after work := by
    rw [after_append]
    rfl
  rw [← hafter] at h₃ ht₃ hf₃
  have hshows := fun p => hf₃.shows hend (ht₃ p)
  have hnew := hfresh.upToDate h₃.healthy.sound.stamps
  have hshows' : ∀ p, fresh.catalog.Shows (k.after (course ++ .refresh :: work)).site p := by
    intro p
    have hp := hnew.shows p
    rw [hnew.site] at hp
    rw [hsite]
    exact hp
  have hentry := Catalog.listed?_eq_of_shows hshows hshows'
  have hf := Catalog.features_eq_of_listed? hentry
  have hd := Catalog.definitions_eq_of_listed? hentry
  have hc := h₃.healthy.sound.coherent
  have hc' := hnew.healthy.sound.coherent
  rw [hmode] at hc
  rw [hnew.matcher] at hc'
  exact ⟨hf, hd, hc.sameResults hc' hf hd⟩

/-! ## A sample -/

def oldFiles : List (Path × Text) :=
  [(shortPath 'f' 'a', [.scalar 'x']), (shortPath 'f' 'b', [.scalar 'y']),
    (shortPath 's' 'a', [.scalar 'x'])]

def newFiles : List (Path × Text) :=
  [(shortPath 'f' 'a', [.scalar 'x']), (shortPath 'f' 'c', [.scalar 'y']),
    (shortPath 's' 'a', [.scalar 'y'])]

def built (files : List (Path × Text)) : Keeper :=
  ((ofFiles files).next .rebuild).after
    [.turn (.run 0), .turn (.load 1), .turn (.load 0), .turn (.report 0), .turn (.report 1),
      .turn (.run 0), .turn (.run 0), .turn (.load 2), .turn (.report 2), .turn (.run 0),
      .turn (.run 0)]

def notices : List Move :=
  [.notify (shortPath 's' 'a') { cls := .definition, kind := .changed },
    .notify (shortPath 'f' 'b') { cls := .feature, kind := .deleted },
    .notify (shortPath 'f' 'c') { cls := .feature, kind := .created }]

def flushCourse : List Move :=
  [.turn (.run 4), .turn (.load 5), .turn (.load 4), .turn (.report 4), .turn (.load 3),
    .turn (.report 3), .turn (.report 5), .turn (.run 4)]

theorem built_freshlyBuilt_old :
    FreshlyBuilt (inMemory oldFiles) (.new .boundless default shortSettings) 1000
      (built oldFiles) :=
  .intro 20 500 false (by decide +kernel) (by decide +kernel)

theorem built_freshlyBuilt_new :
    FreshlyBuilt (inMemory newFiles) (.new .boundless default shortSettings) 1000
      (built newFiles) :=
  .intro 20 500 false (by decide +kernel) (by decide +kernel)

def shortSite (files : List (Path × Text)) : Site :=
  { workspace := inMemory files, settings := shortSettings, sizeLimit := 1000 }

def shortClass (p : Path) : FileClass :=
  if p.names.head? = some [.scalar 's'] then .definition else .feature

def shortPattern : FileClass → Text
  | .feature => [.scalar 'f']
  | .definition => [.scalar 's']

theorem shortSite_finds {files : List (Path × Text)} {cls : FileClass} {p : Path} :
    (shortSite files).Finds cls p ↔ p ∈ files.map (·.1) ∧
      p.names.head? = some (shortPattern cls) := by
  have hsearch : (inMemory files).search [] [shortPattern cls] =
      .ok (Workspace.addNew [] ((files.map (·.1)).filter fun p => p.names.head? =
        some (shortPattern cls))) := rfl
  have hglobs : shortSettings.globs cls = [shortPattern cls] := by cases cls <;> rfl
  unfold Site.Finds shortSite
  dsimp only
  rw [hglobs]
  simp only [show shortSettings.excludeGlobs = [] from rfl, hsearch, Except.ok.injEq,
    exists_eq_left', Workspace.mem_addNew, List.not_mem_nil, false_or, List.mem_filter,
    decide_eq_true_eq]

theorem shortSite_sorted (files : List (Path × Text)) : (shortSite files).Sorted shortClass := by
  intro cls
  have hsearch : ∃ found, (inMemory files).search [] [shortPattern cls] = .ok found := ⟨_, rfl⟩
  obtain ⟨found, hfound⟩ := hsearch
  have hglobs : shortSettings.globs cls = [shortPattern cls] := by cases cls <;> rfl
  have hs : (shortSite files).workspace.search (shortSite files).settings.excludeGlobs
      ((shortSite files).settings.globs cls) = .ok found := by
    rw [show (shortSite files).settings.globs cls = _ from hglobs]
    exact hfound
  refine ⟨found, hs, fun p hp => ?_⟩
  have hhead := (shortSite_finds.mp ⟨found, hs, hp⟩).2
  unfold shortClass
  rw [hhead]
  cases cls <;> decide

theorem shortSite_sameFile {files files' : List (Path × Text)} {p : Path}
    (hmem : p ∈ files'.map (·.1) ↔ p ∈ files.map (·.1)) (hl : files'.lookup p = files.lookup p) :
    (shortSite files).SameFile (shortSite files') p := by
  refine ⟨fun cls => ?_, fun cls => ?_⟩
  · rw [shortSite_finds, shortSite_finds, hmem]
  · have hread : (inMemory files').read p = (inMemory files).read p := by
      simp only [inMemory, hl]
    unfold Site.load shortSite Workspace.load
    dsimp only
    rw [hread]
    rfl

/-- Changes that describe the files as they are may be told one after the other. -/
theorem quiet_informs {cls : Path → FileClass} {k : Keeper} {ms : List Move} (hu : k.Undisturbed)
    (hq : Quiet (fun _ _ => True) k ms)
    (hms : ∀ m ∈ ms, m = .refresh ∨ ∃ p c, m = .notify p c ∧ k.site.Describes cls p c) :
    Quiet (Informs cls) k ms := by
  induction ms generalizing k with
  | nil => trivial
  | cons m ms ih =>
    obtain ⟨-, hraise, hcalm, hrest⟩ := hq
    have hm : Informs cls k m := by
      rcases hms m List.mem_cons_self with rfl | ⟨p, c, rfl, hd⟩
      · trivial
      · exact hd
    refine ⟨hm, hraise, hcalm, ih (next_undisturbed hu hm.ne_dispose) hrest fun m' hm' => ?_⟩
    have hsite : (k.next m).site = k.site := by
      obtain ⟨w, rfl, -⟩ | ⟨-, hsite, -⟩ := next_site hu hm
      · rcases hms _ List.mem_cons_self with he | ⟨p, c, he, -⟩ <;> cases he
      · exact hsite
    rw [hsite]
    exact hms m' (List.mem_cons_of_mem m hm')

theorem built_old_site : (built oldFiles).site = shortSite oldFiles :=
  (built_freshlyBuilt_old.upToDate (inMemory_stamps oldFiles)).site

theorem notices_quiet :
    Quiet (Informs shortClass) (built oldFiles)
      (.edit (inMemory newFiles) :: notices ++ [.refresh]) := by
  have hup := built_freshlyBuilt_old.upToDate (inMemory_stamps oldFiles)
  have hq : Quiet (fun _ _ => True) (built oldFiles)
      (.edit (inMemory newFiles) :: (notices ++ [.refresh])) := by
    decide +kernel
  obtain ⟨-, hraise, hcalm, hrest⟩ := hq
  have hsite : ((built oldFiles).next (.edit (inMemory newFiles))).site = shortSite newFiles := by
    show (built oldFiles).site.edited (inMemory newFiles) = _
    rw [built_old_site]
    rfl
  have hedit : Informs shortClass (built oldFiles) (.edit (inMemory newFiles)) := by
    refine ⟨inMemory_stamps newFiles, ?_⟩
    rw [built_old_site]
    exact shortSite_sorted newFiles
  have hoffers : ∀ {cls p x}, p ∈ newFiles.map (·.1) ∧ p.names.head? = some (shortPattern cls) →
      (shortSite newFiles).load cls p = .ok x → x.fits cls = true →
      ∃ x, (shortSite newFiles).Offers cls p x :=
    fun hf hl hfit => ⟨_, shortSite_finds.mpr hf, hl, hfit⟩
  refine ⟨hedit, hraise, hcalm, quiet_informs (next_undisturbed hup.healthy.undisturbed (by simp))
    hrest ?_⟩
  rw [hsite]
  intro m hm
  have hm' : m ∈ notices ++ [.refresh] := hm
  simp only [notices, List.cons_append, List.nil_append, List.mem_cons, List.not_mem_nil, or_false]
    at hm'
  rcases hm' with rfl | rfl | rfl | rfl
  · exact .inr ⟨_, _, rfl, rfl, (fun h => by cases h), fun _ => hoffers (by decide) rfl rfl⟩
  · refine .inr ⟨_, _, rfl, rfl, fun _ hf => ?_, fun h => absurd rfl h⟩
    exact absurd (shortSite_finds.mp hf) (by decide)
  · exact .inr ⟨_, _, rfl, rfl, (fun h => by cases h), fun _ => hoffers (by decide) rfl rfl⟩
  · exact .inl rfl

theorem notices_tellsAll : (built oldFiles).TellsAll (.edit (inMemory newFiles) :: notices) := by
  intro before w later p hms hp
  cases before with
  | nil =>
    obtain ⟨hw, rfl⟩ := List.cons.inj hms
    cases hw
    rw [after_nil, built_old_site] at hp
    by_contra hno
    have hne : p ≠ shortPath 's' 'a' ∧ p ≠ shortPath 'f' 'b' ∧ p ≠ shortPath 'f' 'c' := by
      refine ⟨?_, ?_, ?_⟩ <;> rintro rfl
      · exact hno ⟨{ cls := .definition, kind := .changed }, by simp [notices]⟩
      · exact hno ⟨{ cls := .feature, kind := .deleted }, by simp [notices]⟩
      · exact hno ⟨{ cls := .feature, kind := .created }, by simp [notices]⟩
    refine hp (shortSite_sameFile ?_ ?_)
    · simp [oldFiles, newFiles, hne]
    · simp [oldFiles, newFiles, List.lookup_cons, beq_false_of_ne hne.1, beq_false_of_ne hne.2.1,
        beq_false_of_ne hne.2.2]
  | cons m before =>
    have hmem : Move.edit w ∈ notices := by
      rw [(List.cons.inj hms).2]
      simp
    simp [notices] at hmem

def refreshed : Keeper :=
  (built oldFiles).after (.edit (inMemory newFiles) :: notices ++ .refresh :: flushCourse)

theorem refreshed_eq_rebuilt_notices :
    refreshed.catalog.results.map (·.found.length) = [0, 1] ∧
    (∀ p, refreshed.catalog.features.get? p = (built newFiles).catalog.features.get? p) ∧
    (∀ p, refreshed.catalog.definitions.get? p = (built newFiles).catalog.definitions.get? p) ∧
    Catalog.SameResults refreshed.catalog.results (built newFiles).catalog.results := by
  refine ⟨by decide +kernel, ?_⟩
  exact refreshed_eq_rebuilt (inMemory_stamps oldFiles) (shortSite_sorted oldFiles)
    built_freshlyBuilt_old notices_quiet
    notices_tellsAll (by decide +kernel) (by decide +kernel) built_freshlyBuilt_new

end Keeper
end StepAtlas
