import StepAtlas.Proofs.Keeper.History

/-
How files come into the catalog, and what keeps excluded ones out.

There are two ways in.  A run that builds the catalog looks for files, and a search brings none that
the excluding patterns fit; the patterns are those of the settings at the time at which the run took
the lock.  A run that applies changes asks nobody: a change of a file that is excluded is entered
like any other.

`Point.Clean` is what the first way keeps up, from the search to the publication.  `listed_excluded`
puts both together: a file that is listed and excluded was entered by a change since the last
publication, or the patterns were others when the run that published last took the lock.
-/

namespace StepAtlas

/-- Whether one of some patterns fits a path as it is seen from a folder above it. -/
def Path.isExcluded (p root : Path) (exclude : List Text) : Bool :=
  match p.relativeTo? root with
  | some below => Glob.fitsAny exclude (Text.join "/" below.names)
  | none => false

/-- A search brings no file that its excluding patterns fit. -/
def Workspace.Honors (w : Workspace) (root : Path) : Prop :=
  ∀ pattern exclude files, w.find pattern exclude = .ok files →
  ∀ p ∈ files, p.isExcluded root exclude = false

/-! ## Searches on a disk -/

theorem exists_of_mapM_ok {α β : Type} {f : α → Except Fault β} {as : List α} {bs : List β}
    (h : as.mapM f = .ok bs) {b : β} (hb : b ∈ bs) : ∃ a ∈ as, f a = .ok b := by
  induction as generalizing bs with
  | nil =>
    rw [List.mapM_nil, pure_eq_ok_iff] at h
    subst h
    cases hb
  | cons a as ih =>
    rw [List.mapM_cons, bind_eq_ok_iff] at h
    obtain ⟨b', hb', h⟩ := h
    obtain ⟨bs', hbs', h⟩ := bind_eq_ok_iff.mp h
    rw [pure_eq_ok_iff] at h
    subst h
    rcases List.mem_cons.mp hb with rfl | hb
    · exact ⟨a, List.mem_cons_self, hb'⟩
    · obtain ⟨a', ha', hf⟩ := ih hbs' hb
      exact ⟨a', List.mem_cons_of_mem a ha', hf⟩

theorem Disk.not_fitsAny_of_filesOf {top : FileTree} {folder : List Text} {exclude : List Text}
    {pattern : Text} {files : List (List Text)} (h : filesOf top folder exclude pattern = .ok files)
    {names : List Text} (hn : names ∈ files) :
    Glob.fitsAny exclude (Text.join "/" names) = false := by
  unfold filesOf at h
  obtain ⟨answer, -, h⟩ := bind_eq_ok_iff.mp h
  cases answer with
  | ok found =>
    cases h
    simpa using (List.mem_filter.mp hn).2
  | error words =>
    obtain ⟨u, -, h⟩ := bind_eq_ok_iff.mp h
    cases h
    cases hn

theorem Path.isExcluded_append (root : Path) (names : List Text) (exclude : List Text) :
    Path.isExcluded { root with names := root.names ++ names } root exclude =
      Glob.fitsAny exclude (Text.join "/" names) := by
  simp [isExcluded, relativeTo?, below?_append]

theorem Workspace.ofDisk_honors (languages : List Gherkin.Language) (d : Disk) (root : Path) :
    (ofDisk languages d root).Honors root := by
  intro pattern exclude files h p hp
  change d.scan root exclude pattern = .ok files at h
  unfold Disk.scan at h
  split at h
  · obtain ⟨found, hfound, h⟩ := bind_eq_ok_iff.mp h
    rw [pure_eq_ok_iff] at h
    subst h
    rw [Path.sort, List.mem_mergeSort, List.mem_map] at hp
    obtain ⟨names, hnames, rfl⟩ := hp
    rw [List.mem_eraseDups, List.mem_flatten] at hnames
    obtain ⟨part, hpart, hn⟩ := hnames
    obtain ⟨plain, -, hf⟩ := exists_of_mapM_ok hfound hpart
    rw [Path.isExcluded_append]
    exact Disk.not_fitsAny_of_filesOf hf hn
  · rw [pure_eq_ok_iff] at h
    subst h
    cases hp

/-! ## Clean drafts -/

/-- A draft and the files that wait to be entered hold nothing that its settings exclude. -/
structure Draft.Clean (root : Path) (d : Draft) (files : List Path) : Prop where
  staged : ∀ cls p x, d.staged.listed? cls p = some x →
    p.isExcluded root d.settings.excludeGlobs = false
  files : ∀ p ∈ files, p.isExcluded root d.settings.excludeGlobs = false

/-- The draft of a run is clean, with all files that it has found, is loading or is still to
load. -/
def Point.Clean (root : Path) (loads : List Load) : Point → Prop
  | .searching d found _ _ => d.Clean root found
  | .loading d g rest => d.Clean root rest ∧
      ∀ j ∈ g.loads, ∃ l, loads[j]? = some l ∧
      l.path.isExcluded root d.settings.excludeGlobs = false
  | .yielding d rest => d.Clean root rest
  | _ => True

theorem Point.Clean.mono {root : Path} {loads loads' : List Load} {p : Point}
    (h : p.Clean root loads)
    (hpath : ∀ (j : Nat) (l : Load), loads[j]? = some l → ∃ l' : Load, loads'[j]? = some l' ∧
      l'.path = l.path) :
    p.Clean root loads' := by
  cases p with
  | loading d g rest =>
    refine ⟨h.1, fun j hj => ?_⟩
    obtain ⟨l, hl, hclean⟩ := h.2 j hj
    obtain ⟨l', hl', hp⟩ := hpath j l hl
    exact ⟨l', hl', hp ▸ hclean⟩
  | _ => exact h

theorem Point.Clean.stays {root : Path} {loads : List Load} {p q : Point} (h : p.Clean root loads)
    (hs : p.Stays q) :
    q.Clean root loads := by
  cases hs with
  | same => exact h
  | @group g g' hg hd hl =>
    cases p with
    | loading d g₀ rest =>
      cases hg
      refine ⟨h.1, fun j hj => h.2 j ?_⟩
      rw [← hl]
      exact hj
    | applying | created | queued | sleeping | finished => trivial
    | searching | yielding => exact h

theorem Point.Clean.draft {root : Path} {loads : List Load} {p : Point} (h : p.Clean root loads)
    {d : Draft} (hd : p.draft? = some d) {cls : FileClass} {q : Path} {x : Loaded}
    (hx : d.staged.listed? cls q = some x) :
    q.isExcluded root d.settings.excludeGlobs = false := by
  cases p with
  | searching | yielding =>
    cases hd
    exact h.staged cls q x hx
  | loading =>
    cases hd
    exact h.1.staged cls q x hx
  | _ => cases hd

/-- Entering a file touches the entries of this file alone. -/
theorem Catalog.of_listed?_stage {c before : Catalog} {cls cls' : FileClass} {p q : Path}
    {l x : Loaded} (h : (c.stage before cls p l).listed? cls' q = some x) :
    c.listed? cls' q = some x ∨ q = p := by
  by_cases hq : q = p
  · exact .inr hq
  · left
    rw [← h]
    cases cls <;> cases l <;> cases cls' <;> try rfl
    · simp [stage, listed?, setFeature, PathMap.get?_set, hq]
    · cases hb : before.features.get? p <;>
        simp [stage, listed?, setFeature, PathMap.get?_set, hq, hb]
    · cases hb : before.features.get? p <;> simp [stage, listed?, setFeature, hb]
    · simp [stage, listed?, setDefinitions, PathMap.get?_set, hq]
    · cases hb : before.definitions.get? p <;> simp [stage, listed?, setDefinitions, hb]
    · cases hb : before.definitions.get? p <;>
        simp [stage, listed?, setDefinitions, PathMap.get?_set, hq, hb]

/-- A file that is listed after changes was listed before, or one of them is of this file and does
not delete it. -/
theorem Catalog.of_listed?_applyChanges {changes : List (Path × Change × Loaded)} {c : Catalog}
    {cls : FileClass} {p : Path} {x : Loaded}
    (h : (c.applyChanges changes).listed? cls p = some x) :
    (∃ y, c.listed? cls p = some y) ∨
      ∃ change l, (p, change, l) ∈ changes ∧ change.cls = cls ∧ change.kind ≠ .deleted := by
  induction changes generalizing c with
  | nil => exact .inl ⟨x, h⟩
  | cons e rest ih =>
    obtain ⟨q, change, l⟩ := e
    rcases ih h with ⟨y, hy⟩ | ⟨change', l', hmem, hrest⟩
    · rw [listed?_applyChange] at hy
      split at hy
      · rename_i hq
        obtain ⟨rfl, rfl⟩ := hq
        split at hy
        · cases hy
        · rename_i hkind
          exact .inr ⟨change, l, List.mem_cons_self, rfl, hkind⟩
      · exact .inl ⟨y, hy⟩
    · exact .inr ⟨change', l', List.mem_cons_of_mem _ hmem, hrest⟩

namespace Keeper

def CleanAt (k : Keeper) (root : Path) (id : Nat) : Prop :=
  ∀ p, k.point? id = some p → p.Clean root k.loads

section
variable {k : Keeper} {root : Path} {id : Nat} {r : Run} (hr : k.runs[id]? = some r)

include hr

theorem CleanAt.wait {p : Point} (hp : p.Clean root k.loads) : (k.wait id p).CleanAt root id := by
  intro q hq
  rw [point?_wait_self hr] at hq
  cases hq
  exact hp

theorem CleanAt.giveUp (result : Except Stop Bool) : (k.giveUp id result).CleanAt root id := by
  intro q hq
  rw [point?_giveUp_self hr] at hq
  cases hq
  trivial

theorem CleanAt.leave (result : Except Stop Bool) : (k.leave id result).CleanAt root id := by
  intro q hq
  rw [point?_leave_self hr] at hq
  cases hq
  trivial

theorem complete_clean (d : Draft) : (k.complete id d).CleanAt root id := by
  unfold complete
  split
  · exact .giveUp hr _
  · split
    · rename_i c _
      obtain ⟨told, subscriptions, he⟩ := publish_eq k id c
      rw [he]
      exact CleanAt.wait (k := { k with .. }) hr trivial
    · exact .giveUp hr _

theorem loadGroup_clean {next : Keeper → Keeper} {d : Draft} {files : List Path}
    (hd : d.Clean root files) (hnext : (next k).CleanAt root id) :
    (loadGroup next k id d files).CleanAt root id := by
  unfold loadGroup
  split
  · exact hnext
  · split
    · exact .giveUp hr _
    · refine CleanAt.wait (k := (k.startLoads id _).1) hr ⟨⟨hd.staged, ?_⟩, ?_⟩
      · intro p hp
        exact hd.files p (List.mem_of_mem_drop hp)
      · intro j hj
        have hgroup :=
          startLoads_group k id ((files.take k.groupSize).map fun p => (p, d.cls, false))
        obtain ⟨file, hfile, hl⟩ := exists_of_forall₂_right hgroup hj
        obtain ⟨p, hp, rfl⟩ := List.mem_map.mp hfile
        exact ⟨_, hl, hd.files p (List.mem_of_mem_take hp)⟩

def Search.Clean (root : Path) (exclude : List Text) : Search → Prop
  | .waits found _ _ | .done found => ∀ p ∈ found, p.isExcluded root exclude = false
  | .failed _ => True

theorem searched_clean {next : Keeper → Nat → Draft → List Path → Keeper} {d : Draft}
    {search : Search} (hd : d.Clean root []) (hs : search.Clean root d.settings.excludeGlobs)
    (hnext : ∀ files, d.Clean root files → (next k id d files).CleanAt root id) :
    (searched next k id d search).CleanAt root id := by
  cases search with
  | waits found pattern rest => exact .wait hr ⟨hd.staged, hs⟩
  | done files =>
    rw [searched]
    split
    · exact .giveUp hr _
    · exact hnext files ⟨hd.staged, hs⟩
  | failed fault => exact .giveUp hr _

theorem loadDefinitions_clean {d : Draft} {files : List Path} (hd : d.Clean root files) :
    (k.loadDefinitions id d files).CleanAt root id :=
  loadGroup_clean hr hd (complete_clean hr d)

variable (hw : k.workspace.Honors root)

include hw

omit hr in
theorem addNew_clean {exclude : List Text} {pattern : Text} {found new : List Path}
    (hf : ∀ p ∈ found, p.isExcluded root exclude = false)
    (h : k.workspace.find pattern exclude = .ok new) :
    ∀ p ∈ Workspace.addNew found new, p.isExcluded root exclude = false := by
  intro p hp
  rw [Workspace.addNew_eq, List.mem_append, List.mem_eraseDups] at hp
  rcases hp with hp | hp
  · exact hf p hp
  · exact hw pattern exclude new h p (List.mem_filter.mp hp).1

omit hr in
theorem searchFrom_clean {exclude : List Text} {found : List Path} (patterns : List Text)
    (hf : ∀ p ∈ found, p.isExcluded root exclude = false) :
    (k.searchFrom exclude found patterns).Clean root exclude := by
  induction patterns generalizing found with
  | nil => exact hf
  | cons pattern rest ih =>
    rw [searchFrom]
    split
    · exact hf
    · split
      · rename_i new hnew
        exact ih (addNew_clean hw hf hnew)
      · trivial

theorem searchDefinitions_clean {d : Draft} (hd : d.Clean root []) :
    (k.searchDefinitions id d).CleanAt root id :=
  searched_clean hr ⟨hd.staged, hd.files⟩ (searchFrom_clean hw _ fun _ hp => by cases hp)
    fun _ hfiles => loadDefinitions_clean hr hfiles

theorem loadFeatures_clean {d : Draft} {files : List Path} (hd : d.Clean root files) :
    (k.loadFeatures id d files).CleanAt root id :=
  loadGroup_clean hr hd (searchDefinitions_clean hr hw ⟨hd.staged, fun _ hp => by cases hp⟩)

theorem loadFiles_clean {d : Draft} {files : List Path} (hd : d.Clean root files) :
    (k.loadFiles id d files).CleanAt root id := by
  unfold loadFiles
  split
  · exact loadFeatures_clean hr hw hd
  · exact loadDefinitions_clean hr hd

theorem beginDraft_clean : (k.beginDraft id).CleanAt root id := by
  unfold beginDraft
  split
  · exact .giveUp hr _
  · refine searched_clean hr ⟨?_, fun _ hp => by cases hp⟩
      (searchFrom_clean hw _ fun _ hp => by cases hp)
      fun _ hfiles => loadFeatures_clean hr hw hfiles
    intro cls p x hx
    cases cls <;> cases hx

theorem resumeSearch_clean {d : Draft} {found : List Path} (pattern : Text) (rest : List Text)
    (hd : d.Clean root found) : (k.resumeSearch id d found pattern rest).CleanAt root id := by
  unfold resumeSearch
  split
  · rename_i new hnew
    exact searched_clean hr ⟨hd.staged, fun _ hp => by cases hp⟩
      (searchFrom_clean hw rest (addNew_clean hw hd.files hnew)) fun _ hfiles =>
        loadFiles_clean hr hw hfiles
  · exact .giveUp hr _

omit hr hw in
/-- The files of a group are entered under their own paths. -/
theorem enterLoads_clean {d : Draft} {g : Group} {rest : List Path}
    (h : (Point.loading d g rest).Clean root k.loads) : (k.enterLoads d g).Clean root rest := by
  refine ⟨?_, h.1.files⟩
  have hstaged := h.1.staged
  have hgroup := h.2
  unfold enterLoads
  dsimp only
  generalize d.staged = c at hstaged
  generalize g.loads = js at hgroup
  induction js generalizing c with
  | nil => exact hstaged
  | cons j js ih =>
    rw [List.foldl_cons]
    refine ih _ ?_ fun j' hj' => hgroup j' (List.mem_cons_of_mem j hj')
    obtain ⟨l, hl, hclean⟩ := hgroup j List.mem_cons_self
    intro cls p x hx
    rw [hl] at hx
    rcases Catalog.of_listed?_stage hx with hx | rfl
    · exact hstaged cls p x hx
    · exact hclean

omit hw in
theorem enterGroup_clean {d : Draft} {g : Group} {rest : List Path}
    (h : (Point.loading d g rest).Clean root k.loads) :
    (k.enterGroup id d g rest).CleanAt root id := by
  unfold enterGroup
  split
  · exact .giveUp hr _
  · split
    · exact .giveUp hr _
    · exact CleanAt.wait hr (p := .yielding (k.enterLoads d g) rest) (enterLoads_clean h)

theorem enter_clean (job : Job) : (k.enter id job).CleanAt root id := by
  have hrefresh : (k.beginRefresh id).CleanAt root id := by
    unfold beginRefresh
    dsimp only
    split
    · exact CleanAt.leave (k := { k with pending := .empty }) hr _
    · exact CleanAt.wait (k := ({ k with pending := .empty }.startLoads id _).1) hr
        (p := .applying _ _) trivial
  cases job with
  | rebuild | startUp => exact beginDraft_clean hr hw
  | refresh | delayedRefresh => exact hrefresh

theorem lockFor_clean (job : Job) : (k.lockFor id job).CleanAt root id := by
  unfold lockFor
  split
  · exact enter_clean (k := { k with locked := true }) hr hw job
  · exact CleanAt.wait (k := { k with queue := _ }) hr trivial

theorem begin_clean (hpoint : r.point = .created) : (k.begin id r.job).CleanAt root id := by
  rcases begin_cases k id hpoint with ⟨k₀, ha, he⟩ | ⟨-, he⟩
  · obtain ⟨superseded, hr'⟩ := ha.run hr
    have hw' : k₀.workspace = k.workspace := ha.frame.workspace
    rw [he]
    exact lockFor_clean hr' (hw' ▸ hw) _
  · rw [he]
    exact CleanAt.wait (k := { k with ready := _ }) hr trivial

omit hw in
theorem applyChanges_clean (changes : PathMap Change) (g : Group) :
    (k.applyChanges id changes g).CleanAt root id := by
  unfold applyChanges
  split
  · exact .leave hr _
  · split
    · exact .leave hr _
    · dsimp only
      split
      · rename_i c fault _
        exact CleanAt.leave (k := { k with catalog := c }) hr _
      · rename_i c _
        obtain ⟨told, fault, ha⟩ := announce_eq { k with catalog := c }.unlock
        rw [ha, unlock_eq]
        cases fault with
        | none => exact CleanAt.wait (k := { k with .. }) hr trivial
        | some fault => exact CleanAt.wait (k := { k with .. }) hr trivial

/-- The turn of a run keeps its draft clean. -/
theorem takeRun_clean (hp : r.point.Clean root k.loads) : (k.takeRun id r).CleanAt root id := by
  have hfinish : ∀ {k' : Keeper} {result}, k'.runs[id]? = some r →
      (k'.finish id result).CleanAt root id :=
    fun hr' => CleanAt.wait hr' trivial
  unfold takeRun
  cases hpoint : r.point with
  | finished result =>
    intro q hq
    rw [point?_of_run hr, hpoint] at hq
    cases hq
    trivial
  | created =>
    dsimp only
    split
    · exact hfinish hr
    · exact begin_clean hr hw hpoint
  | queued =>
    dsimp only
    split
    · refine hfinish ?_
      split
      · exact hr
      · rw [wakeQueue_eq]
        exact hr
    · exact enter_clean (k := { k with queue := _, locked := true }) hr hw _
  | searching d found pattern rest =>
    dsimp only
    rw [hpoint] at hp
    split
    · exact .giveUp hr _
    · exact resumeSearch_clean hr hw pattern rest hp
  | loading d g rest =>
    dsimp only
    rw [hpoint] at hp
    split
    · exact .giveUp hr _
    · exact enterGroup_clean hr hp
  | yielding d rest =>
    dsimp only
    rw [hpoint] at hp
    split
    · exact .giveUp hr _
    · exact loadFiles_clean hr hw hp
  | applying changes g =>
    dsimp only
    split
    · exact .leave hr _
    · exact applyChanges_clean hr changes g
  | sleeping time =>
    dsimp only
    split
    · exact hfinish hr
    · exact lockFor_clean (k := { k with timer := none }) hr hw _

end

/-! ## Courses -/

theorem next_path {k : Keeper} (h : k.Undisturbed) {m : Move} (hm : m ≠ .dispose) {j : Nat}
    {l : Load} (hl : k.loads[j]? = some l) :
    ∃ l', (k.next m).loads[j]? = some l' ∧ l'.path = l.path := by
  rcases next_load h hm hl with hsame | ⟨-, htake⟩
  · exact ⟨l, hsame, rfl⟩
  · generalize k.next m = k' at htake ⊢
    cases htake with
    | rests => exact ⟨l, hl, rfl⟩
    | waits => exact ⟨{ l with point := .held }, by simp [modifyLoad, hl], rfl⟩
    | @ends es result =>
      exact ⟨{ l with point := .finished result }, by simp [finishLoad, wake, modifyLoad, hl], rfl⟩

structure Clean (root : Path) (k : Keeper) : Prop where
  honors : k.workspace.Honors root
  drafts : ∀ i, k.CleanAt root i

theorem next_clean {root : Path} {k : Keeper} (h : k.Clean root) (hu : k.Undisturbed) {m : Move}
    (hm : m ≠ .dispose) (he : ∀ w, m = .edit w → w.Honors root) : (k.next m).Clean root := by
  refine ⟨?_, fun i p hp => ?_⟩
  · by_cases hedit : ∃ w, m = .edit w
    · obtain ⟨w, rfl⟩ := hedit
      exact he w rfl
    · rw [(next_files hu hm fun w hw => hedit ⟨w, hw⟩).1]
      exact h.honors
  · obtain ⟨r', hr', rfl⟩ := Option.map_eq_some_iff.mp hp
    cases hr : k.runs[i]? with
    | none =>
      rw [next_fresh hr hr']
      trivial
    | some r =>
      have hclean : r.point.Clean root k.loads := h.drafts i r.point (point?_of_run hr)
      obtain ⟨r'', hr'', -, hstays | hgoes⟩ := next_run hr m
      · rw [hr'] at hr''
        cases hr''
        exact (hclean.stays hstays).mono fun j l hl => next_path hu hm hl
      · obtain rfl := hgoes.move
        rw [next_eq_takeRun hr hgoes.ready] at hp ⊢
        exact takeRun_clean (k := { k with ready := k.ready.erase (.run i) }) hr h.honors hclean
          _ hp

variable {k : Keeper} {ms : List Move} {root : Path}

/-- As long as the keeper is not ended every draft is clean. -/
theorem moment_clean (hk : ∀ t, (k.moment ms t).Reachable) (h : k.Clean root)
    (hms : ∀ w, Move.edit w ∈ ms → w.Honors root) {t : Nat}
    (hd : (k.moment ms t).disposed = false) :
    (k.moment ms t).Clean root := by
  induction t with
  | zero => exact h
  | succ t ih =>
    cases hm : ms[t]? with
    | none =>
      rw [moment_succ_of_none hm] at hd ⊢
      exact ih hd
    | some m =>
      rw [moment_succ hm] at hd ⊢
      obtain ⟨hne, hd₀⟩ := next_disposed_eq_false.mp hd
      refine next_clean (ih hd₀) ((hk t).undisturbed hd₀) hne fun w hw => hms w ?_
      rw [← hw]
      exact List.mem_of_getElem? hm

/-- A change of a file is applied, and the file is there. -/
def EntersAt (k : Keeper) (ms : List Move) (v : Nat) (cls : FileClass) (p : Path) : Prop :=
  ∃ i changes change, k.AppliesAt ms i v changes ∧ changes.get? p = some change ∧ change.cls = cls ∧
    change.kind ≠ .deleted

/-- A run takes the lock at one time and publishes at another. -/
def BuiltFrom (k : Keeper) (ms : List Move) (s t : Nat) : Prop :=
  ∃ i, s ≤ t ∧ ms[s]? = some (.turn (.run i)) ∧ (k.moment ms s).Begins i ∧ k.PublishedAt ms i t

def NonePublished (k : Keeper) (ms : List Move) (t u : Nat) : Prop :=
  ∀ i v, t < v → v < u → ¬ k.PublishedAt ms i v

theorem NonePublished.succ {t u : Nat} (h : k.NonePublished ms t u)
    (hu : ∀ i, ¬ k.PublishedAt ms i u) :
    k.NonePublished ms t (u + 1) := by
  intro i v htv hvu
  rcases Nat.lt_succ_iff_lt_or_eq.mp hvu with hlt | rfl
  · exact h i v htv hlt
  · exact hu i

/-- How a file came to be listed: by a change since the last publication, or by this publication,
whose run found settings that do not exclude it. -/
def Sourced (k : Keeper) (ms : List Move) (root : Path) (u : Nat) (cls : FileClass) (p : Path) :
    Prop :=
  (∃ v, v < u ∧ k.EntersAt ms v cls p ∧ k.NonePublished ms v u) ∨
    ∃ s t, t < u ∧ k.BuiltFrom ms s t ∧ k.NonePublished ms t u ∧
      p.isExcluded root (k.moment ms s).settings.excludeGlobs = false

theorem Sourced.succ {u : Nat} {cls : FileClass} {p : Path} (h : k.Sourced ms root u cls p)
    (hu : ∀ i, ¬ k.PublishedAt ms i u) : k.Sourced ms root (u + 1) cls p := by
  rcases h with ⟨v, hv, he, hn⟩ | ⟨s, t, ht, hb, hn, hx⟩
  · exact .inl ⟨v, Nat.lt_succ_of_lt hv, he, hn.succ hu⟩
  · exact .inr ⟨s, t, Nat.lt_succ_of_lt ht, hb, hn.succ hu, hx⟩

/-- A move that publishes nothing lists no more files than there were, but for those whose changes
it applies. -/
theorem listed_before {u : Nat} (hs : (k.moment ms u).Suited) (hu : ∀ i, ¬ k.PublishedAt ms i u)
    {cls : FileClass} {p : Path} {x : Loaded}
    (hx : (k.moment ms (u + 1)).catalog.listed? cls p = some x) :
    (∃ y, (k.moment ms u).catalog.listed? cls p = some y) ∨ k.EntersAt ms u cls p := by
  have hsame : (k.moment ms u).catalog.SameEntries (k.moment ms (u + 1)).catalog →
      ∃ y, (k.moment ms u).catalog.listed? cls p = some y :=
    fun h => ⟨x, by rw [← Catalog.listed?_congr h.features h.definitions]; exact hx⟩
  cases hm : ms[u]? with
  | none =>
    rw [moment_succ_of_none hm] at hx
    exact .inl ⟨x, hx⟩
  | some m =>
    have ha := next_alters hs m
    rw [← moment_succ hm] at ha
    generalize hk' : k.moment ms (u + 1) = k' at ha hx hsame
    cases ha with
    | keeps h =>
      exact .inl (hsame ⟨congrArg (·.catalog.features) h, congrArg (·.catalog.definitions) h⟩)
    | edits w => exact .inl ⟨x, hx⟩
    | switches mode => exact .inl (hsame (switchMode_sameEntries _ mode))
    | resets changes => exact .inl (hsame (changeSettings_sameEntries _ changes))
    | publishes h => exact absurd ⟨hm, hk'.symm ▸ h⟩ (hu _)
    | @applies i changes g fault _ happ h =>
      obtain ⟨hf, hd⟩ := Catalog.entries_of_refresh h
      rw [Catalog.listed?_congr hf hd] at hx
      rcases Catalog.of_listed?_applyChanges hx with hbefore | ⟨change, l, hmem, hcls, hkind⟩
      · exact .inl hbefore
      · obtain ⟨⟨⟨q, change'⟩, j⟩, hj, he⟩ := List.mem_map.mp hmem
        simp only [Prod.mk.injEq] at he
        have hget : changes.get? p = some change := by
          rw [← he.1, ← he.2.1]
          exact PathMap.mem_entries_iff.mp (List.of_mem_zip hj).1
        exact .inr ⟨i, changes, change, ⟨hm, g, happ⟩, hget, hcls, hkind⟩

section
variable (hk : ∀ t, (k.moment ms t).Reachable) (h₀ : k.runs = []) (h : k.Clean root)
  (hms : ∀ w, Move.edit w ∈ ms → w.Honors root)

include hk h₀ h hms

/-- What a run publishes was admitted by the settings of the time at which it took the lock. -/
theorem PublishedAt.sourced {i u : Nat} (hp : k.PublishedAt ms i u) {cls : FileClass} {p : Path}
    {x : Loaded} (hx : (k.moment ms (u + 1)).catalog.listed? cls p = some x) :
    k.Sourced ms root (u + 1) cls p := by
  have hdis : (k.moment ms u).disposed = false :=
    moment_not_disposed (Nat.le_succ u) (hp.not_disposed (hk u).standing)
  obtain ⟨r, c, hr, -, -, hre, hcatalog⟩ := hp.2.staged
  have hstaged : r.staged.listed? cls p = some x := by
    have hst : r.staged.Stamped := (hk u).stamped.staged hr
    obtain ⟨hf, hd⟩ := Catalog.features_of_rematch hre
    rw [hcatalog, Catalog.published_eq (Catalog.rematch_stamped hst hre),
      Catalog.listed?_congr hf hd] at hx
    exact hx
  cases hd : r.point.draft? with
  | none =>
    rw [Run.staged_of_draft?_eq_none hd] at hstaged
    cases cls <;> cases hstaged
  | some d =>
    rw [Run.staged_of_draft? hd] at hstaged
    have hnone : ∀ r, (k.moment ms 0).runs[i]? = some r → r.point.draft? = none := by
      intro r hr
      have hr' : k.runs[i]? = some r := hr
      rw [h₀] at hr'
      cases hr'
    obtain ⟨s, -, hsu, hm, hb, hset⟩ := Keeper.exists_begins hk (Nat.zero_le u) hdis hnone hr hd
    refine .inr ⟨s, u, Nat.lt_succ_self u, ⟨i, Nat.le_of_lt hsu, hm, hb, hp⟩, fun _ v huv hvu =>
      by omega, ?_⟩
    rw [← hset]
    exact ((moment_clean hk h hms hdis).drafts i r.point (point?_of_run hr)).draft hd hstaged

theorem sourced (hc : k.catalog = .empty) {u : Nat} {cls : FileClass} {p : Path} {x : Loaded}
    (hx : (k.moment ms u).catalog.listed? cls p = some x) : k.Sourced ms root u cls p := by
  induction u generalizing x with
  | zero =>
    have hx' : k.catalog.listed? cls p = some x := hx
    rw [hc] at hx'
    cases cls <;> cases hx'
  | succ u ih =>
    by_cases hp : ∃ i, k.PublishedAt ms i u
    · obtain ⟨i, hp⟩ := hp
      exact hp.sourced hk h₀ h hms hx
    · have hu : ∀ i, ¬ k.PublishedAt ms i u := fun i hi => hp ⟨i, hi⟩
      rcases listed_before (hk u).suited hu hx with ⟨y, hy⟩ | henters
      · exact (ih hy).succ hu
      · exact .inl ⟨u, Nat.lt_succ_self u, henters, fun _ v huv hvu => by omega⟩

end

/-- A file that is listed although the settings exclude it was entered by a change of it since the
last publication, or the excluding patterns were others, and did not fit it, when the run that
published last took the lock. -/
theorem listed_excluded {root : Path} {w : Workspace} (hw : w.Stamps ∧ w.Honors root)
    (provider : Provider Unit) (groupSize : Nat) (limit : Int) (delay : Nat) (watchable : Bool)
    {k : Keeper} (hk : k = new w provider groupSize limit delay watchable) {ms : List Move}
    (hms : ∀ w', Move.edit w' ∈ ms → w'.Stamps ∧ w'.Honors root) {u : Nat} {cls : FileClass}
    {p : Path} {x : Loaded} (hx : (k.moment ms u).catalog.listed? cls p = some x)
    (hex : p.isExcluded root (k.moment ms u).settings.excludeGlobs = true) :
    (∃ v, v < u ∧ k.EntersAt ms v cls p ∧ k.NonePublished ms v u) ∨
      ∃ s t, t < u ∧ k.BuiltFrom ms s t ∧ k.NonePublished ms t u ∧
        p.isExcluded root (k.moment ms s).settings.excludeGlobs = false ∧
        (k.moment ms s).settings.excludeGlobs ≠ (k.moment ms u).settings.excludeGlobs := by
  have hreach : ∀ t, (k.moment ms t).Reachable := by
    intro t
    rw [hk]
    exact (Reachable.new hw.1 provider groupSize limit delay watchable Catalog.empty_stamped).after
      fun w' hw' => (hms w' (List.mem_of_mem_take hw')).1
  have hclean : k.Clean root := by
    rw [hk]
    exact ⟨hw.2, fun i p hp => by cases hp⟩
  rcases sourced hreach (by rw [hk]; rfl) hclean (fun w' hw' => (hms w' hw').2) (by rw [hk]; rfl)
    hx with
    hv | ⟨s, t, ht, hb, hn, hadmits⟩
  · exact .inl hv
  · refine .inr ⟨s, t, ht, hb, hn, hadmits, fun hsame => ?_⟩
    rw [hsame, hex] at hadmits
    cases hadmits

def patterned (files : List (Path × Text)) : Workspace :=
  { inMemory files with
    find := fun pattern exclude => .ok ((files.map (·.1)).filter fun p =>
      Glob.fitsAny [pattern] p.toText && !p.isExcluded default exclude) }

theorem patterned_honors (files : List (Path × Text)) : (patterned files).Honors default := by
  intro pattern exclude found h p hp
  cases h
  obtain ⟨-, hp⟩ := List.mem_filter.mp hp
  simpa using (Bool.and_eq_true_iff.mp hp).2

theorem patterned_stamps (files : List (Path × Text)) : (patterned files).Stamps :=
  inMemory_stamps files

/-- A keeper that can watch its files, for features below `f` but those with the name `d`. -/
def watching : Keeper :=
  new (patterned twoFiles) (.new .boundless default
    { shortSettings with featureGlobs := ["f/*"], definitionGlobs := ["s/*"],
                         excludeGlobs := ["**/d"] }) 20 1000 500 true

/-- The keeper starts up, and then a feature that is excluded comes into being and its change is
applied. -/
def intrusion : List Move :=
  [.listen { name := "l", fault := none }, .startUp, .turn (.run 0), .turn (.load 0),
    .turn (.report 0), .turn (.run 0), .turn (.run 0), .turn (.load 1), .turn (.report 1),
    .turn (.run 0), .turn (.run 0),
    .edit (patterned ((shortPath 'f' 'd', [.scalar 'y']) :: twoFiles)),
    .notify (shortPath 'f' 'd') { cls := .feature, kind := .created }, .refresh, .turn (.run 2),
    .turn (.load 2), .turn (.report 2), .turn (.run 2)]

theorem listed_excluded_intrusion :
    (∃ x, (watching.moment intrusion 18).catalog.listed? .feature (shortPath 'f' 'd') = some x) ∧
      (shortPath 'f' 'd').isExcluded default (watching.moment intrusion 18).settings.excludeGlobs =
        true ∧
      ∃ v, v < 18 ∧ watching.EntersAt intrusion v .feature (shortPath 'f' 'd') ∧
        watching.NonePublished intrusion v 18 := by
  have hedits : ∀ w, Move.edit w ∈ intrusion → w.Stamps ∧ w.Honors default := by
    intro w hw
    simp only [intrusion, List.mem_cons, reduceCtorEq, false_or, or_false, Move.edit.injEq,
      List.not_mem_nil] at hw
    rw [hw]
    exact ⟨patterned_stamps _, patterned_honors _⟩
  have hsame : ∀ s < 18, (watching.moment intrusion s).settings.excludeGlobs =
      (watching.moment intrusion 18).settings.excludeGlobs := by decide +kernel
  have hex : (shortPath 'f' 'd').isExcluded default
      (watching.moment intrusion 18).settings.excludeGlobs = true := by
    decide +kernel
  obtain ⟨x, hx⟩ : ∃ x,
      (watching.moment intrusion 18).catalog.listed? .feature (shortPath 'f' 'd') = some x :=
    Option.isSome_iff_exists.mp (by decide +kernel)
  refine ⟨⟨x, hx⟩, hex, ?_⟩
  rcases listed_excluded ⟨patterned_stamps _, patterned_honors _⟩ _ 20 1000 500 true rfl hedits hx
    hex with
    hv | ⟨s, t, ht, ⟨i, hst, -⟩, -, -, hother⟩
  · exact hv
  · exact absurd (hsame s (by omega)) hother

/-- The change comes through a subscription whose patterns fit the file, and with the move that
calls the listener the file is listed although it is excluded. -/
theorem intrusion_lists_excluded :
    (∃ watch ∈ (watching.moment intrusion 12).watches,
        watch.cls = .feature ∧ Glob.fitsAny watch.globs (shortPath 'f' 'd').toText = true) ∧
      (watching.moment intrusion 12).fire (shortPath 'f' 'd')
          { cls := .feature, kind := .created } =
        watching.moment intrusion 13 ∧
      (watching.moment intrusion 18).events =
        (watching.moment intrusion 17).events ++ [.called "l"] ∧
      (watching.moment intrusion 18).catalog.features.contains (shortPath 'f' 'd') = true ∧
      (shortPath 'f' 'd').isExcluded default (watching.moment intrusion 18).settings.excludeGlobs =
        true := by
  have hwatches : (watching.moment intrusion 12).watches.filter (·.cls = .feature) =
      [{ globs := ["f/*"], cls := .feature }] := by decide +kernel
  refine ⟨⟨{ globs := ["f/*"], cls := .feature }, ?_, rfl, by decide +kernel⟩, ?_,
    by decide +kernel, by decide +kernel, by decide +kernel⟩
  · exact (List.mem_filter.mp (hwatches ▸ List.mem_singleton_self _)).1
  · rw [fire, hwatches]
    rfl

end Keeper
end StepAtlas
