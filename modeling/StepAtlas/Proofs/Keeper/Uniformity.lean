import StepAtlas.Proofs.Keeper.History
import StepAtlas.Proofs.Keeper.Isolation

/-
Whether all stored results were found in one mode.

A change of the settings that leads to other files takes over their mode at once, and leaves the
results to a run that will build the catalog.  Until that run, or something else that matches all
steps, the catalog is adrift: its results are those of the mode before.  If changes of features are
applied in that time, then the steps of these features alone are matched in the new mode, and no
mode is left that all results agree with.

`uniform_or_adrift` says that this is the only way to such a state: at every moment of a course in
which nothing fails the results are those of the present mode, or the catalog is adrift, and then
they are those of the mode before unless features were patched meanwhile.
-/

namespace StepAtlas

namespace Catalog

/-- Each stored result is what matching its step against all definitions in a mode brings. -/
def UniformIn (matcher : Matcher) (c : Catalog) : Prop :=
  ∀ r ∈ c.results, matchStep matcher c.allDefinitions r.step = .ok r

instance (matcher : Matcher) (c : Catalog) : Decidable (c.UniformIn matcher) :=
  inferInstanceAs (Decidable (∀ r ∈ c.results, matchStep matcher c.allDefinitions r.step = .ok r))

theorem Coherent.uniformIn {matcher : Matcher} {c : Catalog} (h : c.Coherent matcher) :
    c.UniformIn matcher := by
  intro r hr
  obtain ⟨f, hf⟩ := PathMap.contains_iff.mp (h.indexed r hr)
  have hmem : r ∈ c.results.filter fun x => x.step.source = r.step.source :=
    List.mem_filter.mpr ⟨hr, by simp⟩
  obtain ⟨s, -, hs⟩ :=
    Keeper.exists_of_forall₂_right (matchSteps_eq_ok_iff.mp (h.results _ f hf)) hmem
  rw [step_of_matchStep hs]
  exact hs

/-- A refresh that touches a definition matches every step. -/
theorem refresh_coherent_of_definition {matcher : Matcher} {changes : List (Path × Change × Loaded)}
    {c c' : Catalog} (hs : c.Stamped) (hl : ∀ e ∈ changes, e.2.2.StampedBy e.1)
    {e : Path × Change × Loaded} (he : e ∈ changes) (hd : e.2.1.cls = .definition)
    (h : c.refresh matcher changes = (c', none)) : c'.Coherent matcher := by
  rw [refresh_eq, if_pos (List.any_eq_true.mpr ⟨e, he, by simpa using hd⟩)] at h
  cases hr : (c.applyChanges changes).rematch matcher with
  | error fault => rw [hr] at h; cases h
  | ok c₁ =>
    rw [hr] at h
    cases h
    exact rematch_coherent (applyChanges_stamped hs hl) hr

end Catalog

namespace Keeper

/-! ## Moves that match every step -/

inductive Resets (k k' : Keeper) : Prop where
  | keeps (hc : k'.catalog = k.catalog) (hm : k'.matcher = k.matcher)
      (hs : k'.settings.mode = k.settings.mode)
  /-- The settings lead to other files, which are left to a later run. -/
  | redirects (hc : k'.catalog = k.catalog) (hm : k'.matcher.machine = k.matcher.machine)
      (hs : k.settings.sameFiles k'.settings = false)
  | rematches (h : k.catalog.rematch k'.matcher = .ok k'.catalog)

theorem settingsChanged_resets {k : Keeper} (hok : k.settingsChanged.2 = none) :
    Resets k k.settingsChanged.1 ∧
      k.settingsChanged.1.settings = k.settingsChanged.1.provider.settings := by
  unfold settingsChanged at hok ⊢
  dsimp only at hok ⊢
  split
  · rename_i hfiles
    have hother : k.settings.sameFiles k.provider.settings = false := by simpa using hfiles
    unfold spawnRebuild
    split
    · exact ⟨.redirects rfl rfl hother, rfl⟩
    · exact ⟨.redirects rfl rfl hother, rfl⟩
  · rename_i hfiles
    rw [if_neg hfiles] at hok
    split
    · rename_i hm
      rw [if_pos hm] at hok
      obtain ⟨c, told, fault, hr, he⟩ | ⟨fault, hr, he⟩ :=
        switchMode_eq { k with settings := _ } k.provider.settings.mode
      · rw [he]
        exact ⟨.rematches hr, rfl⟩
      · rw [he] at hok
        cases hok
    · rename_i hm
      exact ⟨.keeps rfl rfl (not_not.mp hm), rfl⟩

/-- Whether the keeper takes over changed settings without a failure, if it listens to them. -/
def takesOverSettings (k : Keeper) (changes : List (Text × Value)) : Bool :=
  match k.provider.update changes with
  | .ok (provider, true) =>
    provider.changed.listeners.isEmpty || { k with provider }.settingsChanged.2.isNone
  | _ => true

/-- What may happen: everything, as long as features are stamped and the keeper takes over changed
settings without a failure. -/
def Smooth (k : Keeper) : Move → Prop
  | .changeSettings changes => k.takesOverSettings changes = true
  | .edit w => w.Stamps
  | _ => True

theorem changeSettings_resets {k : Keeper} {changes : List (Text × Value)}
    (hok : k.takesOverSettings changes = true) :
    Resets k (k.changeSettings changes).1 := by
  unfold takesOverSettings at hok
  unfold changeSettings
  cases hu : k.provider.update changes with
  | error fault => exact .keeps rfl rfl rfl
  | ok answer =>
    obtain ⟨provider, signalled⟩ := answer
    cases signalled with
    | false => exact .keeps rfl rfl rfl
    | true =>
      dsimp only
      cases hl : provider.changed.listeners with
      | nil => exact .keeps rfl rfl rfl
      | cons l ls =>
        -- Only the first connection sees a difference.
        have hnone : { k with provider }.settingsChanged.2 = none := by simpa [hu, hl] using hok
        obtain ⟨hresets, hsettled⟩ := settingsChanged_resets hnone
        have hp : { k with provider }.settingsChanged =
            ({ k with provider }.settingsChanged.1, none) := by
          rw [← hnone]
        rw [Signal.callAll, hp]
        dsimp only
        rw [callAll_of_fixed (fun _ => settingsChanged_of_eq hsettled) ls]
        cases hresets with
        | keeps hc hm hs => exact .keeps hc hm hs
        | redirects hc hm hs => exact .redirects hc hm hs
        | rematches h => exact .rematches h

inductive MatchesAll (k : Keeper) : Move → Prop where
  | publishes {i : Nat} (h : Publishes k i (k.next (.turn (.run i)))) :
      MatchesAll k (.turn (.run i))
  /-- A definition is among the changes that are applied. -/
  | applies {i : Nat} {changes : PathMap Change} {g : Group} (h : k.Applies i changes g)
      {e : Path × Change} (he : e ∈ changes.entries) (hd : e.2.cls = .definition) :
      MatchesAll k (.turn (.run i))
  | switches (mode : MatchMode) : MatchesAll k (.switchMode mode)
  /-- The settings change in their mode and lead to the same files. -/
  | resets {changes : List (Text × Value)}
      (hs : k.settings.sameFiles (k.next (.changeSettings changes)).settings = true)
      (hm : (k.next (.changeSettings changes)).settings.mode ≠ k.settings.mode) :
      MatchesAll k (.changeSettings changes)

theorem Calm.result?_ne {k : Keeper} (h : k.Calm) (i : Nat) (fault : Fault) :
    k.result? i ≠ some (.error (.failed fault)) := by
  intro hr
  obtain ⟨r, hr, hp⟩ := Option.map_eq_some_iff.mp (result?_eq_some_iff.mp hr)
  have hcalm := h r (List.mem_of_getElem? hr)
  rw [Run.hasFailed, hp] at hcalm
  cases hcalm

/-- What a run that applies changes makes of the catalog, if it does not fail. -/
theorem Applies.refresh_eq {k : Keeper} {i : Nat} {changes : PathMap Change} {g : Group}
    (h : k.Applies i changes g) (hcalm : (k.next (.turn (.run i))).Calm) :
    k.catalog.refresh k.matcher (k.loadedChanges changes g) =
      ((k.next (.turn (.run i))).catalog, none) := by
  obtain ⟨r, hr, hp, hc⟩ := h.run
  have ht := (goes_of_ready hr h.ready).takes
  rcases ht.refreshes_or_stops hr hp hc h.disposed with ⟨stop, hs, -⟩ | ⟨-, fault, hre, hresult⟩
  · rw [h.stop] at hs
    cases hs
  · cases fault with
    | none => exact hre
    | some fault => exact absurd hresult (hcalm.result?_ne i fault)

theorem mode_next_turn {k : Keeper} (hs : k.Suited) (t : Turn) :
    (k.next (.turn t)).matcher = k.matcher := by
  have ha := next_alters hs (.turn t)
  generalize k.next (.turn t) = k' at ha ⊢
  cases ha with
  | keeps h => exact congrArg Content.matcher h
  | publishes _ hk | applies _ _ _ hk => exact congrArg Content.matcher hk

/-- After a move that matches every step the catalog is coherent, whatever it was before. -/
theorem MatchesAll.coherent {k : Keeper} {m : Move} (h : k.MatchesAll m) (hk : k.Reachable)
    (hok : k.Smooth m) (hraise : (k.perform m).2 = none) (hcalm : (k.next m).Calm) :
    (k.next m).catalog.Coherent (k.next m).matcher := by
  have hst : k.Stamped := hk.stamped
  cases h with
  | publishes h =>
    obtain ⟨r, c, hr, -, -, hre, hc⟩ := h.staged
    have hstaged : r.staged.Stamped := hst.staged hr
    rw [mode_next_turn hk.suited, hc, Catalog.published_eq (Catalog.rematch_stamped hstaged hre)]
    exact Catalog.rematch_coherent hstaged hre
  | @applies i changes g h e he hd =>
    obtain ⟨r, hr, hp, -⟩ := h.run
    have hsound : (Point.applying changes g).Sound k.loads :=
      hp ▸ hst.points r (List.mem_of_getElem? hr)
    rw [← map_loadedChanges hsound] at he
    obtain ⟨l, hl, rfl⟩ := List.mem_map.mp he
    rw [mode_next_turn hk.suited]
    exact Catalog.refresh_coherent_of_definition hst.catalog (loadedChanges_stamped hst hsound) hl
      hd
      (h.refresh_eq hcalm)
  | switches mode =>
    obtain ⟨c, told, fault, hr, he⟩ | ⟨fault, hr, he⟩ := switchMode_eq k mode
    · have hn : k.next (.switchMode mode) =
          { k with matcher := k.matcher.inMode mode, catalog := c, events := k.events ++ told } :=
        congrArg Prod.fst he
      rw [hn]
      exact Catalog.rematch_coherent hst.catalog hr
    · have hn : (k.perform (.switchMode mode)).2 = some fault := congrArg Prod.snd he
      rw [hraise] at hn
      cases hn
  | @resets changes hs hm =>
    cases changeSettings_resets hok with
    | keeps hc hmode hsame => exact absurd hsame hm
    | redirects hc _ hother =>
      rw [show (k.changeSettings changes).1 = k.next (.changeSettings changes) from rfl, hs]
        at hother
      cases hother
    | rematches hr => exact Catalog.rematch_coherent hst.catalog hr

/-! ## Courses -/

theorem Quiet.at {allowed : Keeper → Move → Prop} {k : Keeper} {ms : List Move}
    (h : Quiet allowed k ms) {t : Nat} {m : Move} (hm : ms[t]? = some m) :
    allowed (k.moment ms t) m ∧ ((k.moment ms t).perform m).2 = none ∧
      ((k.moment ms t).next m).Calm := by
  induction ms generalizing k t with
  | nil => cases hm
  | cons first ms ih =>
    obtain ⟨hallowed, hraise, hcalm, hrest⟩ := h
    cases t with
    | zero =>
      cases hm
      exact ⟨hallowed, hraise, hcalm⟩
    | succ t => exact ih hrest hm

/-- The settings lead to other files, and the mode changes with them. -/
def DriftsAt (k : Keeper) (ms : List Move) (s : Nat) : Prop :=
  ∃ changes, ms[s]? = some (.changeSettings changes) ∧
    (k.moment ms s).settings.sameFiles (k.moment ms (s + 1)).settings = false ∧
    (k.moment ms (s + 1)).matcher.mode ≠ (k.moment ms s).matcher.mode

/-- Changes of features alone are applied, and so no other steps are matched. -/
def PatchesAt (k : Keeper) (ms : List Move) (v : Nat) : Prop :=
  ∃ i changes, k.AppliesAt ms i v changes ∧ ∀ e ∈ changes.entries, e.2.cls = .feature

/-- Since the mode changed at a time no move has matched every step. -/
structure Adrift (k : Keeper) (ms : List Move) (s u : Nat) : Prop where
  before : s < u
  drifts : k.DriftsAt ms s
  since : ∀ t m, s < t → t < u → ms[t]? = some m → ¬ (k.moment ms t).MatchesAll m

theorem Adrift.succ {k : Keeper} {ms : List Move} {s u : Nat} (h : k.Adrift ms s u)
    (hu : ∀ m, ms[u]? = some m → ¬ (k.moment ms u).MatchesAll m) : k.Adrift ms s (u + 1) := by
  refine ⟨Nat.lt_succ_of_lt h.before, h.drifts, fun t m hst htu hm => ?_⟩
  rcases Nat.lt_succ_iff_lt_or_eq.mp htu with hlt | rfl
  · exact h.since t m hst hlt hm
  · exact hu m hm

/-- The catalog is coherent in the present mode, or it is adrift, and then it is coherent in the
mode before unless it was patched. -/
def InModeAt (k : Keeper) (ms : List Move) (u : Nat) : Prop :=
  (k.moment ms u).catalog.Coherent (k.moment ms u).matcher ∨
    ∃ s, k.Adrift ms s u ∧ ((k.moment ms u).catalog.Coherent (k.moment ms s).matcher ∨
      ∃ v, s < v ∧ v < u ∧ k.PatchesAt ms v)

/-- A move that leaves the catalog alone. -/
theorem InModeAt.succ_of_catalog_eq {k : Keeper} {ms : List Move} {u : Nat} (h : k.InModeAt ms u)
    (hu : ∀ m, ms[u]? = some m → ¬ (k.moment ms u).MatchesAll m)
    (hc : (k.moment ms (u + 1)).catalog = (k.moment ms u).catalog)
    (hm : (k.moment ms (u + 1)).matcher = (k.moment ms u).matcher ∨ k.DriftsAt ms u) :
    k.InModeAt ms (u + 1) := by
  rcases h with hco | ⟨s, hs, hco | ⟨v, hsv, hvu, hv⟩⟩
  · rcases hm with hm | hdrifts
    · exact .inl (by rw [hc, hm]; exact hco)
    · refine .inr ⟨u, ⟨Nat.lt_succ_self u, hdrifts, fun t m hut htu => by omega⟩, .inl ?_⟩
      rw [hc]
      exact hco
  · exact .inr ⟨s, hs.succ hu, .inl (by rw [hc]; exact hco)⟩
  · exact .inr ⟨s, hs.succ hu, .inr ⟨v, hsv, Nat.lt_succ_of_lt hvu, hv⟩⟩

section
variable {k : Keeper} {ms : List Move} (hk : ∀ t, (k.moment ms t).Reachable)
  (hq : Quiet Smooth k ms)

include hk hq

/-- A run that applies changes of features alone keeps the catalog coherent, or it patches one that
is adrift. -/
theorem InModeAt.succ_of_applies {u i : Nat} {changes : PathMap Change} {g : Group}
    (h : k.InModeAt ms u) (hm : ms[u]? = some (.turn (.run i)))
    (ha : (k.moment ms u).Applies i changes g)
    (hu : ¬ (k.moment ms u).MatchesAll (.turn (.run i))) : k.InModeAt ms (u + 1) := by
  have hfeatures : ∀ e ∈ changes.entries, e.2.cls = .feature := by
    intro e he
    cases hcls : e.2.cls with
    | feature => rfl
    | definition => exact absurd (.applies ha he hcls) hu
  rcases h with hco | ⟨s, hs, -⟩
  · have hst := (hk u).stamped
    obtain ⟨r, hr, hp, -⟩ := ha.run
    have hsound : (Point.applying changes g).Sound (k.moment ms u).loads :=
      hp ▸ hst.points r (List.mem_of_getElem? hr)
    have hre := ha.refresh_eq (hq.at hm).2.2
    left
    rw [moment_succ hm, mode_next_turn (hk u).suited]
    exact (Catalog.refresh_coherent hst.catalog hco (loadedChanges_stamped hst hsound) hre).2
  · have hnot : ∀ m, ms[u]? = some m → ¬ (k.moment ms u).MatchesAll m := by
      intro m hm'
      rw [hm] at hm'
      cases hm'
      exact hu
    exact .inr ⟨s, hs.succ hnot,
      .inr ⟨u, hs.before, Nat.lt_succ_self u, i, changes, ⟨hm, g, ha⟩, hfeatures⟩⟩

theorem InModeAt.succ {u : Nat} (h : k.InModeAt ms u) : k.InModeAt ms (u + 1) := by
  cases hm : ms[u]? with
  | none =>
    have he : k.moment ms (u + 1) = k.moment ms u := moment_succ_of_none hm
    exact h.succ_of_catalog_eq (fun m hm' => by rw [hm] at hm'; cases hm') (by rw [he])
      (.inl (by rw [he]))
  | some m =>
    obtain ⟨hok, hraise, hcalm⟩ := hq.at hm
    have hnext : k.moment ms (u + 1) = (k.moment ms u).next m := moment_succ hm
    -- A move that matches every step settles everything; all other moves keep what was so since the
    -- last of them.
    by_cases hall : (k.moment ms u).MatchesAll m
    · left
      rw [hnext]
      exact hall.coherent (hk u) hok hraise hcalm
    · have hnot : ∀ m, ms[u]? = some m → ¬ (k.moment ms u).MatchesAll m := by
        intro m' hm'
        rw [hm] at hm'
        cases hm'
        exact hall
      have ha := next_alters (hk u).suited m
      rw [← hnext] at ha
      generalize hk' : k.moment ms (u + 1) = k' at ha
      cases ha with
      | keeps hkeeps =>
        rw [← hk'] at hkeeps
        exact h.succ_of_catalog_eq hnot (congrArg Content.catalog hkeeps)
          (.inl (congrArg Content.matcher hkeeps))
      | edits w => exact h.succ_of_catalog_eq hnot (by rw [hk']) (.inl (by rw [hk']))
      | switches mode => exact absurd (.switches mode) hall
      | publishes hp _ => exact absurd (.publishes (hnext ▸ hk' ▸ hp)) hall
      | applies hap => exact h.succ_of_applies hk hq hm hap hall
      | resets changes =>
        have hchange : k.moment ms (u + 1) = ((k.moment ms u).changeSettings changes).1 := hnext
        have hresets := changeSettings_resets hok
        rw [← hchange] at hresets
        cases hresets with
        | keeps hc hmode hs => exact h.succ_of_catalog_eq hnot hc (.inl hmode)
        | redirects hc hmachine hs =>
          refine h.succ_of_catalog_eq hnot hc ?_
          by_cases hmode : (k.moment ms (u + 1)).matcher.mode = (k.moment ms u).matcher.mode
          · exact .inl (Matcher.ext hmode hmachine)
          · exact .inr ⟨changes, hm, hs, hmode⟩
        | rematches hr =>
          left
          exact Catalog.rematch_coherent (hk u).stamped.catalog hr

end

theorem Quiet.reachable {k : Keeper} {ms : List Move} (hk : k.Reachable) (hq : Quiet Smooth k ms)
    (t : Nat) :
    (k.moment ms t).Reachable := by
  refine hk.after fun w hw => ?_
  obtain ⟨u, hu⟩ := List.mem_iff_getElem?.mp (List.mem_of_mem_take hw)
  exact (hq.at hu).1

/-- At every moment of a course in which nothing fails, each stored result is what matching its step
against all definitions in the present mode brings; or else the settings were changed in their files
and their mode together and no move has matched every step since.  Even then all results are those
of the mode before that change, unless changes of features were applied in between. -/
theorem uniform_or_adrift {w : Workspace} (hw : w.Stamps) (provider : Provider Unit)
    (groupSize : Nat) (limit : Int) (delay : Nat) (watchable : Bool) {k : Keeper}
    (hk : k = new w provider groupSize limit delay watchable) {ms : List Move}
    (h : Quiet Smooth k ms) (u : Nat) :
    (k.moment ms u).catalog.UniformIn (k.moment ms u).matcher ∨
      ∃ s, k.Adrift ms s u ∧ ((k.moment ms u).catalog.UniformIn (k.moment ms s).matcher ∨
        ∃ v, s < v ∧ v < u ∧ k.PatchesAt ms v) := by
  have hreach : k.Reachable := by
    rw [hk]
    exact .new hw provider groupSize limit delay watchable Catalog.empty_stamped
  have hin : k.InModeAt ms u := by
    induction u with
    | zero =>
      left
      rw [hk]
      exact Catalog.empty_coherent _
    | succ u ih => exact ih.succ (h.reachable hreach) h
  rcases hin with hco | ⟨s, hs, hco | hv⟩
  · exact .inl hco.uniformIn
  · exact .inr ⟨s, hs, .inl hco.uniformIn⟩
  · exact .inr ⟨s, hs, .inr hv⟩

def threeFiles : List (Path × Text) := (shortPath 'f' 'b', [.scalar 'x']) :: twoFiles

/-- The keeper starts up, and a feature changes.  While its change is being applied the settings
change in their files and their mode, and then it is applied. -/
def crossCourse : List Move :=
  [.listen { name := "l", fault := none }, .startUp, .turn (.run 0), .turn (.load 0),
    .turn (.load 1), .turn (.report 0), .turn (.report 1), .turn (.run 0), .turn (.run 0),
    .turn (.load 2), .turn (.report 2), .turn (.run 0), .turn (.run 0),
    .notify (shortPath 'f' 'a') { cls := .feature, kind := .changed }, .refresh, .turn (.run 2),
    .changeSettings [("exclude_globs", .list [.text "d"]), ("match_mode", .text "regex")],
    .turn (.load 3), .turn (.report 3), .turn (.run 2)]

theorem crossCourse_quiet : Quiet Smooth (ofFiles threeFiles) crossCourse := by
  have hsplit : crossCourse = crossCourse.take 16 ++
      .changeSettings [("exclude_globs", .list [.text "d"]), ("match_mode", .text "regex")] ::
        crossCourse.drop 17 := rfl
  rw [hsplit, quiet_append]
  refine ⟨.of_allowed (by decide +kernel) ?_, ?_, by decide +kernel, by decide +kernel,
    .of_allowed (by decide +kernel) ?_⟩
  · simp [crossCourse, Smooth]
  · show takesOverSettings _ _ = true
    decide +kernel
  · simp [crossCourse, Smooth]

theorem crossCourse_not_uniform : ∀ s ≤ 20,
    ¬ ((ofFiles threeFiles).moment crossCourse 20).catalog.UniformIn
      ((ofFiles threeFiles).moment crossCourse s).matcher := by
  decide +kernel

theorem uniform_or_adrift_crossCourse :
    Quiet Smooth (ofFiles threeFiles) crossCourse ∧
      ∃ s, (ofFiles threeFiles).Adrift crossCourse s 20 ∧
        ∃ v, s < v ∧ v < 20 ∧ (ofFiles threeFiles).PatchesAt crossCourse v := by
  refine ⟨crossCourse_quiet, ?_⟩
  rcases uniform_or_adrift (inMemory_stamps threeFiles) _ 20 1000 500 false rfl crossCourse_quiet
    20 with
    h | ⟨s, hs, h | hv⟩
  · exact absurd h (crossCourse_not_uniform 20 le_rfl)
  · exact absurd h (crossCourse_not_uniform s hs.before.le)
  · exact ⟨s, hs, hv⟩

/-- Nothing fails, the last move calls the listener, and there is no mode that all results agree
with. -/
theorem crossCourse_mixed :
    Quiet Smooth (ofFiles threeFiles) crossCourse ∧
      ((ofFiles threeFiles).moment crossCourse 20).events =
        ((ofFiles threeFiles).moment crossCourse 19).events ++ [.called "l"] ∧
      ∀ mode, ¬ ((ofFiles threeFiles).moment crossCourse 20).catalog.UniformIn
        (((ofFiles threeFiles).moment crossCourse 20).matcher.inMode mode) := by
  refine ⟨crossCourse_quiet, by decide +kernel, ?_⟩
  intro mode
  cases mode with
  | both | regexOnly | expressionOnly => decide +kernel

end Keeper
end StepAtlas
