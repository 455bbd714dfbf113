import StepAtlas.Proofs.Entries

/-
What the catalog of a site is, said without building it: for each class the files that its patterns
lead to, each once and in the order of first sight, with what each of them holds; and the results of
matching all the steps with all the definitions.  A file that cannot be used has no entry, and a
file that is too large has the entry that it had before.

Building a catalog comes to exactly this, and it fails only if a search fails, if a warning about a
file cannot be shown, or if a pattern fails on a step.
-/

namespace StepAtlas

def entriesOf {α : Type} (record? : Path → Option α) (files : List Path) : List (Path × α) :=
  files.filterMap fun p => (record? p).map (p, ·)

namespace Site

/-- The files of a class, each once and in the order in which the patterns lead to them. -/
def found (s : Site) (cls : FileClass) : Except Fault (List Path) := do
  let files ← (s.settings.globs cls).mapM fun pattern =>
    s.workspace.find pattern s.settings.excludeGlobs
  return files.flatten.eraseDups

/-- The entry of a file: what is understood of its text, or the entry before if the file is too
large. -/
def record? {α : Type} (s : Site) (understand : Text → Except Fault (Option α)) (before : PathMap α)
    (p : Path) :
    Option α :=
  match s.workspace.read p with
  | .error _ => none
  | .ok file =>
    if s.sizeLimit < file.size then before.get? p else (understand file.text).toOption.join

def feature? (s : Site) (before : Catalog) (p : Path) : Option Feature :=
  s.record? (s.workspace.feature p) before.features p

def definitions? (s : Site) (before : Catalog) (p : Path) : Option (List Definition) :=
  s.record? (fun t => (s.workspace.definitions p t).map some) before.definitions p

/-- If there is a warning about a file, then it can be shown. -/
def Warns (s : Site) (cls : FileClass) (p : Path) : Prop :=
  ∀ words, s.workspace.warning? s.sizeLimit cls p = some words → log words = .ok ()

theorem warns_iff {s : Site} {cls : FileClass} {p : Path} :
    s.Warns cls p ↔ ∃ x, s.load cls p = .ok x :=
  Workspace.exists_load_iff.symm

/-- A catalog has the entries of the files of a site, after another catalog. -/
structure Records (s : Site) (before c : Catalog) : Prop where
  features : ∃ files, s.found .feature = .ok files ∧
    c.features.entries = entriesOf (s.feature? before) files
  definitions : ∃ files, s.found .definition = .ok files ∧
    c.definitions.entries = entriesOf (s.definitions? before) files

/-- A catalog lists a site: it has the entries of its files, and the results of matching all the
steps. -/
structure Lists (s : Site) (matcher : Matcher) (before c : Catalog) :
    Prop extends s.Records before c where
  results : matchSteps matcher c.steps c.allDefinitions = .ok c.results

/-- Nothing fails when a site is listed: no search, no warning about a file, and no pattern on any
step. -/
structure Fine (s : Site) (matcher : Matcher) (before : Catalog) : Prop where
  searches : ∀ cls, ∃ files, s.found cls = .ok files
  warnings : ∀ cls p, s.Finds cls p → s.Warns cls p
  patterns : ∀ c, s.Records before c → c.Matchable matcher

/-- There is one such catalog at most, up to its results. -/
theorem Records.unique {s : Site} {before c c' : Catalog} (h : s.Records before c)
    (h' : s.Records before c') :
    c'.features = c.features ∧ c'.definitions = c.definitions := by
  obtain ⟨⟨files, hfound, hf⟩, ⟨scripts, hscripts, hd⟩⟩ := h
  obtain ⟨⟨files', hfound', hf'⟩, ⟨scripts', hscripts', hd'⟩⟩ := h'
  rw [hfound] at hfound'
  cases hfound'
  rw [hscripts] at hscripts'
  cases hscripts'
  exact ⟨PathMap.eq_of_entries_eq (hf'.trans hf.symm), PathMap.eq_of_entries_eq (hd'.trans hd.symm)⟩

end Site

/-! ## Searching -/

namespace Workspace

theorem addNew_eq (found new : List Path) :
    addNew found new = found ++ (new.removeAll found).eraseDups := by
  induction new generalizing found with
  | nil => simp [addNew, List.removeAll]
  | cons q new ih =>
    have hstep : addNew found (q :: new) = addNew (if found.contains q then found else found ++ [q])
        new := rfl
    rw [hstep, ih]
    by_cases hq : found.contains q = true
    · simp [List.removeAll, List.contains_iff_mem.mp hq]
    · have hq' : q ∉ found := by simpa using hq
      rw [if_neg hq, List.removeAll, List.removeAll, List.filter_cons_of_pos (by simpa using hq'),
        List.eraseDups_cons, List.filter_filter, List.append_assoc, List.singleton_append]
      congr 3
      refine List.filter_congr fun p _ => ?_
      by_cases hp : p = q
      · simp [hp]
      · simp [hp]

theorem addNew_nodup {found : List Path} (h : found.Nodup) (new : List Path) :
    (addNew found new).Nodup := by
  induction new generalizing found with
  | nil => exact h
  | cons q new ih =>
    have hnext : (if found.contains q then found else found ++ [q]).Nodup := by
      split
      · exact h
      · rename_i hq
        rw [List.nodup_append]
        refine ⟨h, by simp, ?_⟩
        intro a ha b hb
        rw [List.mem_singleton.mp hb]
        rintro rfl
        exact hq (List.contains_iff_mem.mpr ha)
    exact ih hnext

/-- Going on with a search is the same as adding all that the other patterns lead to. -/
theorem foldlM_addNew (w : Workspace) (exclude : List Text) (found : List Path)
    (patterns : List Text) :
    patterns.foldlM (fun found pattern => do return addNew found (← w.find pattern exclude)) found =
      (patterns.mapM fun pattern => w.find pattern exclude) >>= fun files =>
      pure (addNew found files.flatten) := by
  induction patterns generalizing found with
  | nil => rfl
  | cons pattern rest ih =>
    rw [List.foldlM_cons, List.mapM_cons]
    cases w.find pattern exclude with
    | error fault => rfl
    | ok new =>
      refine (ih (addNew found new)).trans ?_
      cases List.mapM (fun pattern => w.find pattern exclude) rest with
      | error fault => rfl
      | ok files =>
        have happend : addNew found (new ++ files.flatten) =
            addNew (addNew found new) files.flatten :=
          List.foldl_append
        exact congrArg Except.ok happend.symm

end Workspace

namespace Site

theorem search_eq_found (s : Site) (cls : FileClass) :
    s.workspace.search s.settings.excludeGlobs (s.settings.globs cls) = s.found cls := by
  rw [Workspace.search, Workspace.foldlM_addNew, found]
  congr 1
  funext files
  generalize files.flatten = all
  rw [Workspace.addNew_eq]
  simp [List.removeAll]

theorem finds_iff {s : Site} {cls : FileClass} {files : List Path} (h : s.found cls = .ok files)
    {p : Path} :
    s.Finds cls p ↔ p ∈ files := by
  rw [Finds, search_eq_found, h]
  simp

theorem nodup_found {s : Site} {cls : FileClass} {files : List Path} (h : s.found cls = .ok files) :
    files.Nodup := by
  rw [← search_eq_found, Workspace.search, Workspace.foldlM_addNew, bind_eq_ok_iff] at h
  obtain ⟨new, -, h⟩ := h
  rw [pure_eq_ok_iff] at h
  exact h ▸ Workspace.addNew_nodup List.nodup_nil _

/-! ## Entering files -/

def enterAll {α : Type} (record? : Path → Option α) (files : List Path) (m : PathMap α) :
    PathMap α :=
  (entriesOf record? files).foldl (fun m e => m.set e.1 e.2) m

theorem enterAll_cons {α : Type} (record? : Path → Option α) (p : Path) (files : List Path)
    (m : PathMap α) :
    enterAll record? (p :: files) m =
      enterAll record? files (((record? p).map (m.set p)).getD m) := by
  unfold enterAll entriesOf
  cases h : record? p with
  | none => simp [h]
  | some a => simp [h]

theorem map_fst_entriesOf_sublist {α : Type} (record? : Path → Option α) (files : List Path) :
    ((entriesOf record? files).map Prod.fst).Sublist files := by
  induction files with
  | nil => exact .slnil
  | cons p files ih =>
    unfold entriesOf at ih ⊢
    cases h : record? p with
    | none => simpa [h] using ih.cons p
    | some a => simpa [h] using ih.cons_cons p

theorem entries_enterAll {α : Type} (record? : Path → Option α) {files : List Path}
    (h : files.Nodup) :
    (enterAll record? files .empty).entries = entriesOf record? files := by
  have hn : ((entriesOf record? files).map Prod.fst).Nodup :=
    h.sublist (map_fst_entriesOf_sublist record? files)
  exact PathMap.entries_foldl_set _ .empty hn

def enter (s : Site) (before : Catalog) (cls : FileClass) (files : List Path) (c : Catalog) :
    Catalog :=
  match cls with
  | .feature => { c with features := enterAll (s.feature? before) files c.features }
  | .definition => { c with definitions := enterAll (s.definitions? before) files c.definitions }

theorem enter_singleton (s : Site) (before : Catalog) (cls : FileClass) (p : Path) (c : Catalog) :
    s.enter before cls [p] c = match cls with
      | .feature => ((s.feature? before p).map (c.setFeature p)).getD c
      | .definition => ((s.definitions? before p).map (c.setDefinitions p)).getD c := by
  cases cls with
  | feature =>
    rw [enter, enterAll_cons]
    cases s.feature? before p with
    | none | some f => rfl
  | definition =>
    rw [enter, enterAll_cons]
    cases s.definitions? before p with
    | none | some ds => rfl

inductive LoadsAs (s : Site) (cls : FileClass) (p : Path) : Loaded → Prop where
  | unread {fault : Fault} (hr : s.workspace.read p = .error fault) : LoadsAs s cls p .unreadable
  | oversize {file : FileContent} (hr : s.workspace.read p = .ok file)
      (hs : s.sizeLimit < file.size) :
      LoadsAs s cls p .oversize
  | understood {file : FileContent} {x : Loaded} (hr : s.workspace.read p = .ok file)
      (hs : ¬ s.sizeLimit < file.size) (h : s.workspace.parse cls p file.text = .ok x) :
      LoadsAs s cls p x
  | misunderstood {file : FileContent} {fault : Fault} (hr : s.workspace.read p = .ok file)
      (hs : ¬ s.sizeLimit < file.size) (h : s.workspace.parse cls p file.text = .error fault) :
      LoadsAs s cls p .unreadable

theorem loadsAs_of_load {s : Site} {cls : FileClass} {p : Path} {x : Loaded}
    (h : s.load cls p = .ok x) :
    s.LoadsAs cls p x := by
  unfold load Workspace.load at h
  cases hread : s.workspace.read p with
  | error fault =>
    have hx : x = .unreadable := by
      rw [hread] at h
      cases fault with
      | _ => exact Workspace.skip_eq_ok h
    exact hx ▸ .unread hread
  | ok file =>
    rw [hread] at h
    dsimp only at h
    by_cases hsize : s.sizeLimit < file.size
    · rw [if_pos hsize] at h
      exact Workspace.skip_eq_ok h ▸ .oversize hread hsize
    · rw [if_neg hsize] at h
      cases hparse : s.workspace.parse cls p file.text with
      | error fault =>
        rw [hparse] at h
        exact Workspace.skip_eq_ok h ▸ .misunderstood hread hsize hparse
      | ok y =>
        rw [hparse] at h
        cases h
        exact .understood hread hsize hparse

/-- What a file brings is entered as its entry says. -/
theorem stage_eq_enter {s : Site} {cls : FileClass} {p : Path} {x : Loaded}
    (h : s.load cls p = .ok x) (c before : Catalog) :
    c.stage before cls p x = s.enter before cls [p] c := by
  rw [enter_singleton]
  cases loadsAs_of_load h with
  | unread hr =>
    cases cls with
    | feature | definition => simp [feature?, definitions?, record?, hr, Catalog.stage]
  | oversize hr hs =>
    cases cls with
    | feature | definition => simp [feature?, definitions?, record?, hr, hs, Catalog.stage]
  | @understood file _ hr hs hparse =>
    cases cls with
    | feature =>
      obtain ⟨found, hfound, hx⟩ := bind_eq_ok_iff.mp hparse
      cases found with
      | none | some f =>
        cases hx; simp [feature?, record?, hr, hs, hfound, Catalog.stage, Except.toOption]
    | definition =>
      obtain ⟨ds, hds, hx⟩ := bind_eq_ok_iff.mp hparse
      cases hx
      simp [definitions?, record?, hr, hs, hds, Catalog.stage, Except.toOption, Except.map]
  | @misunderstood file fault hr hs hparse =>
    cases cls with
    | feature =>
      cases hfound : s.workspace.feature p file.text with
      | error fault => simp [feature?, record?, hr, hs, hfound, Catalog.stage, Except.toOption]
      | ok found =>
        rw [Workspace.parse, hfound] at hparse
        cases found with
        | none | some f => cases hparse
    | definition =>
      cases hds : s.workspace.definitions p file.text with
      | error fault =>
        simp [definitions?, record?, hr, hs, hds, Catalog.stage, Except.toOption, Except.map]
      | ok ds =>
        rw [Workspace.parse, hds] at hparse
        cases hparse

theorem enter_cons (s : Site) (before : Catalog) (cls : FileClass) (p : Path) (files : List Path)
    (c : Catalog) :
    s.enter before cls (p :: files) c = s.enter before cls files (s.enter before cls [p] c) := by
  cases cls with
  | feature | definition => simp only [enter, enterAll_cons]; rfl

theorem stageAll_eq_ok_iff {s : Site} {cls : FileClass} {before c c' : Catalog}
    {files : List Path} :
    Catalog.stageAll s.workspace s.sizeLimit before cls c files = .ok c' ↔
      (∀ p ∈ files, ∃ x, s.load cls p = .ok x) ∧ s.enter before cls files c = c' := by
  induction files generalizing c with
  | nil =>
    have he : s.enter before cls [] c = c := by cases cls <;> rfl
    simp [Catalog.stageAll, pure_eq_ok_iff, he]
  | cons p files ih =>
    rw [Catalog.stageAll, List.foldlM_cons, bind_eq_ok_iff]
    constructor
    · rintro ⟨c₁, h₁, h⟩
      obtain ⟨x, hx, h₁⟩ := bind_eq_ok_iff.mp h₁
      rw [pure_eq_ok_iff] at h₁
      subst h₁
      obtain ⟨hall, he⟩ := ih.mp h
      rw [stage_eq_enter hx, ← enter_cons] at he
      refine ⟨?_, he⟩
      intro q hq
      rcases List.mem_cons.mp hq with rfl | hq
      · exact ⟨x, hx⟩
      · exact hall q hq
    · rintro ⟨hall, he⟩
      obtain ⟨x, hx⟩ := hall p List.mem_cons_self
      refine ⟨c.stage before cls p x, bind_eq_ok_iff.mpr ⟨x, hx, rfl⟩, ih.mpr ⟨?_, ?_⟩⟩
      · exact fun q hq => hall q (List.mem_cons_of_mem p hq)
      · rw [stage_eq_enter hx, ← enter_cons]
        exact he

/-! ## Building -/

theorem feature?_stampedBy {s : Site} (hw : s.workspace.Stamps) {before : Catalog}
    (hb : before.Stamped) {p : Path} {f : Feature} (h : s.feature? before p = some f) :
    f.StampedBy p := by
  unfold feature? record? at h
  cases hread : s.workspace.read p with
  | error fault =>
    rw [hread] at h
    cases h
  | ok file =>
    rw [hread] at h
    dsimp only at h
    split at h
    · exact hb p f h
    · cases hparse : s.workspace.feature p file.text with
      | error fault =>
        rw [hparse] at h
        cases h
      | ok found =>
        rw [hparse] at h
        have hfound : found = some f := h
        exact hw p file.text f (hfound ▸ hparse)

theorem mem_entriesOf {α : Type} {record? : Path → Option α} {files : List Path} {p : Path}
    {a : α} :
    (p, a) ∈ entriesOf record? files ↔ p ∈ files ∧ record? p = some a := by
  unfold entriesOf
  simp only [List.mem_filterMap, Option.map_eq_some_iff, Prod.mk.injEq]
  constructor
  · rintro ⟨q, hq, b, hb, rfl, rfl⟩
    exact ⟨hq, hb⟩
  · rintro ⟨hp, ha⟩
    exact ⟨p, hp, a, ha, rfl, rfl⟩

/-- The catalog of a site before its steps are matched. -/
theorem stageAll_found {s : Site} {before : Catalog} {files scripts : List Path} {c₁ c₂ : Catalog}
    (hf : s.found .feature = .ok files) (hd : s.found .definition = .ok scripts)
    (h₁ : s.enter before .feature files .empty = c₁)
    (h₂ : s.enter before .definition scripts c₁ = c₂) :
    c₂.features.entries = entriesOf (s.feature? before) files ∧
      c₂.definitions.entries = entriesOf (s.definitions? before) scripts := by
  subst h₁
  subst h₂
  exact ⟨entries_enterAll _ (nodup_found hf), entries_enterAll _ (nodup_found hd)⟩

theorem stamped_of_entries {s : Site} (hw : s.workspace.Stamps) {before c : Catalog}
    (hb : before.Stamped) {files : List Path}
    (h : c.features.entries = entriesOf (s.feature? before) files) : c.Stamped := by
  intro p f hf
  rw [← PathMap.mem_entries_iff, h, mem_entriesOf] at hf
  exact feature?_stampedBy hw hb hf.2

/-- Building the catalog of a site comes to the catalog that lists it, unless a warning fails. -/
theorem build_eq_ok_iff {s : Site} (hw : s.workspace.Stamps) {matcher : Matcher} {before : Catalog}
    (hb : before.Stamped) {c : Catalog} :
    Catalog.build s.workspace s.settings matcher s.sizeLimit before = .ok c ↔
      (∀ cls p, s.Finds cls p → s.Warns cls p) ∧ s.Lists matcher before c := by
  have hfeature : s.workspace.search s.settings.excludeGlobs s.settings.featureGlobs =
      s.found .feature :=
    s.search_eq_found .feature
  have hdefinition : s.workspace.search s.settings.excludeGlobs s.settings.definitionGlobs =
      s.found .definition :=
    s.search_eq_found .definition
  rw [Catalog.build, hfeature, hdefinition]
  constructor
  · intro h
    obtain ⟨files, hf, h⟩ := bind_eq_ok_iff.mp h
    obtain ⟨c₁, h₁, h⟩ := bind_eq_ok_iff.mp h
    obtain ⟨scripts, hd, h⟩ := bind_eq_ok_iff.mp h
    obtain ⟨c₂, h₂, h⟩ := bind_eq_ok_iff.mp h
    obtain ⟨c₃, h₃, h⟩ := bind_eq_ok_iff.mp h
    rw [pure_eq_ok_iff] at h
    obtain ⟨hload₁, he₁⟩ := stageAll_eq_ok_iff.mp h₁
    obtain ⟨hload₂, he₂⟩ := stageAll_eq_ok_iff.mp h₂
    obtain ⟨hfe, hde⟩ := stageAll_found hf hd he₁ he₂
    have hstamped := stamped_of_entries hw hb hfe
    rw [Catalog.published_eq (Catalog.rematch_stamped hstamped h₃)] at h
    subst h
    obtain ⟨rs, hrs, h₃⟩ := bind_eq_ok_iff.mp h₃
    rw [pure_eq_ok_iff] at h₃
    subst h₃
    refine ⟨?_, ⟨⟨files, hf, hfe⟩, ⟨scripts, hd, hde⟩⟩, hrs⟩
    intro cls p hp
    cases cls with
    | feature => exact warns_iff.mpr (hload₁ p ((finds_iff hf).mp hp))
    | definition => exact warns_iff.mpr (hload₂ p ((finds_iff hd).mp hp))
  · rintro ⟨hwarns, ⟨⟨files, hf, hfe⟩, ⟨scripts, hd, hde⟩⟩, hr⟩
    have h₁ : Catalog.stageAll s.workspace s.sizeLimit before .feature .empty files =
        .ok (s.enter before .feature files .empty) :=
      stageAll_eq_ok_iff.mpr ⟨fun p hp => warns_iff.mp (hwarns .feature p ((finds_iff hf).mpr hp)),
        rfl⟩
    generalize hc₁ : s.enter before .feature files .empty = c₁ at h₁
    have h₂ : Catalog.stageAll s.workspace s.sizeLimit before .definition c₁ scripts =
        .ok (s.enter before .definition scripts c₁) :=
      stageAll_eq_ok_iff.mpr
        ⟨fun p hp => warns_iff.mp (hwarns .definition p ((finds_iff hd).mpr hp)), rfl⟩
    generalize hc₂ : s.enter before .definition scripts c₁ = c₂ at h₂
    obtain ⟨hfe', hde'⟩ := stageAll_found hf hd hc₁ hc₂
    have hfeatures : c₂.features = c.features := PathMap.eq_of_entries_eq (hfe'.trans hfe.symm)
    have hdefinitions : c₂.definitions = c.definitions :=
      PathMap.eq_of_entries_eq (hde'.trans hde.symm)
    have h₃ : c₂.rematch matcher = .ok c := by
      rw [Catalog.rematch, Catalog.steps, Catalog.allDefinitions, hfeatures, hdefinitions]
      exact bind_eq_ok_iff.mpr ⟨c.results, hr, rfl⟩
    refine bind_eq_ok_iff.mpr
      ⟨files, hf,
        bind_eq_ok_iff.mpr
          ⟨c₁, h₁, bind_eq_ok_iff.mpr
            ⟨scripts, hd, bind_eq_ok_iff.mpr ⟨c₂, h₂, bind_eq_ok_iff.mpr ⟨c, h₃, ?_⟩⟩⟩⟩⟩
    rw [Catalog.published_eq (stamped_of_entries hw hb hfe)]
    rfl

theorem exists_lists_iff {s : Site} {matcher : Matcher} {before : Catalog} :
    ((∀ cls p, s.Finds cls p → s.Warns cls p) ∧ ∃ c, s.Lists matcher before c) ↔
      s.Fine matcher before := by
  constructor
  · rintro ⟨hwarns, c, hrec, hr⟩
    refine ⟨?_, hwarns, ?_⟩
    · intro cls
      cases cls with
      | feature => exact ⟨_, hrec.features.choose_spec.1⟩
      | definition => exact ⟨_, hrec.definitions.choose_spec.1⟩
    · intro c' hrec'
      have hm : c.Matchable matcher := exists_matchSteps_iff.mp ⟨c.results, hr⟩
      exact hm.congr (hrec.unique hrec').1 (hrec.unique hrec').2
  · intro h
    obtain ⟨files, hf⟩ := h.searches .feature
    obtain ⟨scripts, hd⟩ := h.searches .definition
    have hfe := entries_enterAll (s.feature? before) (nodup_found hf)
    have hde := entries_enterAll (s.definitions? before) (nodup_found hd)
    have hm := h.patterns ⟨_, _, []⟩ ⟨⟨files, hf, hfe⟩, ⟨scripts, hd, hde⟩⟩
    obtain ⟨rs, hrs⟩ := exists_matchSteps_iff.mpr hm
    exact ⟨h.warnings, ⟨_, _, rs⟩, ⟨⟨files, hf, hfe⟩, ⟨scripts, hd, hde⟩⟩, hrs⟩

/-- Whether something fails can be told by building. -/
theorem fine_iff_isOk {s : Site} (hw : s.workspace.Stamps) {matcher : Matcher} {before : Catalog}
    (hb : before.Stamped) :
    s.Fine matcher before ↔ (Catalog.build s.workspace s.settings matcher s.sizeLimit before).isOk =
      true := by
  have hexists : s.Fine matcher before ↔
      ∃ c, Catalog.build s.workspace s.settings matcher s.sizeLimit before = .ok c := by
    simp only [build_eq_ok_iff hw hb, exists_and_left, exists_lists_iff]
  rw [hexists]
  cases Catalog.build s.workspace s.settings matcher s.sizeLimit before with
  | ok c | error fault => simp [Except.isOk, Except.toBool]

theorem Lists.unique {s : Site} {matcher : Matcher} {before c c' : Catalog}
    (h : s.Lists matcher before c) (h' : s.Lists matcher before c') : c' = c := by
  obtain ⟨features, definitions, results⟩ := c
  obtain ⟨features', definitions', results'⟩ := c'
  obtain ⟨rfl, rfl⟩ := h.toRecords.unique h'.toRecords
  have hresults : results' = results := Except.ok.inj (h'.results.symm.trans h.results)
  rw [hresults]

/-! ## Another answer of one file -/

def answering (s : Site) (file : Path) (answer : Except Fault FileContent) : Site :=
  s.edited (s.workspace.answering file answer)

theorem load_answering (s : Site) {file p : Path} (hp : p ≠ file)
    (answer : Except Fault FileContent) (cls : FileClass) :
    (s.answering file answer).load cls p = s.load cls p :=
  s.workspace.load_answering hp answer s.sizeLimit cls

theorem record?_answering {α : Type} (s : Site) {file p : Path} (hp : p ≠ file)
    (answer : Except Fault FileContent) (understand : Text → Except Fault (Option α))
    (before : PathMap α) :
    (s.answering file answer).record? understand before p = s.record? understand before p := by
  have hread : (s.answering file answer).workspace.read p = s.workspace.read p :=
    s.workspace.read_answering hp answer
  rw [record?, hread]
  rfl

theorem get?_eq_of_entriesOf {α : Type} {m m' : PathMap α} {record? record?' : Path → Option α}
    {files : List Path} {p : Path} (h : m.entries = entriesOf record? files)
    (h' : m'.entries = entriesOf record?' files) (hp : record?' p = record? p) :
    m'.get? p = m.get? p := by
  refine Option.ext fun a => ?_
  rw [← PathMap.mem_entries_iff, ← PathMap.mem_entries_iff, h, h', mem_entriesOf, mem_entriesOf, hp]

/-- Whatever one file holds, the entries of the others are the same. -/
theorem Records.listed?_answering {s : Site} {before c c' : Catalog} {file : Path}
    {answer : Except Fault FileContent} (h : s.Records before c)
    (h' : (s.answering file answer).Records before c') {p : Path} (hp : p ≠ file)
    (cls : FileClass) : c'.listed? cls p = c.listed? cls p := by
  cases cls with
  | feature =>
    obtain ⟨files, hfound, he⟩ := h.features
    obtain ⟨files', hfound', he'⟩ := h'.features
    obtain rfl : files' = files := Except.ok.inj (hfound'.symm.trans hfound)
    rw [Catalog.listed?, Catalog.listed?,
      get?_eq_of_entriesOf he he' (s.record?_answering hp answer _ _)]
  | definition =>
    obtain ⟨files, hfound, he⟩ := h.definitions
    obtain ⟨files', hfound', he'⟩ := h'.definitions
    obtain rfl : files' = files := Except.ok.inj (hfound'.symm.trans hfound)
    rw [Catalog.listed?, Catalog.listed?,
      get?_eq_of_entriesOf he he' (s.record?_answering hp answer _ _)]

end Site
end StepAtlas
