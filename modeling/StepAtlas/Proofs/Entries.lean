import Mathlib.Data.List.Perm.Basic
import StepAtlas.Proofs.Catalog

/-
What a catalog shows of the files of a workspace.

A catalog shows a file if its entry is what the file brings, and if it has no entry for a file that
is not there or brings nothing.  Entering all files of a workspace makes a catalog that shows every
file.  Entering one changed file makes the catalog show that file, if the change was told right.
Two coherent catalogs that show the same differ in nothing but the order of their results.
-/

namespace StepAtlas

def Loaded.fits : FileClass → Loaded → Bool
  | .feature, .feature _ => true
  | .definition, .definitions _ => true
  | _, _ => false

structure Site where
  workspace : Workspace
  settings : Settings
  sizeLimit : Int

namespace Site

def edited (s : Site) (w : Workspace) : Site := { s with workspace := w }

def Finds (s : Site) (cls : FileClass) (p : Path) : Prop :=
  ∃ files, s.workspace.search s.settings.excludeGlobs (s.settings.globs cls) = .ok files ∧ p ∈ files

def load (s : Site) (cls : FileClass) (p : Path) : Except Fault Loaded :=
  s.workspace.load s.sizeLimit cls p

/-- A file of a class brings something that belongs into a catalog. -/
structure Offers (s : Site) (cls : FileClass) (p : Path) (x : Loaded) : Prop where
  finds : s.Finds cls p
  load : s.load cls p = .ok x
  fits : x.fits cls = true

/-- Files can be looked for, and those that are found have one class each. -/
def Sorted (cls : Path → FileClass) (s : Site) : Prop :=
  ∀ c, ∃ files, s.workspace.search s.settings.excludeGlobs (s.settings.globs c) = .ok files ∧
  ∀ p ∈ files, cls p = c

theorem Sorted.eq_of_finds {cls : Path → FileClass} {s : Site} (h : s.Sorted cls) {c : FileClass}
    {p : Path} (hp : s.Finds c p) : c = cls p := by
  obtain ⟨files, hfiles, hmem⟩ := hp
  obtain ⟨files', hfiles', hcls⟩ := h c
  rw [hfiles] at hfiles'
  cases hfiles'
  exact (hcls p hmem).symm

structure SameFile (s s' : Site) (p : Path) : Prop where
  finds : ∀ cls, s'.Finds cls p ↔ s.Finds cls p
  load : ∀ cls, s'.load cls p = s.load cls p

theorem SameFile.refl (s : Site) (p : Path) : SameFile s s p := ⟨fun _ => Iff.rfl, fun _ => rfl⟩

theorem SameFile.offers {s s' : Site} {p : Path} (h : SameFile s s' p) (cls : FileClass)
    (x : Loaded) :
    s'.Offers cls p x ↔ s.Offers cls p x := by
  constructor
  · intro ho
    exact ⟨(h.finds cls).mp ho.finds, (h.load cls).symm.trans ho.load, ho.fits⟩
  · intro ho
    exact ⟨(h.finds cls).mpr ho.finds, (h.load cls).trans ho.load, ho.fits⟩

/-- A change says of a file what is the case: its class, and whether it is gone.  If it is there,
then it can be loaded. -/
structure Describes (cls : Path → FileClass) (s : Site) (p : Path) (c : Change) : Prop where
  cls : c.cls = cls p
  gone : c.kind = .deleted → ¬ s.Finds c.cls p
  offers : c.kind ≠ .deleted → ∃ x, s.Offers c.cls p x

theorem SameFile.describes {cls : Path → FileClass} {s s' : Site} {p : Path} {c : Change}
    (h : SameFile s s' p) (hd : s.Describes cls p c) : s'.Describes cls p c := by
  refine ⟨hd.cls, fun hk hf => hd.gone hk ((h.finds _).mp hf), fun hk => ?_⟩
  obtain ⟨x, hx⟩ := hd.offers hk
  exact ⟨x, (h.offers _ x).mpr hx⟩

end Site

namespace Catalog

def listed? (c : Catalog) (cls : FileClass) (p : Path) : Option Loaded :=
  match cls with
  | .feature => (c.features.get? p).map .feature
  | .definition => (c.definitions.get? p).map .definitions

/-- A catalog has of a file exactly what the file brings. -/
def Shows (c : Catalog) (s : Site) (p : Path) : Prop :=
  ∀ cls x, c.listed? cls p = some x ↔ s.Offers cls p x

theorem listed?_congr {c c' : Catalog} (hf : c'.features = c.features)
    (hd : c'.definitions = c.definitions) (cls : FileClass) (p : Path) :
    c'.listed? cls p = c.listed? cls p := by
  cases cls with
  | feature => rw [listed?, listed?, hf]
  | definition => rw [listed?, listed?, hd]

theorem features_eq_of_listed? {c c' : Catalog} (h : ∀ cls p, c.listed? cls p = c'.listed? cls p)
    (p : Path) :
    c.features.get? p = c'.features.get? p :=
  Option.map_injective (fun _ _ h => Loaded.feature.inj h) (h .feature p)

theorem definitions_eq_of_listed? {c c' : Catalog} (h : ∀ cls p, c.listed? cls p = c'.listed? cls p)
    (p : Path) :
    c.definitions.get? p = c'.definitions.get? p :=
  Option.map_injective (fun _ _ h => Loaded.definitions.inj h) (h .definition p)

/-- Two catalogs that show the same files have the same entries. -/
theorem listed?_eq_of_shows {c c' : Catalog} {s : Site} (h : ∀ p, c.Shows s p)
    (h' : ∀ p, c'.Shows s p) (cls : FileClass) (p : Path) : c.listed? cls p = c'.listed? cls p :=
  Option.ext fun x => (h p cls x).trans (h' p cls x).symm

/-! ## Entering all files -/

/-- From an empty catalog nothing is kept. -/
theorem listed?_stage (c : Catalog) (cls cls' : FileClass) (p q : Path) (x : Loaded) :
    (c.stage .empty cls p x).listed? cls' q =
      if q = p ∧ cls' = cls ∧ x.fits cls = true then some x else c.listed? cls' q := by
  cases cls <;> cases x <;> cases cls' <;>
    simp only [stage, Loaded.fits, empty, PathMap.get?_empty, Option.map_none, Option.getD_none,
      reduceCtorEq, and_false, and_true, and_self, if_false, listed?, setFeature, setDefinitions,
      PathMap.get?_set]
  · split <;> rfl
  · split <;> rfl

/-- If all entries are true, the entry of a file that is entered is the only one that is new. -/
theorem listed?_stage_iff {s : Site} {cls : FileClass} {c : Catalog}
    (htrue : ∀ q x, c.listed? cls q = some x → s.load cls q = .ok x ∧ x.fits cls = true) {p : Path}
    {y : Loaded} (hy : s.load cls p = .ok y) (q : Path) (x : Loaded) :
    (c.stage .empty cls p y).listed? cls q = some x ↔
      (q = p ∧ s.load cls q = .ok x ∧ x.fits cls = true) ∨ c.listed? cls q = some x := by
  rw [listed?_stage]
  by_cases hq : q = p ∧ cls = cls ∧ y.fits cls = true
  · obtain ⟨rfl, -, hfit⟩ := hq
    rw [if_pos ⟨rfl, rfl, hfit⟩, Option.some.injEq]
    constructor
    · rintro rfl
      exact .inl ⟨rfl, hy, hfit⟩
    · rintro (⟨-, hx, -⟩ | hx)
      · exact Except.ok.inj (hy.symm.trans hx)
      · exact Except.ok.inj (hy.symm.trans (htrue q x hx).1)
  · rw [if_neg hq]
    refine ⟨.inr, ?_⟩
    rintro (⟨rfl, hx, hfit⟩ | hx)
    · cases Except.ok.inj (hy.symm.trans hx)
      exact absurd ⟨rfl, rfl, hfit⟩ hq
    · exact hx

theorem listed?_stageAll {s : Site} {cls : FileClass} {files : List Path} {c c' : Catalog}
    (htrue : ∀ q x, c.listed? cls q = some x → s.load cls q = .ok x ∧ x.fits cls = true)
    (h : stageAll s.workspace s.sizeLimit .empty cls c files = .ok c') :
    (∀ q x, c'.listed? cls q = some x ↔
      (q ∈ files ∧ s.load cls q = .ok x ∧ x.fits cls = true) ∨ c.listed? cls q = some x) ∧
    ∀ cls', cls' ≠ cls → ∀ q, c'.listed? cls' q = c.listed? cls' q := by
  induction files generalizing c with
  | nil =>
    rw [stageAll, List.foldlM_nil, pure_eq_ok_iff] at h
    subst h
    simp
  | cons p files ih =>
    rw [stageAll, List.foldlM_cons, bind_eq_ok_iff] at h
    obtain ⟨c₁, h₁, h⟩ := h
    rw [bind_eq_ok_iff] at h₁
    obtain ⟨y, hy, h₁⟩ := h₁
    rw [pure_eq_ok_iff] at h₁
    subst h₁
    -- The entry of the first file, and all the entries there were before, are true.
    have hfirst := listed?_stage_iff htrue hy
    have htrue₁ : ∀ q x, (c.stage .empty cls p y).listed? cls q = some x →
        s.load cls q = .ok x ∧ x.fits cls = true := by
      intro q x hx
      rcases (hfirst q x).mp hx with hx | hx
      · exact hx.2
      · exact htrue q x hx
    obtain ⟨hin, hout⟩ := ih htrue₁ h
    refine ⟨fun q x => ?_, fun cls' hne q => ?_⟩
    · rw [hin, hfirst, List.mem_cons]
      tauto
    · rw [hout cls' hne, listed?_stage, if_neg fun hq => hne hq.2.1]

/-- Entering all features and then all definitions of a workspace makes a catalog that shows every
file. -/
theorem stageAll_shows {s : Site} {features definitions : List Path} {c₁ c₂ : Catalog}
    (hf : s.workspace.search s.settings.excludeGlobs s.settings.featureGlobs = .ok features)
    (h₁ : stageAll s.workspace s.sizeLimit .empty .feature .empty features = .ok c₁)
    (hd : s.workspace.search s.settings.excludeGlobs s.settings.definitionGlobs = .ok definitions)
    (h₂ : stageAll s.workspace s.sizeLimit .empty .definition c₁ definitions = .ok c₂) (p : Path) :
    c₂.Shows s p := by
  have hempty : ∀ cls q, listed? .empty cls q = none := fun cls q => by cases cls <;> rfl
  have hfinds : ∀ cls {files}, s.workspace.search s.settings.excludeGlobs (s.settings.globs cls) =
      .ok files → (s.Finds cls p ↔ p ∈ files) := by
    intro cls files hs
    constructor
    · rintro ⟨files', hs', hp⟩
      rw [hs] at hs'
      cases hs'
      exact hp
    · exact fun hp => ⟨files, hs, hp⟩
  obtain ⟨hin₁, hout₁⟩ := listed?_stageAll (fun q x hx => by rw [hempty] at hx; cases hx) h₁
  obtain ⟨hin₂, hout₂⟩ := listed?_stageAll
    (fun q x hx => by rw [hout₁ _ (by simp), hempty] at hx; cases hx) h₂
  intro cls x
  cases cls with
  | feature =>
    rw [hout₂ _ (by simp), hin₁, hempty]
    constructor
    · rintro (⟨hp, hl, hfit⟩ | hx)
      · exact ⟨(hfinds .feature hf).mpr hp, hl, hfit⟩
      · cases hx
    · exact fun ho => .inl ⟨(hfinds .feature hf).mp ho.finds, ho.load, ho.fits⟩
  | definition =>
    rw [hin₂, hout₁ _ (by simp), hempty]
    constructor
    · rintro (⟨hp, hl, hfit⟩ | hx)
      · exact ⟨(hfinds .definition hd).mpr hp, hl, hfit⟩
      · cases hx
    · exact fun ho => .inl ⟨(hfinds .definition hd).mp ho.finds, ho.load, ho.fits⟩

/-! ## Entering changed files -/

theorem listed?_applyChange (c : Catalog) (cls : FileClass) (p q : Path) (change : Change)
    (x : Loaded) :
    (c.applyChange p change x).listed? cls q =
      if q = p ∧ cls = change.cls then
        if change.kind = .deleted then none else if x.fits change.cls then some x
        else c.listed? cls q
      else c.listed? cls q := by
  obtain ⟨ccls, kind⟩ := change
  cases ccls <;> cases kind <;> cases x <;> cases cls <;>
    simp only [applyChange, Loaded.fits, listed?, setFeature, setDefinitions, removeFeature,
      removeDefinitions, PathMap.get?_set, PathMap.get?_remove, reduceCtorEq, and_true, and_false,
      if_true, if_false, ite_self]
  all_goals split <;> rfl

theorem listed?_applyChanges_of_cls_ne {changes : List (Path × Change × Loaded)} (c : Catalog)
    {cls : FileClass} {p : Path} (h : ∀ e ∈ changes, e.1 = p → e.2.1.cls ≠ cls) :
    (c.applyChanges changes).listed? cls p = c.listed? cls p := by
  induction changes generalizing c with
  | nil => rfl
  | cons e rest ih =>
    obtain ⟨q, change, x⟩ := e
    obtain ⟨hq, hrest⟩ := List.forall_mem_cons.mp h
    rw [applyChanges_cons, ih _ hrest, listed?_applyChange, if_neg fun he => hq he.1.symm he.2.symm]

theorem listed?_applyChanges_of_not_mem {changes : List (Path × Change × Loaded)} (c : Catalog)
    (cls : FileClass) {p : Path} (hp : p ∉ changes.map (·.1)) :
    (c.applyChanges changes).listed? cls p = c.listed? cls p :=
  listed?_applyChanges_of_cls_ne c fun e he heq => absurd (List.mem_map.mpr ⟨e, he, heq⟩) hp

/-- Of several changes of different files, a file sees its own. -/
theorem listed?_applyChanges_of_mem {changes : List (Path × Change × Loaded)} (c : Catalog)
    (cls : FileClass) {p : Path} {change : Change} {x : Loaded} (hn : (changes.map (·.1)).Nodup)
    (h : (p, change, x) ∈ changes) :
    (c.applyChanges changes).listed? cls p = (c.applyChange p change x).listed? cls p := by
  induction changes generalizing c with
  | nil => cases h
  | cons e rest ih =>
    rw [List.map_cons, List.nodup_cons] at hn
    rcases List.mem_cons.mp h with rfl | hrest
    · rw [applyChanges_cons, listed?_applyChanges_of_not_mem _ _ hn.1]
    · obtain ⟨q, change', y⟩ := e
      have hne : p ≠ q := fun he => hn.1 (List.mem_map.mpr ⟨_, hrest, he⟩)
      rw [applyChanges_cons, ih _ hn.2 hrest]
      simp only [listed?_applyChange, hne, false_and, if_false]

theorem listed?_refresh {matcher : Matcher} {changes : List (Path × Change × Loaded)}
    {c c' : Catalog} (h : c.refresh matcher changes = (c', none)) (cls : FileClass) (p : Path) :
    c'.listed? cls p = (c.applyChanges changes).listed? cls p := by
  obtain ⟨hf, hd⟩ := entries_of_refresh h
  exact listed?_congr hf hd cls p

/-- If each change says the class of its file, then every entry is of the class of its file. -/
theorem applyChanges_classed {cls : Path → FileClass} {changes : List (Path × Change × Loaded)}
    {c : Catalog} (hc : ∀ p cls' x, c.listed? cls' p = some x → cls' = cls p)
    (hch : ∀ e ∈ changes, e.2.1.cls = cls e.1) :
    ∀ p cls' x, (c.applyChanges changes).listed? cls' p = some x → cls' = cls p := by
  induction changes generalizing c with
  | nil => exact hc
  | cons e rest ih =>
    obtain ⟨q, change, y⟩ := e
    rw [applyChanges_cons]
    refine ih (fun p cls' x hx => ?_) fun e he => hch e (List.mem_cons_of_mem _ he)
    rw [listed?_applyChange] at hx
    by_cases hp : p = q ∧ cls' = change.cls
    · rw [hp.1, hp.2]
      exact hch (q, change, y) List.mem_cons_self
    · rw [if_neg hp] at hx
      exact hc p cls' x hx

/-- A catalog shows a file once a change that describes it was entered, if what was loaded is what
the file brings. -/
theorem applyChange_shows {c : Catalog} {s : Site} {cls : Path → FileClass} {p : Path}
    {change : Change} {x : Loaded} (hs : s.Sorted cls) (hd : s.Describes cls p change)
    (hx : change.kind ≠ .deleted → s.load change.cls p = .ok x)
    (hc : ∀ cls' y, c.listed? cls' p = some y → cls' = cls p) :
    (c.applyChange p change x).Shows s p := by
  intro cls' y
  rw [listed?_applyChange]
  by_cases hcls : cls' = change.cls
  · subst hcls
    rw [if_pos ⟨rfl, rfl⟩]
    by_cases hk : change.kind = .deleted
    · rw [if_pos hk]
      refine ⟨fun h => (by cases h), fun ho => absurd ho.finds (hd.gone hk)⟩
    · obtain ⟨z, hz⟩ := hd.offers hk
      obtain rfl : x = z := Except.ok.inj ((hx hk).symm.trans hz.load)
      rw [if_neg hk, if_pos hz.fits, Option.some.injEq]
      constructor
      · rintro rfl
        exact hz
      · exact fun ho => Except.ok.inj (hz.load.symm.trans ho.load)
  · rw [if_neg fun h => hcls h.2]
    constructor
    · exact fun h => absurd ((hc cls' y h).trans hd.cls.symm) hcls
    · exact fun ho => absurd ((hs.eq_of_finds ho.finds).trans hd.cls.symm) hcls

/-! ## Results -/

/-- The same results up to their order and the order of the definitions in each. -/
def SameResults (rs rs' : List MatchResult) : Prop :=
  ∃ rs₁, rs₁.Perm rs' ∧ List.Forall₂ (fun r r' => r.step = r'.step ∧ r.found.Perm r'.found) rs rs₁

/-- A list can be sorted by keys: those of each key together, in the order of the keys. -/
theorem perm_flatMap_filter {α κ : Type} [DecidableEq κ] (key : α → κ) {ks : List κ} (hn : ks.Nodup)
    {xs : List α} (h : ∀ x ∈ xs, key x ∈ ks) :
    xs.Perm (ks.flatMap fun k => xs.filter (key · = k)) := by
  induction ks generalizing xs with
  | nil =>
    rw [List.eq_nil_iff_forall_not_mem.mpr fun x hx => List.not_mem_nil (h x hx)]
    rfl
  | cons k ks ih =>
    rw [List.nodup_cons] at hn
    have hrest : ∀ x ∈ xs.filter (fun x => !decide (key x = k)), key x ∈ ks := by
      intro x hx
      rw [List.mem_filter] at hx
      exact (List.mem_cons.mp (h x hx.1)).resolve_left (by simpa using hx.2)
    have hsame :
        (ks.flatMap fun k' => (xs.filter fun x => !decide (key x = k)).filter (key · = k')) =
          ks.flatMap fun k' => xs.filter (key · = k') := by
      refine List.flatMap_congr fun k' hk' => ?_
      rw [List.filter_filter]
      refine List.filter_congr fun x _ => ?_
      by_cases hx : key x = k'
      · have hne : key x ≠ k := fun he => hn.1 (he ▸ hx ▸ hk')
        simp [hx, hx ▸ hne]
      · simp [hx]
    rw [List.flatMap_cons]
    refine (List.filter_append_perm (fun x => decide (key x = k)) xs).symm.trans
      (List.Perm.append_left _ ?_)
    exact hsame ▸ ih hn.2 hrest

/-- The results of a coherent catalog, file by file. -/
theorem Coherent.results_perm {matcher : Matcher} {c : Catalog} (h : c.Coherent matcher) :
    c.results.Perm
      (c.features.entries.flatMap fun e => c.results.filter (·.step.source = e.1)) := by
  have hkey : ∀ r ∈ c.results, r.step.source ∈ c.features.entries.map Prod.fst := by
    intro r hr
    obtain ⟨f, hf⟩ := PathMap.contains_iff.mp (h.indexed r hr)
    exact List.mem_map_of_mem (PathMap.mem_entries_iff.mpr hf)
  have hp := perm_flatMap_filter (fun r : MatchResult => r.step.source) c.features.unique hkey
  rw [List.flatMap_map] at hp
  exact hp

/-- Another order of the definitions changes nothing but the order in which they are found. -/
theorem matchSteps_perm {matcher : Matcher} {ds ds' : List Definition} (hp : ds.Perm ds')
    {ss : List Step} {rs rs' : List MatchResult} (h : matchSteps matcher ss ds = .ok rs)
    (h' : matchSteps matcher ss ds' = .ok rs') :
    List.Forall₂ (fun r r' => r.step = r'.step ∧ r.found.Perm r'.found) rs rs' := by
  rw [matchSteps_eq_ok_iff] at h h'
  induction h generalizing rs' with
  | nil =>
    cases h'
    exact .nil
  | cons hr _ ih =>
    cases h' with
    | cons hr' hrs' =>
      refine .cons ?_ (ih hrs')
      rw [(matchStep_eq_ok_iff.mp hr).2, (matchStep_eq_ok_iff.mp hr').2]
      exact ⟨rfl, hp.filter _⟩

theorem forall₂_flatMap {α β γ : Type} {R : β → γ → Prop} {f : α → List β} {g : α → List γ}
    {xs : List α} (h : ∀ x ∈ xs, List.Forall₂ R (f x) (g x)) :
    List.Forall₂ R (xs.flatMap f) (xs.flatMap g) := by
  induction xs with
  | nil => exact .nil
  | cons x xs ih =>
    exact List.rel_append (h x List.mem_cons_self) (ih fun y hy => h y (List.mem_cons_of_mem x hy))

/-- Two coherent catalogs with the same entries have the same results. -/
theorem Coherent.sameResults {matcher : Matcher} {c c' : Catalog} (h : c.Coherent matcher)
    (h' : c'.Coherent matcher) (hf : ∀ p, c.features.get? p = c'.features.get? p)
    (hd : ∀ p, c.definitions.get? p = c'.definitions.get? p) :
    SameResults c.results c'.results := by
  have hds : c.allDefinitions.Perm c'.allDefinitions :=
    ((PathMap.entries_perm hd).map Prod.snd).flatten
  have hfiles : List.Forall₂ (fun r r' => r.step = r'.step ∧ r.found.Perm r'.found)
      (c.features.entries.flatMap fun e => c.results.filter (·.step.source = e.1))
      (c.features.entries.flatMap fun e => c'.results.filter (·.step.source = e.1)) := by
    refine forall₂_flatMap fun e he => ?_
    have hget : c.features.get? e.1 = some e.2 := PathMap.mem_entries_iff.mp he
    exact matchSteps_perm hds (h.results e.1 e.2 hget)
      (h'.results e.1 e.2 ((hf e.1).symm.trans hget))
  obtain ⟨rs, hrs, hperm⟩ := List.perm_comp_forall₂ h.results_perm hfiles
  refine ⟨rs, hperm.trans (List.Perm.trans ?_ h'.results_perm.symm), hrs⟩
  exact (PathMap.entries_perm hf).flatMap_right _

end Catalog
end StepAtlas
