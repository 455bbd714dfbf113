import StepAtlas.Catalog.Build
import StepAtlas.Proofs.PathMap
import StepAtlas.Proofs.Workspace

/-
Coherence of a catalog: the stored results are those of its own steps and definitions.

A catalog is stamped when every feature, and every step in it, names the path that it stands under.
Results are told apart by the path of their step, so for a stamped catalog the results of one file
can be replaced without touching the others, and `rematchFile` mends exactly one path.
`CoherentBut` is the invariant for the time between changing some features and matching their steps
anew: everything is in order except at the paths still to be matched.
-/

namespace StepAtlas

namespace Catalog

/-- Every feature is stamped with the path that it stands under. -/
def Stamped (c : Catalog) : Prop := ∀ p f, c.features.get? p = some f → f.StampedBy p

/-- The stored results are those of the features and definitions in the catalog, except for steps of
some paths. -/
structure CoherentBut (skip : Path → Prop) (matcher : Matcher) (c : Catalog) : Prop where
  results : ∀ p f, ¬ skip p → c.features.get? p = some f →
    matchSteps matcher f.steps c.allDefinitions = .ok (c.results.filter fun r => r.step.source = p)
  indexed : ∀ r ∈ c.results, skip r.step.source ∨ c.features.contains r.step.source = true

/-- The results of each feature are what matching its steps brings, in the order of the steps, and
there are no others. -/
structure Coherent (matcher : Matcher) (c : Catalog) : Prop where
  results : ∀ p f, c.features.get? p = some f →
    matchSteps matcher f.steps c.allDefinitions = .ok (c.results.filter fun r => r.step.source = p)
  indexed : ∀ r ∈ c.results, c.features.contains r.step.source = true

theorem CoherentBut.coherent {matcher : Matcher} {c : Catalog} {skip : Path → Prop}
    (h : c.CoherentBut skip matcher) (hskip : ∀ p, ¬ skip p) : c.Coherent matcher :=
  ⟨fun p f => h.results p f (hskip p), fun r hr => (h.indexed r hr).resolve_left (hskip _)⟩

theorem empty_stamped : empty.Stamped := by
  intro p f h
  cases h

theorem empty_coherent (matcher : Matcher) : empty.Coherent matcher := by
  constructor
  · intro p f h
    cases h
  · intro r hr
    cases hr

/-! ## Steps by path -/

theorem filter_steps_eq_nil {es : List (Path × Feature)} {p : Path}
    (hs : ∀ e ∈ es, e.2.StampedBy e.1) (hp : p ∉ es.map Prod.fst) :
    ((es.map (·.2)).flatMap Feature.steps).filter (·.source = p) = [] := by
  rw [List.filter_eq_nil_iff]
  intro s hm
  simp only [List.mem_flatMap, List.mem_map] at hm
  obtain ⟨f, ⟨e, he, rfl⟩, hsf⟩ := hm
  have hsrc : s.source = e.1 := (hs e he).steps s hsf
  simp only [hsrc, decide_eq_true_eq]
  exact fun h => hp (h ▸ List.mem_map_of_mem he)

theorem filter_steps_of_lookup {es : List (Path × Feature)} {p : Path} {f : Feature}
    (hs : ∀ e ∈ es, e.2.StampedBy e.1) (hn : (es.map Prod.fst).Nodup) (h : es.lookup p = some f) :
    ((es.map (·.2)).flatMap Feature.steps).filter (·.source = p) = f.steps := by
  induction es with
  | nil => simp at h
  | cons e rest ih =>
    obtain ⟨q, g⟩ := e
    rw [List.map_cons, List.nodup_cons] at hn
    have hg : g.StampedBy q := hs (q, g) List.mem_cons_self
    have hrest : ∀ e ∈ rest, e.2.StampedBy e.1 := fun e he => hs e (List.mem_cons_of_mem _ he)
    rw [List.map_cons, List.flatMap_cons, List.filter_append]
    rw [List.lookup_cons] at h
    by_cases hq : p = q
    · subst hq
      simp only [beq_self_eq_true, Option.some.injEq] at h
      subst h
      rw [filter_steps_eq_nil hrest hn.1, List.append_nil, List.filter_eq_self]
      intro s hsg
      simpa using hg.steps s hsg
    · have hb : (p == q) = false := by simpa using hq
      rw [hb] at h
      have hnil : g.steps.filter (·.source = p) = [] := by
        rw [List.filter_eq_nil_iff]
        intro s hsg
        simpa [hg.steps s hsg] using fun e : q = p => hq e.symm
      rw [hnil, List.nil_append]
      exact ih hrest hn.2 h

theorem Stamped.of_mem {c : Catalog} (h : c.Stamped) {e : Path × Feature}
    (he : e ∈ c.features.entries) :
    e.2.StampedBy e.1 :=
  h e.1 e.2 (PathMap.mem_entries_iff.mp he)

theorem filter_steps {c : Catalog} (hs : c.Stamped) {p : Path} {f : Feature}
    (h : c.features.get? p = some f) :
    c.steps.filter (·.source = p) = f.steps :=
  filter_steps_of_lookup (fun _ he => hs.of_mem he) c.features.unique h

theorem contains_source_of_mem_steps {c : Catalog} (hs : c.Stamped) {s : Step} (h : s ∈ c.steps) :
    c.features.contains s.source = true := by
  simp only [steps, PathMap.values, List.mem_flatMap, List.mem_map] at h
  obtain ⟨f, ⟨e, he, rfl⟩, hsf⟩ := h
  rw [(hs.of_mem he).steps s hsf]
  exact PathMap.contains_iff.mpr ⟨e.2, PathMap.mem_entries_iff.mp he⟩

/-! ## Matching anew -/

/-- Matching every step makes a stamped catalog coherent. -/
theorem rematch_coherent {matcher : Matcher} {c c' : Catalog} (hs : c.Stamped)
    (h : c.rematch matcher = .ok c') :
    c'.Coherent matcher := by
  rw [rematch, bind_eq_ok_iff] at h
  obtain ⟨rs, hrs, h⟩ := h
  rw [pure_eq_ok_iff] at h
  subst h
  constructor
  · intro p f hf
    have hfil := matchSteps_filter (fun s => decide (s.source = p)) hrs
    rw [filter_steps hs hf] at hfil
    exact hfil
  · intro r hr
    have hmem : r.step ∈ c.steps := map_step_of_matchSteps hrs ▸ List.mem_map_of_mem hr
    exact contains_source_of_mem_steps hs hmem

theorem features_of_rematch {matcher : Matcher} {c c' : Catalog} (h : c.rematch matcher = .ok c') :
    c'.features = c.features ∧ c'.definitions = c.definitions := by
  rw [rematch, bind_eq_ok_iff] at h
  obtain ⟨rs, -, h⟩ := h
  rw [pure_eq_ok_iff] at h
  subst h
  exact ⟨rfl, rfl⟩

theorem stamped_of_features_eq {c c' : Catalog} (h : c'.features = c.features) (hs : c.Stamped) :
    c'.Stamped := by
  intro p f hf
  rw [h] at hf
  exact hs p f hf

theorem rematch_stamped {matcher : Matcher} {c c' : Catalog} (hs : c.Stamped)
    (h : c.rematch matcher = .ok c') :
    c'.Stamped :=
  stamped_of_features_eq (features_of_rematch h).1 hs

/-- The results for the steps of a path belong to that path. -/
theorem source_of_matchSteps {matcher : Matcher} {c : Catalog} (hs : c.Stamped) {p : Path}
    {ds : List Definition} {rs : List MatchResult}
    (h : matchSteps matcher (c.stepsAt p) ds = .ok rs) :
    ∀ r ∈ rs, r.step.source = p ∧ c.features.contains p = true := by
  intro r hr
  have hmem : r.step ∈ c.stepsAt p := map_step_of_matchSteps h ▸ List.mem_map_of_mem hr
  rw [stepsAt] at hmem
  cases hf : c.features.get? p with
  | none => simp [hf] at hmem
  | some f =>
    rw [hf] at hmem
    exact ⟨(hs p f hf).steps _ hmem, PathMap.contains_iff.mpr ⟨f, hf⟩⟩

/-- New results of one path take the place of its old ones. -/
theorem filter_source_replaced {p : Path} {rs : List MatchResult}
    (hsource : ∀ r ∈ rs, r.step.source = p) (old : List MatchResult) (q : Path) :
    (old.filter (·.step.source ≠ p) ++ rs).filter (fun r => r.step.source = q) =
      if q = p then rs else old.filter fun r => r.step.source = q := by
  rw [List.filter_append, List.filter_filter]
  by_cases hqp : q = p
  · subst hqp
    have hall : rs.filter (fun r => decide (r.step.source = q)) = rs := by
      rw [List.filter_eq_self]
      intro r hr
      simpa using hsource r hr
    have hnil : old.filter (fun r => decide (r.step.source = q) && decide (r.step.source ≠ q)) =
        [] := by simp
    rw [hall, hnil, List.nil_append, if_pos rfl]
  · have hnil : rs.filter (fun r => decide (r.step.source = q)) = [] := by
      rw [List.filter_eq_nil_iff]
      intro r hr
      simpa [hsource r hr] using fun e : p = q => hqp e.symm
    have hsame : old.filter (fun r => decide (r.step.source = q) && decide (r.step.source ≠ p)) =
        old.filter fun r => r.step.source = q := by
      apply List.filter_congr
      intro r _
      by_cases hr : r.step.source = q
      · simp [hr, hqp]
      · simp [hr]
    rw [hnil, List.append_nil, hsame, if_neg hqp]

/-- Matching the steps of one path mends that path and leaves the others as they are. -/
theorem rematchFile_coherentBut {matcher : Matcher} {c c' : Catalog} {skip : Path → Prop} {p : Path}
    (hs : c.Stamped) (hc : c.CoherentBut skip matcher) (h : c.rematchFile matcher p = .ok c') :
    c'.CoherentBut (fun q => skip q ∧ q ≠ p) matcher := by
  rw [rematchFile, bind_eq_ok_iff] at h
  obtain ⟨rs, hrs, h⟩ := h
  rw [pure_eq_ok_iff] at h
  subst h
  have hsource := source_of_matchSteps hs hrs
  constructor
  · intro q f hq hf
    show matchSteps matcher f.steps c.allDefinitions =
      .ok ((c.results.filter (·.step.source ≠ p) ++ rs).filter fun r => r.step.source = q)
    rw [filter_source_replaced fun r hr => (hsource r hr).1]
    by_cases hqp : q = p
    · subst hqp
      have hf' : c.features.get? q = some f := hf
      rw [if_pos rfl, ← hrs, stepsAt, hf']
      rfl
    · rw [if_neg hqp]
      exact hc.results q f (fun hsk => hq ⟨hsk, hqp⟩) hf
  · intro r hr
    rcases List.mem_append.mp hr with hr | hr
    · obtain ⟨hmem, hne⟩ := List.mem_filter.mp hr
      rcases hc.indexed r hmem with hsk | hin
      · exact .inl ⟨hsk, by simpa using hne⟩
      · exact .inr hin
    · obtain ⟨hp, hin⟩ := hsource r hr
      rw [hp]
      exact .inr hin

theorem features_of_rematchFile {matcher : Matcher} {c c' : Catalog} {p : Path}
    (h : c.rematchFile matcher p = .ok c') :
    c'.features = c.features ∧ c'.definitions = c.definitions := by
  rw [rematchFile, bind_eq_ok_iff] at h
  obtain ⟨rs, -, h⟩ := h
  rw [pure_eq_ok_iff] at h
  subst h
  exact ⟨rfl, rfl⟩

theorem entries_of_rematchFiles {matcher : Matcher} {ps : List Path} {c c' : Catalog}
    {fault : Option Fault} (h : c.rematchFiles matcher ps = (c', fault)) :
    c'.features = c.features ∧ c'.definitions = c.definitions := by
  induction ps generalizing c with
  | nil =>
    rw [rematchFiles] at h
    cases h
    exact ⟨rfl, rfl⟩
  | cons p ps ih =>
    rw [rematchFiles] at h
    cases hp : c.rematchFile matcher p with
    | error fault =>
      rw [hp] at h
      cases h
      exact ⟨rfl, rfl⟩
    | ok c₁ =>
      rw [hp] at h
      obtain ⟨hf, hd⟩ := features_of_rematchFile hp
      obtain ⟨hf', hd'⟩ := ih h
      exact ⟨hf'.trans hf, hd'.trans hd⟩

theorem rematchFiles_coherentBut {matcher : Matcher} {ps : List Path} {c c' : Catalog}
    {skip : Path → Prop} (hs : c.Stamped) (hc : c.CoherentBut skip matcher)
    (h : c.rematchFiles matcher ps = (c', none)) :
    c'.CoherentBut (fun q => skip q ∧ q ∉ ps) matcher := by
  induction ps generalizing c skip with
  | nil =>
    rw [rematchFiles] at h
    cases h
    simpa using hc
  | cons p ps ih =>
    rw [rematchFiles] at h
    cases hp : c.rematchFile matcher p with
    | error fault => rw [hp] at h; cases h
    | ok c₁ =>
      rw [hp] at h
      have hs₁ := stamped_of_features_eq (features_of_rematchFile hp).1 hs
      simpa [and_assoc] using ih hs₁ (rematchFile_coherentBut hs hc hp) h

/-! ## Entering files -/

theorem setFeature_stamped {c : Catalog} (hs : c.Stamped) {p : Path} {f : Feature}
    (hf : f.StampedBy p) :
    (c.setFeature p f).Stamped := by
  intro q g hg
  rw [setFeature, PathMap.get?_set] at hg
  by_cases hq : q = p
  · rw [if_pos hq, Option.some.injEq] at hg
    rw [hq, ← hg]
    exact hf
  · rw [if_neg hq] at hg
    exact hs q g hg

theorem removeFeature_stamped {c : Catalog} (hs : c.Stamped) (p : Path) :
    (c.removeFeature p).Stamped := by
  intro q g hg
  rw [removeFeature, PathMap.get?_remove] at hg
  by_cases hq : q = p
  · rw [if_pos hq] at hg
    cases hg
  · rw [if_neg hq] at hg
    exact hs q g hg

/-- Entering a loaded file into a draft, or the entry that it had before. -/
theorem stage_stamped {c before : Catalog} (hs : c.Stamped) (hb : before.Stamped) (cls : FileClass)
    {p : Path} {l : Loaded} (hl : l.StampedBy p) : (c.stage before cls p l).Stamped := by
  unfold stage
  split
  · exact setFeature_stamped hs (hl _ rfl)
  · cases hf : before.features.get? p with
    | none => exact hs
    | some f => exact setFeature_stamped hs (hb p f hf)
  · exact hs
  · cases before.definitions.get? p with
    | none => exact hs
    | some ds => exact hs
  · exact hs

/-- The features of a stamped catalog stand under their paths already. -/
theorem published_eq {c : Catalog} (hs : c.Stamped) : c.published = c := by
  have hfold : c.features.values.foldl (fun m f => m.set f.source f) PathMap.empty =
      c.features.entries.foldl (fun m e => m.set e.1 e.2) PathMap.empty := by
    rw [PathMap.values, List.foldl_map]
    apply List.foldl_ext
    intro m e he
    rw [(hs.of_mem he).source]
  have hmap : c.features.values.foldl (fun m f => m.set f.source f) PathMap.empty = c.features := by
    apply PathMap.eq_of_entries_eq
    rw [hfold]
    exact PathMap.entries_foldl_set c.features.entries .empty c.features.unique
  rw [published, hmap]

/-! ## Changed files -/

theorem applyChange_stamped {c : Catalog} (hs : c.Stamped) (p : Path) (change : Change) {l : Loaded}
    (hl : l.StampedBy p) : (c.applyChange p change l).Stamped := by
  unfold applyChange
  split
  · exact removeFeature_stamped hs p
  · exact setFeature_stamped hs (hl _ rfl)
  · exact hs
  · exact hs
  · exact hs

/-- A change of a feature touches the features of its own path and nothing else. -/
theorem applyChange_feature {c : Catalog} {p : Path} {change : Change} (h : change.cls = .feature)
    (l : Loaded) :
    (c.applyChange p change l).definitions = c.definitions ∧
      (c.applyChange p change l).results = c.results ∧
      ∀ q, q ≠ p → (c.applyChange p change l).features.get? q = c.features.get? q := by
  unfold applyChange
  split
  · refine ⟨rfl, rfl, fun q hq => ?_⟩
    rw [removeFeature, PathMap.get?_remove, if_neg hq]
  · refine ⟨rfl, rfl, fun q hq => ?_⟩
    rw [setFeature, PathMap.get?_set, if_neg hq]
  · simp_all
  · simp_all
  · exact ⟨rfl, rfl, fun q _ => rfl⟩

def applyChanges (c : Catalog) (changes : List (Path × Change × Loaded)) : Catalog :=
  changes.foldl (fun c (p, change, l) => c.applyChange p change l) c

theorem applyChanges_cons (c : Catalog) (p : Path) (change : Change) (l : Loaded)
    (rest : List (Path × Change × Loaded)) :
    c.applyChanges ((p, change, l) :: rest) = (c.applyChange p change l).applyChanges rest := rfl

theorem applyChanges_stamped {changes : List (Path × Change × Loaded)} {c : Catalog}
    (hs : c.Stamped) (hl : ∀ e ∈ changes, e.2.2.StampedBy e.1) :
    (c.applyChanges changes).Stamped := by
  induction changes generalizing c with
  | nil => exact hs
  | cons e rest ih =>
    obtain ⟨p, change, l⟩ := e
    rw [applyChanges_cons]
    exact ih (applyChange_stamped hs p change (hl _ List.mem_cons_self))
      (fun e he => hl e (List.mem_cons_of_mem _ he))

theorem applyChanges_features {changes : List (Path × Change × Loaded)} (c : Catalog)
    (hf : ∀ e ∈ changes, e.2.1.cls = .feature) :
    (c.applyChanges changes).definitions = c.definitions ∧
      (c.applyChanges changes).results = c.results ∧
      ∀ q, q ∉ changes.map (·.1) →
        (c.applyChanges changes).features.get? q = c.features.get? q := by
  induction changes generalizing c with
  | nil => exact ⟨rfl, rfl, fun q _ => rfl⟩
  | cons e rest ih =>
    obtain ⟨p, change, l⟩ := e
    rw [applyChanges_cons]
    obtain ⟨hd, hr, hq⟩ := applyChange_feature (c := c) (p := p) (hf _ List.mem_cons_self) l
    obtain ⟨hd', hr', hq'⟩ :=
      ih (c.applyChange p change l) (fun e he => hf e (List.mem_cons_of_mem _ he))
    refine ⟨hd'.trans hd, hr'.trans hr, fun q hne => ?_⟩
    rw [List.map_cons, List.mem_cons, not_or] at hne
    rw [hq' q hne.2, hq q hne.1]

/-- Changed features leave a coherent catalog in order at all other paths. -/
theorem applyChanges_coherentBut {matcher : Matcher} {changes : List (Path × Change × Loaded)}
    {c : Catalog} (hc : c.Coherent matcher) (hf : ∀ e ∈ changes, e.2.1.cls = .feature) :
    (c.applyChanges changes).CoherentBut (· ∈ changes.map (·.1)) matcher := by
  obtain ⟨hd, hr, hq⟩ := applyChanges_features c hf
  have hall : (c.applyChanges changes).allDefinitions = c.allDefinitions := by
    rw [allDefinitions, hd]
    rfl
  constructor
  · intro p f hp hget
    rw [hq p hp] at hget
    rw [hall, hr]
    exact hc.results p f hget
  · intro r hmem
    rw [hr] at hmem
    by_cases hp : r.step.source ∈ changes.map (·.1)
    · exact .inl hp
    · obtain ⟨f, hget⟩ := PathMap.contains_iff.mp (hc.indexed r hmem)
      exact .inr (PathMap.contains_iff.mpr ⟨f, (hq _ hp).trans hget⟩)

theorem refresh_eq (matcher : Matcher) (c : Catalog) (changes : List (Path × Change × Loaded)) :
    c.refresh matcher changes =
      if changes.any fun (_, change, _) => change.cls = .definition then
        match (c.applyChanges changes).rematch matcher with
        | .ok c => (c, none)
        | .error fault => (c.applyChanges changes, some fault)
      else (c.applyChanges changes).rematchFiles matcher (changes.map (·.1)) := rfl

/-- A refresh enters the changed files and touches nothing else but results, whether or not it
fails. -/
theorem entries_of_refresh {matcher : Matcher} {changes : List (Path × Change × Loaded)}
    {c c' : Catalog} {fault : Option Fault} (h : c.refresh matcher changes = (c', fault)) :
    c'.features = (c.applyChanges changes).features ∧
      c'.definitions = (c.applyChanges changes).definitions := by
  rw [refresh_eq] at h
  split at h
  · cases hr : (c.applyChanges changes).rematch matcher with
    | error fault =>
      rw [hr] at h
      cases h
      exact ⟨rfl, rfl⟩
    | ok c₁ =>
      rw [hr] at h
      cases h
      exact features_of_rematch hr
  · exact entries_of_rematchFiles h

/-- A refresh that does not fail keeps a catalog coherent, whether it matches all steps anew or
those of the changed files alone. -/
theorem refresh_coherent {matcher : Matcher} {changes : List (Path × Change × Loaded)}
    {c c' : Catalog} (hs : c.Stamped) (hc : c.Coherent matcher)
    (hl : ∀ e ∈ changes, e.2.2.StampedBy e.1) (h : c.refresh matcher changes = (c', none)) :
    c'.Stamped ∧ c'.Coherent matcher := by
  have hsa : (c.applyChanges changes).Stamped := applyChanges_stamped hs hl
  rw [refresh_eq] at h
  split at h
  · cases hr : (c.applyChanges changes).rematch matcher with
    | error fault => rw [hr] at h; cases h
    | ok c₁ =>
      rw [hr] at h
      cases h
      exact ⟨rematch_stamped hsa hr, rematch_coherent hsa hr⟩
  · rename_i hany
    have hf : ∀ e ∈ changes, e.2.1.cls = .feature := by
      intro e he
      cases hcls : e.2.1.cls with
      | feature => rfl
      | definition => exact absurd (List.any_eq_true.mpr ⟨e, he, by simpa using hcls⟩) hany
    have hc' := rematchFiles_coherentBut hsa (applyChanges_coherentBut hc hf) h
    exact ⟨stamped_of_features_eq (entries_of_rematchFiles h).1 hsa, hc'.coherent fun p hp =>
      hp.2 hp.1⟩

/-! ## When steps can be matched -/

/-- No pattern of a definition fails on any step. -/
def Matchable (matcher : Matcher) (c : Catalog) : Prop :=
  ∀ s ∈ c.steps, ∀ d ∈ c.allDefinitions, ∃ b, d.serves matcher s = .ok b

theorem Matchable.congr {matcher : Matcher} {c c' : Catalog} (hf : c'.features = c.features)
    (hd : c'.definitions = c.definitions) (h : c.Matchable matcher) : c'.Matchable matcher := by
  unfold Matchable steps allDefinitions at h ⊢
  rw [hf, hd]
  exact h

theorem exists_rematch_iff {matcher : Matcher} {c : Catalog} :
    (∃ c', c.rematch matcher = .ok c') ↔ c.Matchable matcher := by
  rw [Matchable, ← exists_matchSteps_iff]
  constructor
  · rintro ⟨c', h⟩
    obtain ⟨rs, hrs, -⟩ := bind_eq_ok_iff.mp h
    exact ⟨rs, hrs⟩
  · rintro ⟨rs, hrs⟩
    exact ⟨_, bind_eq_ok_iff.mpr ⟨rs, hrs, rfl⟩⟩

/-- The results of a coherent catalog could only come about because nothing failed. -/
theorem Coherent.matchable {matcher : Matcher} {c : Catalog} (h : c.Coherent matcher) :
    c.Matchable matcher := by
  intro s hs
  obtain ⟨f, hf, hsf⟩ := List.mem_flatMap.mp hs
  obtain ⟨⟨p, _⟩, he, rfl⟩ := List.mem_map.mp hf
  exact exists_matchSteps_iff.mp ⟨_, h.results p _ (PathMap.mem_entries_iff.mp he)⟩ s hsf

theorem mem_steps_iff {c : Catalog} {st : Step} : st ∈ c.steps ↔ ∃ p, st ∈ c.stepsAt p := by
  constructor
  · intro h
    obtain ⟨f, hf, hst⟩ := List.mem_flatMap.mp h
    obtain ⟨⟨p, _⟩, he, rfl⟩ := List.mem_map.mp hf
    exact ⟨p, by rw [stepsAt, PathMap.mem_entries_iff.mp he]; exact hst⟩
  · rintro ⟨p, h⟩
    unfold stepsAt at h
    cases hf : c.features.get? p with
    | none => simp [hf] at h
    | some f =>
      rw [hf] at h
      refine List.mem_flatMap.mpr ⟨f, ?_, h⟩
      exact List.mem_map.mpr ⟨(p, f), PathMap.mem_entries_iff.mpr hf, rfl⟩

theorem rematchFiles_eq_none_iff {matcher : Matcher} {ps : List Path} {c : Catalog} :
    (c.rematchFiles matcher ps).2 = none ↔
      ∀ p ∈ ps, ∀ st ∈ c.stepsAt p, ∀ d ∈ c.allDefinitions, ∃ b, d.serves matcher st = .ok b := by
  induction ps generalizing c with
  | nil => simp [rematchFiles]
  | cons p ps ih =>
    rw [rematchFiles, List.forall_mem_cons, ← exists_matchSteps_iff]
    cases hp : c.rematchFile matcher p with
    | error fault =>
      refine ⟨fun h => (by cases h), ?_⟩
      rintro ⟨⟨rs, hrs⟩, -⟩
      rw [rematchFile, hrs] at hp
      cases hp
    | ok c₁ =>
      obtain ⟨hf, hd⟩ := features_of_rematchFile hp
      obtain ⟨rs, hrs, -⟩ := bind_eq_ok_iff.mp hp
      dsimp only
      rw [ih, allDefinitions, hd]
      simp only [stepsAt, hf]
      exact ⟨fun h => ⟨⟨rs, hrs⟩, h⟩, fun h => h.2⟩

theorem refresh_eq_none_iff {matcher : Matcher} {loaded : List (Path × Change × Loaded)}
    {c : Catalog} :
    (c.refresh matcher loaded).2 = none ↔
      ∀ p, (p ∈ loaded.map (·.1) ∨ ∃ e ∈ loaded, e.2.1.cls = .definition) →
        ∀ st ∈ (c.applyChanges loaded).stepsAt p, ∀ d ∈ (c.applyChanges loaded).allDefinitions,
          ∃ b, d.serves matcher st = .ok b := by
  rw [refresh_eq]
  split
  · rename_i hany
    have hdef : ∃ e ∈ loaded, e.2.1.cls = .definition := by simpa using hany
    have hall : (c.applyChanges loaded).Matchable matcher ↔
        ∀ p, (p ∈ loaded.map (·.1) ∨ ∃ e ∈ loaded, e.2.1.cls = .definition) →
          ∀ st ∈ (c.applyChanges loaded).stepsAt p, ∀ d ∈ (c.applyChanges loaded).allDefinitions,
            ∃ b, d.serves matcher st = .ok b := by
      constructor
      · exact fun h p _ st hst => h st (mem_steps_iff.mpr ⟨p, hst⟩)
      · intro h st hst
        obtain ⟨p, hp⟩ := mem_steps_iff.mp hst
        exact h p (.inr hdef) st hp
    rw [← hall, ← exists_rematch_iff]
    cases (c.applyChanges loaded).rematch matcher with
    | ok c' => simp
    | error fault => simp
  · rename_i hany
    have hdef : ¬ ∃ e ∈ loaded, e.2.1.cls = .definition := by simpa using hany
    rw [rematchFiles_eq_none_iff]
    simp only [hdef, or_false]

end Catalog
end StepAtlas
