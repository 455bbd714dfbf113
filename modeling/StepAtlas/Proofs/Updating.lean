import StepAtlas.Proofs.Listing

/-
What changed files make of a catalog, said without entering them: a file that is gone has no entry
any more, a file that brings something has it as its entry, and all else is as before.  Then the
steps that a change may touch are matched: every step if a script has changed, and else those of the
changed files.  In that case the results of all other files stay where they are.
-/

namespace StepAtlas

/-- The steps of a file are to be matched anew after some changes. -/
def Touches (changes : PathMap Change) (p : Path) : Prop :=
  (∃ change, changes.get? p = some change) ∨
    ∃ q change, changes.get? q = some change ∧ change.cls = .definition

namespace Site

/-- What a catalog has of a changed file afterwards.  A file that brings nothing of its class keeps
its entry. -/
def updated? (s : Site) (before : Catalog) (p : Path) (change : Change) : Option Loaded :=
  if change.kind = .deleted then none
  else match s.load change.cls p with
    | .ok x => if x.fits change.cls then some x else before.listed? change.cls p
    | .error _ => before.listed? change.cls p

structure Updates (s : Site) (changes : PathMap Change) (before c : Catalog) : Prop where
  changed : ∀ p change, changes.get? p = some change →
    c.listed? change.cls p = s.updated? before p change
  others : ∀ p cls, (∀ change, changes.get? p = some change → change.cls ≠ cls) →
    c.listed? cls p = before.listed? cls p

/-- Nothing fails when changes are applied: no warning about a file, and no pattern on a step that
is matched anew. -/
structure Applicable (s : Site) (matcher : Matcher) (changes : PathMap Change) (before : Catalog) :
    Prop where
  warnings : ∀ p change, changes.get? p = some change → change.kind ≠ .deleted →
    s.Warns change.cls p
  patterns : ∀ c, s.Updates changes before c → ∀ p, Touches changes p →
    ∀ st ∈ c.stepsAt p, ∀ d ∈ c.allDefinitions, ∃ b, d.serves matcher st = .ok b

def Brought (s : Site) (changes : PathMap Change) (loaded : List (Path × Change × Loaded)) : Prop :=
  List.Forall₂ (fun e x => x.1 = e.1 ∧ x.2.1 = e.2 ∧
    (e.2.kind ≠ .deleted → s.load e.2.cls e.1 = .ok x.2.2))
    changes.entries loaded

theorem Updates.listed?_eq {s : Site} {changes : PathMap Change} {before c c' : Catalog}
    (h : s.Updates changes before c) (h' : s.Updates changes before c') (cls : FileClass)
    (p : Path) :
    c.listed? cls p = c'.listed? cls p := by
  by_cases hp : ∃ change, changes.get? p = some change ∧ change.cls = cls
  · obtain ⟨change, hget, rfl⟩ := hp
    rw [h.changed p change hget, h'.changed p change hget]
  · have hother : ∀ change, changes.get? p = some change → change.cls ≠ cls :=
      fun change hget hcls => hp ⟨change, hget, hcls⟩
    rw [h.others p cls hother, h'.others p cls hother]

theorem updated?_answering (s : Site) {file p : Path} (hp : p ≠ file)
    (answer : Except Fault FileContent) (before : Catalog) (change : Change) :
    (s.answering file answer).updated? before p change = s.updated? before p change := by
  rw [updated?, s.load_answering hp]
  rfl

namespace Brought
variable {s : Site} {changes : PathMap Change} {loaded : List (Path × Change × Loaded)}
  (h : s.Brought changes loaded)

include h

theorem map_fst : loaded.map (·.1) = changes.entries.map Prod.fst := by
  unfold Brought at h
  generalize changes.entries = es at h
  induction h with
  | nil => rfl
  | cons hx _ ih => rw [List.map_cons, List.map_cons, hx.1, ih]

theorem exists_mem {p : Path} {change : Change} (hp : changes.get? p = some change) :
    ∃ x, (p, change, x) ∈ loaded ∧ (change.kind ≠ .deleted → s.load change.cls p = .ok x) := by
  have hmem : (p, change) ∈ changes.entries := PathMap.mem_entries_iff.mpr hp
  unfold Brought at h
  generalize changes.entries = es at h hmem
  induction h with
  | nil => cases hmem
  | @cons e y es loaded hy _ ih =>
    rcases List.mem_cons.mp hmem with rfl | hmem
    · obtain ⟨q, change', x⟩ := y
      obtain ⟨rfl, rfl, hload⟩ := hy
      exact ⟨x, List.mem_cons_self, hload⟩
    · obtain ⟨x, hx, hload⟩ := ih hmem
      exact ⟨x, List.mem_cons_of_mem _ hx, hload⟩

theorem get?_of_mem {e : Path × Change × Loaded} (he : e ∈ loaded) :
    changes.get? e.1 = some e.2.1 := by
  rw [← PathMap.mem_entries_iff]
  unfold Brought at h
  generalize changes.entries = es at h
  induction h with
  | nil => cases he
  | cons hx _ ih =>
    rcases List.mem_cons.mp he with rfl | he
    · rw [hx.1, hx.2.1]
      exact List.mem_cons_self
    · exact List.mem_cons_of_mem _ (ih he)

/-- Entering changes with what their files bring comes to what they say. -/
theorem updates (before : Catalog) : s.Updates changes before (before.applyChanges loaded) := by
  have hnodup : (loaded.map (·.1)).Nodup := h.map_fst ▸ changes.unique
  constructor
  · intro p change hp
    obtain ⟨x, hmem, hload⟩ := h.exists_mem hp
    rw [Catalog.listed?_applyChanges_of_mem _ _ hnodup hmem, Catalog.listed?_applyChange,
      if_pos ⟨rfl, rfl⟩, updated?]
    by_cases hk : change.kind = .deleted
    · rw [if_pos hk, if_pos hk]
    · rw [if_neg hk, if_neg hk, hload hk]
  · intro p cls hcls
    refine Catalog.listed?_applyChanges_of_cls_ne before fun e he heq => hcls e.2.1 ?_
    rw [← heq, h.get?_of_mem he]

end Brought

end Site

/-! ## What a file brings -/

namespace Site

/-- What a file brings for a catalog: the feature or the definitions in it, if it can be read, is
not too large and can be understood. -/
def brings? (s : Site) (cls : FileClass) (p : Path) : Option Loaded :=
  match s.workspace.read p with
  | .error _ => none
  | .ok file =>
    if s.sizeLimit < file.size then none
    else match cls with
      | .feature => (s.workspace.feature p file.text).toOption.join.map .feature
      | .definition => (s.workspace.definitions p file.text).toOption.map .definitions

theorem brings?_eq (s : Site) (cls : FileClass) (p : Path) : s.brings? cls p = match cls with
    | .feature => (s.feature? .empty p).map .feature
    | .definition => (s.definitions? .empty p).map .definitions := by
  unfold brings? feature? definitions? record?
  cases s.workspace.read p with
  | error fault => cases cls <;> rfl
  | ok file =>
    dsimp only
    split
    · cases cls <;> rfl
    · cases cls with
      | feature => rfl
      | definition => cases s.workspace.definitions p file.text <;> rfl

/-- It is the entry of the file in a catalog that had none before. -/
theorem brings?_eq_listed? (s : Site) (cls : FileClass) (p : Path) :
    s.brings? cls p = (s.enter .empty cls [p] .empty).listed? cls p := by
  rw [brings?_eq, enter_singleton]
  cases cls with
  | feature =>
    cases s.feature? .empty p with
    | none => rfl
    | some f => exact congrArg (Option.map Loaded.feature) (PathMap.get?_set_self _ p f).symm
  | definition =>
    cases s.definitions? .empty p with
    | none => rfl
    | some ds => exact congrArg (Option.map Loaded.definitions) (PathMap.get?_set_self _ p ds).symm

theorem brings?_of_load {s : Site} {cls : FileClass} {p : Path} {x : Loaded}
    (h : s.load cls p = .ok x) :
    s.brings? cls p = if x.fits cls then some x else none := by
  have hnone : Catalog.listed? .empty cls p = none := by cases cls <;> rfl
  rw [brings?_eq_listed?, ← stage_eq_enter h, Catalog.listed?_stage, hnone]
  simp

end Site

/-! ## Results of other files -/

namespace Catalog

/-- Matching the steps of some files anew leaves the results of the others as they are, in their
order. -/
theorem results_of_rematchFiles {matcher : Matcher} {ps : List Path} {c c' : Catalog}
    (hs : c.Stamped) (h : c.rematchFiles matcher ps = (c', none)) (keep : Path → Bool)
    (hk : ∀ p ∈ ps, keep p = false) :
    c'.results.filter (fun r => keep r.step.source) = c.results.filter fun r =>
      keep r.step.source := by
  induction ps generalizing c with
  | nil =>
    rw [rematchFiles] at h
    cases h
    rfl
  | cons p ps ih =>
    obtain ⟨hp, hps⟩ := List.forall_mem_cons.mp hk
    rw [rematchFiles] at h
    cases hfile : c.rematchFile matcher p with
    | error fault => rw [hfile] at h; cases h
    | ok c₁ =>
      rw [hfile] at h
      have hs₁ := stamped_of_features_eq (features_of_rematchFile hfile).1 hs
      rw [ih hs₁ h hps]
      rw [rematchFile, bind_eq_ok_iff] at hfile
      obtain ⟨rs, hrs, hfile⟩ := hfile
      rw [pure_eq_ok_iff] at hfile
      subst hfile
      show (c.results.filter (·.step.source ≠ p) ++ rs).filter _ = _
      have hnew : rs.filter (fun r => keep r.step.source) = [] := by
        rw [List.filter_eq_nil_iff]
        intro r hr
        rw [(source_of_matchSteps hs hrs r hr).1, hp]
        simp
      rw [List.filter_append, hnew, List.append_nil, List.filter_filter]
      refine List.filter_congr fun r _ => ?_
      by_cases hr : r.step.source = p
      · simp [hr, hp]
      · simp [hr]

theorem results_of_refresh {matcher : Matcher} {changes : List (Path × Change × Loaded)}
    {c c' : Catalog} (hs : c.Stamped) (hl : ∀ e ∈ changes, e.2.2.StampedBy e.1)
    (hf : ∀ e ∈ changes, e.2.1.cls = .feature) (h : c.refresh matcher changes = (c', none))
    (keep : Path → Bool) (hk : ∀ e ∈ changes, keep e.1 = false) :
    c'.results.filter (fun r => keep r.step.source) = c.results.filter fun r =>
      keep r.step.source := by
  rw [refresh_eq, if_neg] at h
  swap
  · intro hany
    obtain ⟨e, he, hcls⟩ := List.any_eq_true.mp hany
    rw [decide_eq_true_iff, hf e he] at hcls
    cases hcls
  have hkeep : ∀ p ∈ changes.map (·.1), keep p = false := by
    intro p hp
    obtain ⟨e, he, rfl⟩ := List.mem_map.mp hp
    exact hk e he
  rw [results_of_rematchFiles (applyChanges_stamped hs hl) h keep hkeep,
    (applyChanges_features c hf).2.1]

end Catalog

/-- Applying changes with what their files bring fails only because of a pattern. -/
theorem Site.Brought.applicable_iff {s : Site} {changes : PathMap Change}
    {loaded : List (Path × Change × Loaded)} (h : s.Brought changes loaded) (matcher : Matcher)
    (before : Catalog) :
    s.Applicable matcher changes before ↔ (before.refresh matcher loaded).2 = none := by
  have htouches : ∀ p, Touches changes p ↔ p ∈ loaded.map (·.1) ∨
      ∃ e ∈ loaded, e.2.1.cls = .definition := by
    intro p
    refine or_congr ?_ ?_
    · constructor
      · rintro ⟨change, hp⟩
        obtain ⟨x, hx, -⟩ := h.exists_mem hp
        exact List.mem_map.mpr ⟨_, hx, rfl⟩
      · intro hp
        obtain ⟨e, he, rfl⟩ := List.mem_map.mp hp
        exact ⟨_, h.get?_of_mem he⟩
    · constructor
      · rintro ⟨q, change, hq, hcls⟩
        obtain ⟨x, hx, -⟩ := h.exists_mem hq
        exact ⟨_, hx, hcls⟩
      · rintro ⟨e, he, hcls⟩
        exact ⟨_, _, h.get?_of_mem he, hcls⟩
  rw [Catalog.refresh_eq_none_iff]
  constructor
  · intro ha p hp
    exact ha.patterns _ (h.updates before) p ((htouches p).mpr hp)
  · intro hpatterns
    refine ⟨?_, ?_⟩
    · intro p change hp hk
      obtain ⟨x, -, hload⟩ := h.exists_mem hp
      exact warns_iff.mpr ⟨x, hload hk⟩
    · -- A catalog with the same entries has the same steps and definitions, in whatever order.
      intro c hc p hp st hst d hd
      have hlisted := hc.listed?_eq (h.updates before)
      have hperm := PathMap.entries_perm (Catalog.definitions_eq_of_listed? hlisted)
      refine hpatterns p ((htouches p).mp hp) st ?_ d ?_
      · rw [Catalog.stepsAt, ← Catalog.features_eq_of_listed? hlisted p]
        exact hst
      · exact ((hperm.map Prod.snd).flatten).mem_iff.mp hd

end StepAtlas
