import StepAtlas.Proofs.Entries
import StepAtlas.Proofs.Keeper.Coherence

/-
What a catalog answers.  The questions about a catalog are answered from stored results, and a
definition counts as used if it is equal to one that some result has found.  `Answers` says what the
answers should be, from the steps and the definitions alone: which steps no definition serves, which
several serve, and which definitions serve none.

For a coherent catalog the stored results are those of its steps, each once and in another order at
most.  So every question about results is a question about steps.
-/

namespace StepAtlas

/-- A definition serves a step: the step accepts its keyword, and its pattern matches the text. -/
def Definition.Serves (matcher : Matcher) (s : Step) (d : Definition) : Prop :=
  s.keyword.accepts d.keyword = true ∧ d.isMatch matcher s.text = .ok true

instance (matcher : Matcher) (s : Step) (d : Definition) : Decidable (d.Serves matcher s) :=
  inferInstanceAs
    (Decidable (s.keyword.accepts d.keyword = true ∧ d.isMatch matcher s.text = .ok true))

theorem Definition.servesStep_eq (matcher : Matcher) (s : Step) (d : Definition) :
    d.servesStep matcher s = decide (d.Serves matcher s) := by
  unfold servesStep serves Serves
  by_cases hk : s.keyword.accepts d.keyword = true
  · simp only [hk, if_true, true_and]
    cases d.isMatch matcher s.text with
    | error fault => simp
    | ok b => simp
  · simp only [hk, if_false, false_and, decide_false, Bool.false_eq_true]

namespace Catalog

def servers (matcher : Matcher) (c : Catalog) (s : Step) : List Definition :=
  c.allDefinitions.filter fun d => d.Serves matcher s

structure Answers (matcher : Matcher) (c : Catalog) : Prop where
  /-- Whether a definition matches a step that accepts its keyword can be told. -/
  told : ∀ s ∈ c.steps, ∀ d ∈ c.allDefinitions, s.keyword.accepts d.keyword = true →
    ∃ b, d.isMatch matcher s.text = .ok b
  /-- The undefined steps are those that no definition serves. -/
  undefinedSteps :
    (c.undefinedSteps.map (·.step)).Perm (c.steps.filter fun s => (c.servers matcher s).length = 0)
  /-- The ambiguous steps are those that two or more definitions serve. -/
  ambiguousSteps :
    (c.ambiguousSteps.map (·.step)).Perm (c.steps.filter fun s => 2 ≤ (c.servers matcher s).length)
  /-- A step is shown with the definitions that serve it. -/
  found : ∀ r ∈ c.results, r.found = c.servers matcher r.step
  /-- The unused definitions are those that serve no step, in the order of the definitions. -/
  unusedDefinitions : c.unusedDefinitions = c.allDefinitions.filter fun d =>
    ¬ ∃ s ∈ c.steps, d.Serves matcher s
  /-- There is one result for each step. -/
  steps : c.stats.steps = c.results.length
  /-- A step is undefined, ambiguous, or served by exactly one definition. -/
  total : c.stats.undefinedSteps + c.stats.ambiguousSteps +
    (c.steps.filter fun s => (c.servers matcher s).length = 1).length = c.stats.steps

def resultOf (matcher : Matcher) (c : Catalog) (s : Step) : MatchResult :=
  { step := s, found := c.servers matcher s }

theorem eq_resultOf {matcher : Matcher} {c : Catalog} {s : Step} {r : MatchResult}
    (h : matchStep matcher c.allDefinitions s = .ok r) : r = c.resultOf matcher s := by
  rw [(matchStep_eq_ok_iff.mp h).2, resultOf, servers]
  simp only [Definition.servesStep_eq]

theorem eq_map_resultOf {matcher : Matcher} {c : Catalog} {ss : List Step} {rs : List MatchResult}
    (h : matchSteps matcher ss c.allDefinitions = .ok rs) : rs = ss.map (c.resultOf matcher) := by
  rw [matchSteps_eq_ok_iff] at h
  induction h with
  | nil => rfl
  | cons hr _ ih => rw [List.map_cons, eq_resultOf hr, ih]

/-- The results of a coherent catalog are those of its steps, in some order. -/
theorem Coherent.results_perm_steps {matcher : Matcher} {c : Catalog} (h : c.Coherent matcher) :
    c.results.Perm (c.steps.map (c.resultOf matcher)) := by
  have hfile : ∀ e ∈ c.features.entries,
      c.results.filter (·.step.source = e.1) = e.2.steps.map (c.resultOf matcher) := fun e he =>
    eq_map_resultOf (h.results e.1 e.2 (PathMap.mem_entries_iff.mp he))
  have hp := h.results_perm
  rw [List.flatMap_congr hfile, ← List.map_flatMap] at hp
  rw [steps, PathMap.values, List.flatMap_map]
  exact hp

/-- Choosing results by the number of definitions found is choosing steps by the number of
definitions that serve them. -/
theorem Coherent.filter_perm {matcher : Matcher} {c : Catalog} (h : c.Coherent matcher)
    (keep : Nat → Bool) :
    ((c.results.filter fun r => keep r.found.length).map (·.step)).Perm
      (c.steps.filter fun s => keep (c.servers matcher s).length) := by
  have hmap : ((c.steps.map (c.resultOf matcher)).filter fun r => keep r.found.length).map
        (·.step) =
      c.steps.filter fun s => keep (c.servers matcher s).length := by
    rw [List.filter_map, List.map_map]
    exact List.map_id _
  rw [← hmap]
  exact (h.results_perm_steps.filter _).map _

theorem undefinedSteps_eq (c : Catalog) :
    c.undefinedSteps = c.results.filter fun r => decide (r.found.length = 0) := by
  refine List.filter_congr fun r _ => ?_
  obtain ⟨step, found⟩ := r
  match found with
  | [] => rfl
  | [_] => rfl
  | _ :: _ :: _ => rfl

theorem ambiguousSteps_eq (c : Catalog) :
    c.ambiguousSteps = c.results.filter fun r => decide (2 ≤ r.found.length) := by
  refine List.filter_congr fun r _ => ?_
  obtain ⟨step, found⟩ := r
  match found with
  | [] => rfl
  | [_] => rfl
  | _ :: _ :: _ => simp [MatchResult.status]

/-- A definition of a coherent catalog is found by some result exactly when it serves some step. -/
theorem Coherent.mem_found_iff {matcher : Matcher} {c : Catalog} (h : c.Coherent matcher)
    {d : Definition} (hd : d ∈ c.allDefinitions) :
    d ∈ c.results.flatMap (·.found) ↔ ∃ s ∈ c.steps, d.Serves matcher s := by
  rw [List.mem_flatMap]
  constructor
  · rintro ⟨r, hr, hdr⟩
    obtain ⟨s, hs, rfl⟩ := List.mem_map.mp (h.results_perm_steps.mem_iff.mp hr)
    exact ⟨s, hs, by simpa using (List.mem_filter.mp hdr).2⟩
  · rintro ⟨s, hs, hserves⟩
    refine ⟨c.resultOf matcher s, h.results_perm_steps.mem_iff.mpr (List.mem_map_of_mem hs), ?_⟩
    exact List.mem_filter.mpr ⟨hd, by simpa using hserves⟩

theorem Coherent.unusedDefinitions_eq {matcher : Matcher} {c : Catalog} (h : c.Coherent matcher) :
    c.unusedDefinitions = c.allDefinitions.filter fun d => ¬ ∃ s ∈ c.steps, d.Serves matcher s := by
  refine List.filter_congr fun d hd => ?_
  have hiff := h.mem_found_iff hd
  rw [← List.contains_iff_mem] at hiff
  rw [← Bool.coe_iff_coe, Bool.not_eq_true', ← Bool.not_eq_true, hiff, decide_eq_true_iff]

theorem stats_steps (c : Catalog) : c.stats.steps = c.steps.length := by
  have hs : c.steps = (c.features.values.flatMap (·.scenarios)).flatMap (·.steps) :=
    List.flatMap_assoc.symm
  rw [hs]
  rfl

/-- A number is zero, two or more, or one. -/
theorem length_filter_by_number {α : Type} (number : α → Nat) (xs : List α) :
    (xs.filter fun x => number x = 0).length + (xs.filter fun x => 2 ≤ number x).length +
      (xs.filter fun x => number x = 1).length = xs.length := by
  induction xs with
  | nil => rfl
  | cons x xs ih =>
    have hx : number x = 0 ∨ 2 ≤ number x ∨ number x = 1 := by omega
    rcases hx with hx | hx | hx <;> grind

/-- A coherent catalog answers right. -/
theorem Coherent.answers {matcher : Matcher} {c : Catalog} (h : c.Coherent matcher) :
    c.Answers matcher := by
  have hundefined := h.filter_perm fun n => decide (n = 0)
  have hambiguous := h.filter_perm fun n => decide (2 ≤ n)
  rw [← undefinedSteps_eq] at hundefined
  rw [← ambiguousSteps_eq] at hambiguous
  refine ⟨?_, hundefined, hambiguous, ?_, h.unusedDefinitions_eq, ?_, ?_⟩
  · intro s hs d hd hk
    obtain ⟨b, hb⟩ := h.matchable s hs d hd
    rw [Definition.serves, if_pos hk] at hb
    exact ⟨b, hb⟩
  · intro r hr
    obtain ⟨s, -, rfl⟩ := List.mem_map.mp (h.results_perm_steps.mem_iff.mp hr)
    rfl
  · rw [stats_steps, h.results_perm_steps.length_eq, List.length_map]
  · have hu : c.stats.undefinedSteps = _ := (List.length_map _).symm.trans hundefined.length_eq
    have ha : c.stats.ambiguousSteps = _ := (List.length_map _).symm.trans hambiguous.length_eq
    rw [hu, ha, stats_steps]
    exact length_filter_by_number (fun s => (c.servers matcher s).length) c.steps

end Catalog

namespace Keeper

/-- In every course in which nothing fails, the catalog answers right at all times: it tells the
steps that no definition serves in the present mode, those that several serve, and the definitions
that serve no step. -/
theorem answers_after {w : Workspace} (hw : w.Stamps) (provider : Provider Unit) (groupSize : Nat)
    (limit : Int) (delay : Nat) (watchable : Bool) {ms : List Move}
    (h : Quiet KeepsFiles (new w provider groupSize limit delay watchable) ms) :
    ((new w provider groupSize limit delay watchable).after ms).catalog.Answers
      ((new w provider groupSize limit delay watchable).after ms).matcher := by
  have hsound : ((new w provider groupSize limit delay watchable).after ms).Sound :=
    h.induction (fun _ _ hk hm hraise hcalm => next_sound hk hm hraise hcalm)
      (new_sound hw provider groupSize limit delay watchable)
  exact hsound.coherent.answers

/-- Two features, and two scripts of which the first serves a step of the first feature. -/
def fourFiles : List (Path × Text) :=
  [(shortPath 'f' 'a', [.scalar 'x']), (shortPath 'f' 'b', [.scalar 'y']),
    (shortPath 's' 'a', [.scalar 'x']), (shortPath 's' 'b', [.scalar 'z'])]

/-- The catalog is built, a third script comes into being that serves the same step as the first,
and the mode is switched. -/
def thirdScriptCourse : List Move :=
  [.rebuild, .turn (.run 0), .turn (.load 0), .turn (.load 1), .turn (.report 0), .turn (.report 1),
    .turn (.run 0), .turn (.run 0), .turn (.load 2), .turn (.load 3), .turn (.report 2),
    .turn (.report 3), .turn (.run 0), .turn (.run 0),
    .edit (inMemory ((shortPath 's' 'c', [.scalar 'x']) :: fourFiles)),
    .notify (shortPath 's' 'c') { cls := .definition, kind := .created }, .refresh, .turn (.run 2),
    .turn (.load 4), .turn (.report 4), .turn (.run 2), .switchMode .expressionOnly]

theorem answers_after_thirdScriptCourse :
    Quiet KeepsFiles (ofFiles fourFiles) thirdScriptCourse ∧
      ((ofFiles fourFiles).after thirdScriptCourse).catalog.stats = ⟨2, 2, 2, 1, 1, 1⟩ ∧
      ((ofFiles fourFiles).after thirdScriptCourse).catalog.Answers
        ((ofFiles fourFiles).after thirdScriptCourse).matcher := by
  have hq : Quiet KeepsFiles (ofFiles fourFiles) thirdScriptCourse := by
    refine Quiet.of_allowed (by decide +kernel) ?_
    simp [thirdScriptCourse, KeepsFiles, inMemory_stamps]
  exact ⟨hq, by decide +kernel, answers_after (inMemory_stamps fourFiles) _ 20 1000 500 false hq⟩

end Keeper
end StepAtlas
