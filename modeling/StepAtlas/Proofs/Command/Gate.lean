import Mathlib.Logic.Basic
import StepAtlas.Proofs.Command.Rendering
import StepAtlas.Proofs.Keeper.Answers
import StepAtlas.Proofs.Listing

/-
The exit code of a check.  A strict check is a gate for a project: it is passed when every step of
its features is served by exactly one definition.  The code is computed from counts of stored
results; here it is said from the files of the project alone, without the catalog in between.

The code is reached only after the report has been printed.  A report of which some item cannot be
printed ends the check with the code 1, whatever the counts are and whether it is strict or not.
-/

namespace StepAtlas
namespace Site

def files (s : Site) (cls : FileClass) : List Path := (s.found cls).toOption.getD []

def steps (s : Site) : List Step :=
  (s.files .feature).flatMap fun p => ((s.feature? .empty p).map Feature.steps).getD []

def definitions (s : Site) : List Definition :=
  (s.files .definition).flatMap fun p => (s.definitions? .empty p).getD []

def servers (s : Site) (matcher : Matcher) (st : Step) : List Definition :=
  s.definitions.filter fun d => d.Serves matcher st

/-- Some step is served by no definition or by several. -/
def Unsettled (s : Site) (matcher : Matcher) : Prop :=
  ∃ st ∈ s.steps, (s.servers matcher st).length = 0 ∨ 2 ≤ (s.servers matcher st).length

instance (s : Site) (matcher : Matcher) : Decidable (s.Unsettled matcher) :=
  inferInstanceAs (Decidable (∃ st ∈ s.steps,
    (s.servers matcher st).length = 0 ∨ 2 ≤ (s.servers matcher st).length))

theorem flatMap_entriesOf {α β : Type} (record? : Path → Option α) (f : α → List β)
    (files : List Path) :
    ((entriesOf record? files).map (·.2)).flatMap f =
      files.flatMap fun p => ((record? p).map f).getD [] := by
  induction files with
  | nil => rfl
  | cons p files ih =>
    cases hr : record? p with
    | none => simpa [entriesOf, hr] using ih
    | some a => simpa [entriesOf, hr] using ih

theorem Records.steps_eq {s : Site} {c : Catalog} (h : s.Records .empty c) : c.steps = s.steps := by
  obtain ⟨files, hfound, he⟩ := h.features
  rw [Catalog.steps, PathMap.values, he, flatMap_entriesOf, Site.steps, Site.files, hfound]
  rfl

theorem Records.allDefinitions_eq {s : Site} {c : Catalog} (h : s.Records .empty c) :
    c.allDefinitions = s.definitions := by
  obtain ⟨files, hfound, he⟩ := h.definitions
  rw [Catalog.allDefinitions, PathMap.values, he, ← List.flatMap_id, flatMap_entriesOf,
    Site.definitions, Site.files, hfound]
  simp [Except.toOption]

theorem Records.servers_eq {s : Site} {c : Catalog} (h : s.Records .empty c) (matcher : Matcher)
    (st : Step) : c.servers matcher st = s.servers matcher st := by
  rw [Catalog.servers, servers, h.allDefinitions_eq]

section Listed

variable {s : Site} {matcher : Matcher} {c : Catalog}

/-- The results of a catalog are those of the steps of the site with the definitions that serve
them. -/
theorem Lists.mem_results (h : s.Lists matcher .empty c) {r : MatchResult} (hr : r ∈ c.results) :
    r.step ∈ s.steps ∧ ∀ d ∈ r.found, d ∈ s.definitions := by
  rw [Catalog.eq_map_resultOf h.results, h.toRecords.steps_eq] at hr
  obtain ⟨st, hst, rfl⟩ := List.mem_map.mp hr
  refine ⟨hst, fun d hd => ?_⟩
  rw [Catalog.resultOf, h.toRecords.servers_eq] at hd
  exact (List.mem_filter.mp hd).1

/-- The counts of a catalog tell whether some step of the site is served by no definition or by
several. -/
theorem Lists.unsettled_iff (h : s.Lists matcher .empty c) :
    s.Unsettled matcher ↔ c.stats.undefinedSteps ≠ 0 ∨ c.stats.ambiguousSteps ≠ 0 := by
  have hresults := Catalog.eq_map_resultOf h.results
  have hcount : ∀ keep : Nat → Bool,
      (c.results.filter fun r => keep r.found.length).length ≠ 0 ↔
        ∃ st ∈ s.steps, keep (s.servers matcher st).length := by
    intro keep
    rw [hresults, ← h.toRecords.steps_eq]
    simp only [← h.toRecords.servers_eq]
    simp [Catalog.resultOf]
  have hundefined := hcount fun n => decide (n = 0)
  have hambiguous := hcount fun n => decide (2 ≤ n)
  rw [← Catalog.undefinedSteps_eq] at hundefined
  rw [← Catalog.ambiguousSteps_eq] at hambiguous
  show _ ↔ c.undefinedSteps.length ≠ 0 ∨ c.ambiguousSteps.length ≠ 0
  rw [hundefined, hambiguous]
  simp only [Unsettled, decide_eq_true_eq, and_or_left, exists_or]

end Listed

/-- Nothing that a report quotes of a site has a bracket in it. -/
structure Bare (s : Site) (root : Path) : Prop where
  path : Markup.Bare root.toText
  steps : ∀ st ∈ s.steps, Report.BareStep root st
  definitions : ∀ d ∈ s.definitions, Report.BareDefinition root d

end Site

namespace Command

def site (h : Host) (root : Path) (s : Settings) : Site :=
  { workspace := .ofDisk h.languages h.disk root, settings := s, sizeLimit := Workspace.sizeLimit }

def matcher (h : Host) (s : Settings) : Matcher := { mode := s.mode, machine := h.machine }

def report (root : Path) (s : Settings) (c : Catalog) : List Item :=
  Report.head root s.mode :: Report.ofCatalog root c

section Checked

variable {h : Host} {root : Path} {s : Settings} {c : Catalog}

/-- A check of a project whose settings make sense and whose catalog can be built comes to its
report. -/
theorem outcome_check {dir : Path} {mode : Option Text} (hp : prepare h dir mode = .ok (root, s))
    (hb : catalog h root s = .ok c) (strict : Bool) :
    outcome h dir (.check mode strict) = .shown (checkCode strict c) (report root s c) := by
  rw [outcome, withCatalog, hp]
  dsimp only
  rw [hb]
  rfl

theorem lists_of_catalog (hb : catalog h root s = .ok c) :
    (site h root s).Lists (matcher h s) .empty c := by
  have hstamps := Workspace.ofDisk_stamps h.languages h.disk root
  exact ((Site.build_eq_ok_iff (s := site h root s) hstamps Catalog.empty_stamped).mp hb).2

/-- The code of a check, from the files of the project. -/
theorem checkCode_eq (hb : catalog h root s = .ok c) (strict : Bool) :
    checkCode strict c =
      if strict = true ∧ (site h root s).Unsettled (matcher h s) then 1 else 0 := by
  unfold checkCode
  simp only [(lists_of_catalog hb).unsettled_iff, Bool.and_eq_true, Bool.or_eq_true,
    decide_eq_true_eq]

theorem shows_report (hb : catalog h root s = .ok c) (hbare : (site h root s).Bare root) :
    ∀ item ∈ report root s c, item.Shows := by
  have hlists := lists_of_catalog hb
  refine List.forall_mem_cons.mpr ⟨Report.shows_head hbare.path s.mode, ?_⟩
  refine Report.shows_ofCatalog ?_ ?_ ?_
  · intro r hr
    exact hbare.steps _ (hlists.mem_results hr).1
  · intro r hr d hd
    exact hbare.definitions d ((hlists.mem_results hr).2 d hd)
  · rw [hlists.toRecords.allDefinitions_eq]
    exact hbare.definitions

end Checked

/-- A project with one feature, whose one step has a text and is served by nothing. -/
def unserved (step : Text) : Host where
  disk :=
    { root := .ofText "/p"
      top := .folder [("a.feature",
        .file (Utf8.encode ("Feature: F\nScenario: S\nGiven " ++ step ++ "\n")))] }
  userSettings := none
  environment := [("CUKEDASH_FEATURE_GLOBS", "*.feature"), ("CUKEDASH_STEP_DEF_GLOBS", "*.js")]

def unservedSettings : Settings :=
  { Settings.standard (.ofText "/p") with
    featureGlobs := ["*.feature"], definitionGlobs := ["*.js"] }

theorem prepare_unserved (step : Text) :
    prepare (unserved step) (.ofText "/p") none = .ok (.ofText "/p", unservedSettings) :=
  rfl

def unservedStep (text : Text) : Step where
  keyword := .given
  text := text
  line := 3
  source := .ofText "/p/a.feature"
  scenario := "S"
  feature := "F"

def unservedCatalog (step : Text) : Catalog where
  features := PathMap.empty.set (.ofText "/p/a.feature")
    { name := "F", source := .ofText "/p/a.feature", tags := []
      scenarios := [{ name := "S", steps := [unservedStep step], line := 2, tags := [] }] }
  definitions := .empty
  results := [{ step := unservedStep step, found := [] }]

end Command
end StepAtlas
