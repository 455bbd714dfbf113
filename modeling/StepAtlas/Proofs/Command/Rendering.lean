import StepAtlas.Command.Run
import StepAtlas.Proofs.Markup
import StepAtlas.Proofs.Text

/-
What can be printed of an outcome.  Items are printed one after the other, up to the first that has
a text whose tags do not fit together (`Item.Shows`) or that the terminal cannot encode, and that
item ends the request.  The texts of the reports quote steps, scenarios, definitions and paths as
they are, so all tags of a report fit together if there is no bracket in those.
-/

namespace StepAtlas

def Item.Shows (item : Item) : Prop := ∀ t ∈ item.texts, Markup.shows t = true

instance (item : Item) : Decidable item.Shows :=
  inferInstanceAs (Decidable (∀ t ∈ item.texts, Markup.shows t = true))

def Item.PrintsOn (terminal : Terminal) (item : Item) : Prop :=
  item.Shows ∧ terminal.refusal? item = none

instance (terminal : Terminal) (item : Item) : Decidable (item.PrintsOn terminal) :=
  inferInstanceAs (Decidable (item.Shows ∧ terminal.refusal? item = none))

/-- The faults that an item can bring when it is printed. -/
inductive Fault.OfPrinting : Fault → Prop where
  | unshown (complaint : Text) : Fault.OfPrinting (.unshown complaint)
  | unencodable (words : Text) : Fault.OfPrinting (.unencodable words)

theorem Item.shows_iff {item : Item} :
    item.Shows ↔ item.texts.findSome? Markup.complaint? = none := by
  rw [List.findSome?_eq_none_iff]
  exact forall₂_congr fun t _ => Option.isNone_iff_eq_none

theorem Item.PrintsOn.render_eq {terminal : Terminal} {item : Item} (h : item.PrintsOn terminal) :
    item.render terminal = .ok item.lines := by
  rw [render, shows_iff.mp h.1, h.2]

theorem Item.render_eq_error {terminal : Terminal} {item : Item} (h : ¬ item.PrintsOn terminal) :
    ∃ fault, fault.OfPrinting ∧ item.render terminal = .error fault := by
  rw [PrintsOn, shows_iff] at h
  cases hcomplaint : item.texts.findSome? Markup.complaint? with
  | some complaint => exact ⟨_, .unshown complaint, by rw [render, hcomplaint]⟩
  | none =>
    cases hrefusal : terminal.refusal? item with
    | some words => exact ⟨_, .unencodable words, by rw [render, hcomplaint, hrefusal]⟩
    | none => exact absurd ⟨hcomplaint, hrefusal⟩ h

namespace Outcome

variable {terminal : Terminal}

theorem printed_of_prints {items : List Item} (h : ∀ item ∈ items, item.PrintsOn terminal) :
    printed terminal items = (items, none) := by
  induction items with
  | nil => rfl
  | cons item items ih =>
    have hitem := h item List.mem_cons_self
    have hitems := ih fun i hi => h i (List.mem_cons_of_mem item hi)
    rw [printed, hitem.render_eq, hitems]

/-- Items of which one cannot be printed are printed up to the first such. -/
structure Breaks (terminal : Terminal) (items shown : List Item) (fault : Fault) : Prop where
  split : ∃ item rest, items = shown ++ item :: rest ∧ ¬ item.PrintsOn terminal
  prints : ∀ item ∈ shown, item.PrintsOn terminal
  ofPrinting : fault.OfPrinting

theorem printed_of_not_prints {items : List Item} (h : ¬ ∀ item ∈ items, item.PrintsOn terminal) :
    ∃ shown fault, Breaks terminal items shown fault ∧
      printed terminal items = (shown, some fault) := by
  induction items with
  | nil => exact absurd nofun h
  | cons item items ih =>
    by_cases hitem : item.PrintsOn terminal
    · have hitems : ¬ ∀ i ∈ items, i.PrintsOn terminal := by
        intro hall
        exact h (List.forall_mem_cons.mpr ⟨hitem, hall⟩)
      obtain ⟨shown, fault, ⟨⟨i, rest, rfl, hi⟩, hshown, hfault⟩, hprinted⟩ := ih hitems
      refine ⟨item :: shown, fault, ⟨⟨i, rest, rfl, hi⟩, ?_, hfault⟩, ?_⟩
      · exact List.forall_mem_cons.mpr ⟨hitem, hshown⟩
      · rw [printed, hitem.render_eq, hprinted]
    · obtain ⟨fault, hfault, hrender⟩ := Item.render_eq_error hitem
      refine ⟨[], fault, ⟨⟨item, items, rfl, hitem⟩, nofun, hfault⟩, ?_⟩
      rw [printed, hrender]

theorem rendered_of_prints {o : Outcome} (h : ∀ item ∈ o.items, item.PrintsOn terminal) :
    o.rendered terminal = o := by
  rw [rendered, printed_of_prints h]

theorem rendered_of_not_prints {o : Outcome} (h : ¬ ∀ item ∈ o.items, item.PrintsOn terminal) :
    ∃ shown fault, Breaks terminal o.items shown fault ∧
      o.rendered terminal = { o with code := 1, items := shown, raised := some fault } := by
  obtain ⟨shown, fault, hbreaks, hprinted⟩ := printed_of_not_prints h
  exact ⟨shown, fault, hbreaks, by rw [rendered, hprinted]⟩

end Outcome

/-! ## Reports without brackets -/

theorem Item.shows_table {title : Text} {columns : List Text} {rows : List (List Text)}
    (htitle : Markup.shows title = true) (hcolumns : ∀ t ∈ columns, Markup.shows t = true)
    (hrows : ∀ cells ∈ rows, ∀ t ∈ cells, Markup.shows t = true) :
    (Item.table title columns rows).Shows := by
  intro t ht
  rw [texts, List.mem_append, List.mem_singleton, List.mem_flatMap] at ht
  rcases ht with ⟨⟨header, i⟩, hheader, ht⟩ | rfl
  · rcases List.mem_cons.mp ht with rfl | ht
    · exact hcolumns _ (List.fst_mem_of_mem_zipIdx hheader)
    · obtain ⟨cells, hcells, rfl⟩ := List.mem_map.mp ht
      rw [List.getD_eq_getElem?_getD]
      cases hcell : cells[i]? with
      | none => rfl
      | some t => exact hrows cells hcells t (List.mem_of_getElem? hcell)
  · exact htitle

namespace Report

open Markup (Bare Calm IsStyle Neutral)

theorem calm_ofNat (n : Nat) : Calm (Text.ofNat n) := by
  have hdigit : ∀ {p : CodePoint}, p ∈ Text.ofNat n → p ≠ .scalar '[' ∧ p ≠ .scalar '\\' := by
    intro p hp
    obtain ⟨c, hc, rfl⟩ := Text.mem_ofNat hp
    constructor
    · rintro ⟨⟩
      exact absurd hc (by decide)
    · rintro ⟨⟩
      exact absurd hc (by decide)
  exact ⟨fun h => (hdigit h).1 rfl, fun h => (hdigit (List.mem_of_getLast? h)).2 rfl⟩

/-- A place in a file has no bracket in it if the path has none. -/
theorem calm_place {path : Text} (h : Bare path) (n : Nat) : Calm (path ++ ":" ++ Text.ofNat n) :=
  .of_append (h.append (by decide)) (calm_ofNat n) (Text.ofNat_ne_nil n)

/-- Nothing that a report quotes of a step has a bracket in it. -/
structure BareStep (root : Path) (s : Step) : Prop where
  source : Bare (s.source.seenFrom root).toText
  text : Bare s.text
  scenario : Bare s.scenario

/-- Nothing that a report quotes of a definition has a bracket in it. -/
structure BareDefinition (root : Path) (d : Definition) : Prop where
  source : Bare (d.source.seenFrom root).toText
  function : Bare d.function
  display : Bare d.display

theorem BareDefinition.neutral_describe {root : Path} {d : Definition} (h : BareDefinition root d) :
    Neutral (describe root d) := by
  have hdim : IsStyle "dim" := by decide +kernel
  have hcall : Calm (d.function ++ "(" ++ d.display ++ ")  ") :=
    .of_append ((h.function.append (by decide)).append h.display) (by decide) (by decide)
  have hplace := hdim.neutral (calm_place h.source (d.span.startLine + 1))
  have heq : describe root d = (d.function ++ "(" ++ d.display ++ ")  ") ++
      ("[" ++ "dim" ++ "]" ++ ((d.source.seenFrom root).toText ++ ":" ++
        Text.ofNat (d.span.startLine + 1)) ++ "[/" ++ "dim" ++ "]") := by
    simp [describe, Text.ofString]
  rw [heq]
  exact hcall.neutral.append hplace

theorem shows_head {root : Path} (h : Bare root.toText) (mode : MatchMode) :
    (head root mode).Shows := by
  have hbold : IsStyle "bold" := by decide +kernel
  have hproject := hbold.neutral (t := "Project:") (by decide)
  have hmode := hbold.neutral (t := "Match mode:") (by decide)
  have hroot : Calm (" " ++ root.toText ++ "\n") :=
    .of_append (Bare.append (by decide) h) (by decide) (by decide)
  have hword : Bare (" " ++ mode.word) := by
    cases mode with
    | both | regexOnly | expressionOnly => decide
  have hbody := ((hproject.append hroot.neutral).append hmode).shows_append hword
  have htitle : Markup.shows ("[bold cyan]Cukedash[/bold cyan] v" ++ programVersion) = true := by
    decide +kernel
  intro t ht
  rw [head, Item.texts, List.mem_cons, List.mem_singleton] at ht
  rcases ht with rfl | rfl
  · exact htitle
  · simpa [Text.ofString] using hbody

theorem shows_count (n : Nat) {color : Text} (h : IsStyle color) :
    Markup.shows (count n color) = true := by
  rw [count]
  split
  · decide +kernel
  · exact (h.neutral (calm_ofNat n)).shows

theorem shows_statsTable (s : Stats) : (statsTable s).Shows := by
  have hred : IsStyle "red" := by decide +kernel
  have hyellow : IsStyle "yellow" := by decide +kernel
  have hnumber := fun n => Markup.shows_of_bare (calm_ofNat n).1
  refine Item.shows_table (by decide +kernel) (by decide +kernel) ?_
  simp only [List.forall_mem_cons, List.not_mem_nil, false_imp_iff, implies_true, and_true]
  refine ⟨⟨?_, hnumber _⟩, ⟨?_, hnumber _⟩, ⟨?_, hnumber _⟩, ⟨?_, shows_count _ hred⟩,
    ⟨?_, shows_count _ hyellow⟩, ⟨?_, shows_count _ hyellow⟩⟩
  all_goals decide +kernel

theorem shows_stepCells {root : Path} {s : Step} (h : BareStep root s) :
    ∀ t ∈ stepCells root s, Markup.shows t = true := by
  have hplace := Markup.shows_of_bare (calm_place h.source s.line).1
  have hstep : Bare (s.keyword.word ++ " " ++ s.text) := by
    have hword : Bare s.keyword.word := by
      cases s.keyword <;> decide
    exact (hword.append (by decide)).append h.text
  simp only [stepCells, List.forall_mem_cons, List.not_mem_nil, false_imp_iff, implies_true,
    and_true]
  exact ⟨hplace, Markup.shows_of_bare hstep⟩

theorem shows_unlessEmpty {title : Text} {columns : List Text} {rows : List (List Text)}
    (h : (Item.table title columns rows).Shows) :
    ∀ item ∈ unlessEmpty title columns rows, item.Shows := by
  intro item hitem
  rw [unlessEmpty] at hitem
  split at hitem
  · cases hitem
  · rw [List.mem_singleton.mp hitem]
    exact h

/-- All texts of a report on a catalog can be shown if there is no bracket in what it quotes. -/
theorem shows_ofCatalog {root : Path} {c : Catalog}
    (hsteps : ∀ r ∈ c.results, BareStep root r.step)
    (hfound : ∀ r ∈ c.results, ∀ d ∈ r.found, BareDefinition root d)
    (hdefinitions : ∀ d ∈ c.allDefinitions, BareDefinition root d) :
    ∀ item ∈ ofCatalog root c, item.Shows := by
  have hundefined : (Item.table "Undefined steps" ["Location", "Step", "Scenario"]
      (c.undefinedSteps.map fun r => stepCells root r.step ++ [r.step.scenario])).Shows := by
    refine Item.shows_table (by decide +kernel) (by decide +kernel) ?_
    intro cells hcells
    obtain ⟨r, hr, rfl⟩ := List.mem_map.mp hcells
    have hstep := hsteps r (List.mem_filter.mp hr).1
    refine List.forall_mem_append.mpr ⟨shows_stepCells hstep, ?_⟩
    exact List.forall_mem_singleton.mpr (Markup.shows_of_bare hstep.scenario)
  have hambiguous : (Item.table "Ambiguous steps" ["Location", "Step", "Matching definitions"]
      (c.ambiguousSteps.map fun r =>
        stepCells root r.step ++ [Text.join "\n" (r.found.map (describe root))])).Shows := by
    refine Item.shows_table (by decide +kernel) (by decide +kernel) ?_
    intro cells hcells
    obtain ⟨r, hr, rfl⟩ := List.mem_map.mp hcells
    have hmem : r ∈ c.results := (List.mem_filter.mp hr).1
    refine List.forall_mem_append.mpr ⟨shows_stepCells (hsteps r hmem), ?_⟩
    refine List.forall_mem_singleton.mpr (Neutral.join (Calm.neutral (by decide)) ?_).shows
    intro t ht
    obtain ⟨d, hd, rfl⟩ := List.mem_map.mp ht
    exact (hfound r hmem d hd).neutral_describe
  have hunused : (Item.table "Unused definitions" ["Definition"]
      (c.unusedDefinitions.map fun d => [describe root d])).Shows := by
    refine Item.shows_table (by decide +kernel) (by decide +kernel) ?_
    intro cells hcells
    obtain ⟨d, hd, rfl⟩ := List.mem_map.mp hcells
    have hmem : d ∈ c.allDefinitions := (List.mem_filter.mp hd).1
    exact List.forall_mem_singleton.mpr (hdefinitions d hmem).neutral_describe.shows
  have hline : (Item.line []).Shows := by decide +kernel
  intro item hitem
  simp only [ofCatalog, List.mem_append, List.mem_cons, List.not_mem_nil, or_false] at hitem
  rcases hitem with (((rfl | rfl) | hitem) | hitem) | hitem
  · exact hline
  · exact shows_statsTable c.stats
  · exact shows_unlessEmpty hundefined item hitem
  · exact shows_unlessEmpty hambiguous item hitem
  · exact shows_unlessEmpty hunused item hitem

end Report
end StepAtlas
