import StepAtlas.Proofs.Keeper.Reachable
import StepAtlas.Proofs.Keeper.Writes

/-
When applying changes is all or nothing.

A run that applies changes leaves the catalog alone up to its last turn.  In that turn it enters all
of them and then matches steps, and what it has entered stays if matching fails: the results are old
then, or new for some files only.  So for a coherent catalog the outcome is all or nothing exactly
when no pattern fails on a step of the changed catalog.
-/

namespace StepAtlas
namespace Catalog

theorem Matchable.exists_refresh {matcher : Matcher} {c : Catalog}
    {changes : List (Path × Change × Loaded)} (h : (c.applyChanges changes).Matchable matcher) :
    ∃ c', c.refresh matcher changes = (c', none) := by
  have hnone : (c.refresh matcher changes).2 = none :=
    refresh_eq_none_iff.mpr fun p _ st hst => h st (mem_steps_iff.mpr ⟨p, hst⟩)
  exact ⟨_, Prod.ext rfl hnone⟩

/-- All changes are entered, and the results are those of the catalog as it is then. -/
structure Applied (matcher : Matcher) (changes : List (Path × Change × Loaded)) (c c' : Catalog) :
    Prop where
  features : c'.features = (c.applyChanges changes).features
  definitions : c'.definitions = (c.applyChanges changes).definitions
  coherent : c'.Coherent matcher

/-- What a refresh makes of a coherent catalog. -/
theorem refresh_applied_or_eq_iff {matcher : Matcher} {changes : List (Path × Change × Loaded)}
    {c c' : Catalog} {fault : Option Fault} (hs : c.Stamped) (hc : c.Coherent matcher)
    (hl : ∀ e ∈ changes, e.2.2.StampedBy e.1) (h : c.refresh matcher changes = (c', fault)) :
    (Applied matcher changes c c' ∨ c' = c) ↔ (c.applyChanges changes).Matchable matcher := by
  obtain ⟨hf, hd⟩ := entries_of_refresh h
  constructor
  · -- Either way the catalog is coherent afterwards, and it has the changed files whatever
    -- happened.
    intro hor
    have hc' : c'.Coherent matcher := by
      rcases hor with happlied | rfl
      · exact happlied.coherent
      · exact hc
    exact hc'.matchable.congr hf.symm hd.symm
  · intro hm
    obtain ⟨c₁, h₁⟩ := hm.exists_refresh
    rw [h] at h₁
    cases h₁
    exact .inl ⟨hf, hd, (refresh_coherent hs hc hl h).2⟩

end Catalog

namespace Keeper

/-- The changes that a run is going to enter at its next turn, with what their files have brought.
There are none if something has stopped the run on the way. -/
def due? (k : Keeper) (i : Nat) : Option (List (Path × Change × Loaded)) :=
  (k.runs[i]?).bind fun r => match r.point with
    | .applying changes g =>
      if r.canceled || g.stop.isSome || k.disposed then none else some (k.loadedChanges changes g)
    | _ => none

theorem due?_eq_some_iff {k : Keeper} {i : Nat} {r : Run} (hr : k.runs[i]? = some r)
    {loaded : List (Path × Change × Loaded)} :
    k.due? i = some loaded ↔ ∃ changes g, r.point = .applying changes g ∧ r.canceled = false ∧
      g.stop = none ∧
      k.disposed = false ∧ k.loadedChanges changes g = loaded := by
  rw [due?, hr]
  cases hp : r.point with
  | applying changes g => simp [hp, and_assoc]
  | _ => simp [hp]

/-- From one keeper to the next, everything that a run was going to enter is applied, or the catalog
is the same. -/
def AllOrNothing (i : Nat) (k k' : Keeper) : Prop :=
  (∃ changes, k.due? i = some changes ∧ Catalog.Applied k'.matcher changes k.catalog k'.catalog) ∨
  k'.catalog = k.catalog

/-- A run has nothing to enter, so it leaves the catalog as it is. -/
theorem catalog_of_due?_eq_none {k k' : Keeper} {i : Nat} {r : Run} (hr : k.runs[i]? = some r)
    (hj : r.job.refreshes = true) (hs : RunSuited r) (ht : TakesRun k i r k')
    (hdue : k.due? i = none) :
    k'.catalog = k.catalog := by
  have hno : ∀ {changes : PathMap Change} {g : Group}, r.point = .applying changes g →
      r.canceled = false → g.stop = none → k.disposed = false → False := by
    intro changes g hp hc hg hd
    have hsome := (due?_eq_some_iff hr).mpr ⟨changes, g, hp, hc, hg, hd, rfl⟩
    rw [hdue] at hsome
    cases hsome
  cases ht.writes with
  | nothing hc _ => exact hc
  | publishes hdraft hcan hk hw hre =>
    obtain ⟨d, hd⟩ := Option.isSome_iff_exists.mp (hdraft hj)
    rw [hs.draft d hd] at hj
    cases hj
  | breaks hp hc hg hd hre => exact (hno hp hc hg hd).elim
  | applies hp hc hg hd hre hk => exact (hno hp hc hg hd).elim

/-- Whatever the state of a keeper with a coherent catalog, and whatever files have brought, each
turn of a run that applies changes is all or nothing exactly when no pattern fails on a step of the
changed catalog. -/
theorem refresh_allOrNothing_iff {k : Keeper} (hk : k.Reachable) (hc : k.catalog.Coherent k.matcher)
    {i : Nat} {r : Run} (hr : k.runs[i]? = some r) (hj : r.job.refreshes = true)
    (ht : Turn.run i ∈ k.ready) :
    AllOrNothing i k (k.next (.turn (.run i))) ↔
      ∀ changes, k.due? i = some changes →
        (k.catalog.applyChanges changes).Matchable k.matcher := by
  have htakes := (goes_of_ready hr ht).takes
  generalize k.next (.turn (.run i)) = k' at htakes ⊢
  have hmode : k'.matcher = k.matcher := htakes.frame.matcher
  cases hdue : k.due? i with
  | none =>
    have hsame : k'.catalog = k.catalog :=
      catalog_of_due?_eq_none (k := { k with ready := k.ready.erase (.run i) }) hr hj
        (hk.suited i r hr) htakes hdue
    simp [AllOrNothing, hsame]
  | some loaded =>
    obtain ⟨changes, g, hp, hcan, hg, hd, rfl⟩ := (due?_eq_some_iff hr).mp hdue
    obtain ⟨c', fault, hre, hc'⟩ := htakes.entersChanges hp hcan hg hd
    have hstamped :=
      loadedChanges_stamped hk.stamped (hp ▸ hk.stamped.points r (List.mem_of_getElem? hr))
    have hiff := Catalog.refresh_applied_or_eq_iff hk.stamped.catalog hc hstamped hre
    simpa [AllOrNothing, hdue, hmode, hc'] using hiff

def withRegexes (files : List (Path × Text)) : Workspace :=
  { inMemory files with
    definitions := fun p t =>
      .ok [{
        pattern := t, kind := .regex, keyword := .any, source := p, span := ⟨0, 0, 0, 0⟩
        function := [], flags := none }] }

theorem withRegexes_stamps (files : List (Path × Text)) : (withRegexes files).Stamps :=
  inMemory_stamps files

def scriptAt (pattern : Text) : List (Path × Text) :=
  [(shortPath 'f' 'a', [.scalar 'x']), (shortPath 's' 'a', pattern)]

/-- A keeper whose only script is rewritten after the first catalog was built, up to the turn in
which the change is entered. -/
def rewriting (pattern : Text) : Keeper :=
  (new (withRegexes (scriptAt "x")) (.new .boundless default shortSettings) 20 1000 500 false).after
    [.rebuild, .turn (.run 0), .turn (.load 0), .turn (.report 0), .turn (.run 0), .turn (.run 0),
      .turn (.load 1), .turn (.report 1), .turn (.run 0), .turn (.run 0),
      .edit (withRegexes (scriptAt pattern)),
      .notify (shortPath 's' 'a') { cls := .definition, kind := .changed }, .refresh,
      .turn (.run 2), .turn (.load 2), .turn (.report 2)]

theorem rewriting_reachable (pattern : Text) : (rewriting pattern).Reachable := by
  refine (Reachable.new (withRegexes_stamps _) _ 20 _ _ _ Catalog.empty_stamped).after ?_
  intro w hw
  simp only [List.mem_cons, reduceCtorEq, Move.edit.injEq, List.not_mem_nil, or_false, false_or]
    at hw
  rw [hw]
  exact withRegexes_stamps _

theorem rewriting_coherent {pattern : Text} {matcher : Matcher}
    (h : (rewriting pattern).catalog.rematch matcher = .ok (rewriting pattern).catalog) :
    (rewriting pattern).catalog.Coherent matcher :=
  Catalog.rematch_coherent (rewriting_reachable pattern).stamped.catalog h

theorem refresh_allOrNothing_iff_rewriting :
    (rewriting "y").due? 2 ≠ none ∧
      (rewriting "y").catalog ≠ ((rewriting "y").next (.turn (.run 2))).catalog ∧
      AllOrNothing 2 (rewriting "y") ((rewriting "y").next (.turn (.run 2))) := by
  refine ⟨by decide +kernel, by decide +kernel, ?_⟩
  have hrun : ((rewriting "y").runs[2]?).any (·.job.refreshes) = true := by decide +kernel
  obtain ⟨r, hr, hj⟩ := Option.any_eq_true _ _ |>.mp hrun
  refine (refresh_allOrNothing_iff (rewriting_reachable "y")
    (rewriting_coherent (by decide +kernel)) hr hj
    (by decide +kernel)).mpr ?_
  intro changes hdue
  obtain rfl : ((rewriting "y").due? 2).getD [] = changes := by rw [hdue]; rfl
  refine Catalog.exists_rematch_iff.mp ?_
  have hok : (((rewriting "y").catalog.applyChanges (((rewriting "y").due? 2).getD [])).rematch
      (rewriting "y").matcher).isOk = true := by decide +kernel
  generalize Catalog.rematch _ _ = outcome at hok
  cases outcome with
  | error fault => cases hok
  | ok c => exact ⟨c, rfl⟩

/-- A pattern that repeats something too often fails when its script has been entered already. -/
theorem rewriting_not_allOrNothing :
    (rewriting "x{4294967295}").catalog.Coherent (rewriting "x{4294967295}").matcher ∧
      ((rewriting "x{4294967295}").next (.turn (.run 2))).result? 2 =
        some (.error (.failed .repetitionTooLarge)) ∧
      ¬ AllOrNothing 2 (rewriting "x{4294967295}")
        ((rewriting "x{4294967295}").next (.turn (.run 2))) := by
  refine ⟨rewriting_coherent (by decide +kernel), by decide +kernel, ?_⟩
  rintro (⟨changes, -, happlied⟩ | hsame)
  · obtain ⟨c, hc⟩ := Catalog.exists_rematch_iff.mpr happlied.coherent.matchable
    have hfails : ((rewriting "x{4294967295}").next (.turn (.run 2))).catalog.rematch
        ((rewriting "x{4294967295}").next (.turn (.run 2))).matcher =
          .error .repetitionTooLarge := by
      decide +kernel
    rw [hfails] at hc
    cases hc
  · exact absurd hsame (by decide +kernel)

end Keeper
end StepAtlas
