import StepAtlas.Proofs.Keeper.History
import StepAtlas.Proofs.Keeper.Isolation

/-
What applying the pending changes does to the catalog, whatever else goes on.

A run takes over the pending changes in the turn in which it takes the lock.  From then on to its
last turn the entries of the catalog stay as they are, and the results with them unless all steps
are matched in another mode.  Each file is read on the way, at a moment of its own, and files may be
edited all the time.  In its last turn the run enters what it has of the changed files and leaves
the entries of all others alone.  If only features have changed, the results of the other files keep
their place as well.
-/

namespace StepAtlas

def Move.rematches : Move → Bool
  | .switchMode _ | .changeSettings _ => true
  | _ => false

namespace Keeper

/-- A run takes the lock to apply the pending changes with the first move of a course. -/
structure RefreshCourse (k : Keeper) (ms : List Move) (i : Nat) : Prop where
  reachable : k.Reachable
  ready : Turn.run i ∈ k.ready
  run : ∃ r, k.runs[i]? = some r ∧ r.job.refreshes = true ∧ r.canceled = false ∧ k.Admissible r
  first : ms[0]? = some (.turn (.run i))
  stamps : ∀ w, Move.edit w ∈ ms → w.Stamps

structure EndsAt (k : Keeper) (ms : List Move) (i t : Nat) (result : Except Stop Bool) : Prop where
  move : ms[t]? = some (.turn (.run i))
  before : (k.moment ms t).result? i = none
  result : (k.moment ms (t + 1)).result? i = some result

/-- What becomes of the catalog when the pending changes of a keeper are applied with the move at a
time. -/
structure EntersPending (k : Keeper) (ms : List Move) (t : Nat) : Prop where
  /-- A file that is gone has no entry any more. -/
  gone : ∀ p change, k.pending.get? p = some change → change.kind = .deleted →
    (k.moment ms (t + 1)).catalog.listed? change.cls p = none
  /-- Another file has what it brought when it was read, or what it had if that was nothing. -/
  changed : ∀ p change, k.pending.get? p = some change → change.kind ≠ .deleted → ∃ u, 0 < u ∧
    u ≤ t ∧ (k.moment ms (t + 1)).catalog.listed? change.cls p =
      ((k.moment ms u).site.brings? change.cls p).or (k.catalog.listed? change.cls p)
  others : ∀ p cls, (∀ change, k.pending.get? p = some change → change.cls ≠ cls) →
    (k.moment ms (t + 1)).catalog.listed? cls p = k.catalog.listed? cls p
  /-- If only features have changed, the results of all other files stay, in their order. -/
  results : (∀ p change, k.pending.get? p = some change → change.cls = .feature) →
    (k.moment ms (t + 1)).catalog.results.filter (fun r => !k.pending.contains r.step.source) =
      (k.moment ms t).catalog.results.filter fun r => !k.pending.contains r.step.source
  /-- Up to then the catalog is as it was, unless all steps are matched anew. -/
  before : (∀ m ∈ ms.take t, m.rematches = false) → (k.moment ms t).catalog = k.catalog

/-! ## On the way -/

theorem next_catalog_of_not_rematches {k : Keeper} (hs : k.Suited) {m : Move}
    (ht : ∀ t, m ≠ .turn t) (hm : m.rematches = false) : (k.next m).catalog = k.catalog := by
  have halters := next_alters hs m
  generalize k.next m = k' at halters ⊢
  cases halters with
  | keeps h => exact congrArg Content.catalog h
  | edits w => rfl
  | switches mode | resets changes => cases hm
  | publishes | applies => exact absurd rfl (ht _)

/-- A run waits for the files of changes that it has taken over, with its loads, from a catalog. -/
structure WaitsFor (k : Keeper) (i : Nat) (changes : PathMap Change) (loads : List Nat)
    (before : Catalog) : Prop where
  run : ∃ r g, k.runs[i]? = some r ∧ r.point = .applying changes g ∧ g.loads = loads
  entries : before.SameEntries k.catalog

/-- A run that waits for its files has not ended.  A move leaves it waiting, or it is the last turn
of the run. -/
theorem WaitsFor.next {k : Keeper} (hk : k.Reachable) {m : Move} (hd : (k.next m).disposed = false)
    {i : Nat} {changes : PathMap Change} {loads : List Nat} {before : Catalog}
    (h : k.WaitsFor i changes loads before) :
    ((k.next m).WaitsFor i changes loads before ∧
      (m.rematches = false → (k.next m).catalog = k.catalog)) ∨
      ∃ r, k.runs[i]? = some r ∧ Goes k m i r := by
  obtain ⟨r, g, hr, hp, hg⟩ := h.run
  have hholds : r.point.holds = true := by
    rw [hp]
    rfl
  obtain ⟨hm, hd₀⟩ := next_disposed_eq_false.mp hd
  obtain ⟨r', hr', -, hstays | hgoes⟩ := next_run hr m
  · rw [hp] at hstays
    obtain ⟨g', hp', hloads⟩ := hstays.of_applying
    by_cases hi : m = .turn (.run i)
    · subst hi
      rcases next_turn_run k i with ⟨-, ready, hsame⟩ | hgoes
      · rw [hsame] at hr' ⊢
        exact .inl ⟨⟨⟨r', g', hr', hp', hloads.trans hg⟩, h.entries⟩, fun _ => rfl⟩
      · exact .inr hgoes
    · have hentries := next_sameEntries_of_holds (hk.undisturbed hd₀) hk.orderly hm hr hholds hi
      refine .inl ⟨⟨⟨r', g', hr', hp', hloads.trans hg⟩, ?_⟩, ?_⟩
      · exact ⟨hentries.features.trans h.entries.features,
          hentries.definitions.trans h.entries.definitions⟩
      · intro hrematches
        by_cases ht : ∃ t, m = .turn t
        · obtain ⟨t, rfl⟩ := ht
          exact next_turn_catalog_of_holds hk.orderly hr hholds fun ht => hi (by rw [ht])
        · exact next_catalog_of_not_rematches hk.suited (fun t htm => ht ⟨t, htm⟩) hrematches
  · exact .inr ⟨r, hr, hgoes⟩

theorem WaitsFor.result? {k : Keeper} {i : Nat} {changes : PathMap Change} {loads : List Nat}
    {before : Catalog} (h : k.WaitsFor i changes loads before) : k.result? i = none := by
  obtain ⟨r, g, hr, hp, -⟩ := h.run
  exact (result?_eq_none_iff hr).mpr (by simp [hp])

/-- The last turn of a run that has waited for its files. -/
theorem WaitsFor.ends {k : Keeper} (hk : k.Reachable) (hd : k.disposed = false) {i : Nat} {r : Run}
    (hr : k.runs[i]? = some r) (hgoes : Goes k (.turn (.run i)) i r) {changes : PathMap Change}
    {loads : List Nat} {before : Catalog} (h : k.WaitsFor i changes loads before) :
    (∃ stop, (k.next (.turn (.run i))).result? i = some (.error stop)) ∨
      ∃ g, r.point = .applying changes g ∧ g.loads = loads ∧ (∀ j ∈ loads, Ended k.loads j) ∧
      ∃ fault,
        k.catalog.refresh k.matcher (k.loadedChanges changes g) =
          ((k.next (.turn (.run i))).catalog, fault) ∧
            (k.next (.turn (.run i))).result? i = some (toldResult (fault.or k.announce.2)) := by
  obtain ⟨r', g, hr', hp, rfl⟩ := h.run
  obtain rfl : r = r' := Option.some.inj (hr.symm.trans hr')
  have hgroup : r.point.group? = some g := by
    rw [hp]
    rfl
  have hc : r.canceled = false :=
    (hk.undisturbed hd).not_canceled hr (Point.isEarly_of_holds (.inl (by rw [hgroup]; rfl)))
      (by simp [hp])
  rcases hgoes.takes.refreshes_or_stops hr hp hc hd with ⟨stop, -, hresult⟩
    | ⟨hstop, fault, hre, hresult⟩
  · exact .inl ⟨stop, hresult⟩
  · -- The run has its turn only when all loads have reported.
    have hdone : g.isDone = true := hk.orderly.awaits i r g hr hgroup hgoes.ready
    have htold : { k with ready := k.ready.erase (.run i) }.announce.2 = k.announce.2 :=
      announce_snd_congr rfl
    rw [htold] at hresult
    refine .inr ⟨g, hp, rfl, fun j hj => ?_, fault, hre, hresult⟩
    exact (hk.reported hd).ended (point?_of_run hr) hgroup hstop hdone hj

/-! ## The last turn -/

section
variable {k : Keeper} {changes : PathMap Change} {g : Group} {c : Catalog}
  (hre : k.catalog.refresh k.matcher (k.loadedChanges changes g) = (c, none))
  (hs : (Point.applying changes g).Sound k.loads)

include hre

theorem listed?_of_not_changed {p : Path} {cls : FileClass}
    (hp : ∀ change, changes.get? p = some change → change.cls ≠ cls) :
    c.listed? cls p = k.catalog.listed? cls p := by
  rw [Catalog.listed?_refresh hre]
  refine Catalog.listed?_applyChanges_of_cls_ne k.catalog fun e he heq => hp e.2.1 ?_
  rw [← heq, get?_of_mem_loadedChanges he]

include hs

/-- A changed file has what its own change comes to. -/
theorem listed?_of_loadedChanges {p : Path} {change : Change} {j : Nat}
    (hj : ((p, change), j) ∈ changes.entries.zip g.loads) : c.listed? change.cls p =
      if change.kind = .deleted then none
      else if (k.loaded j).fits change.cls then some (k.loaded j)
      else k.catalog.listed? change.cls p := by
  have hmem : (p, change, k.loaded j) ∈ k.loadedChanges changes g := List.mem_map.mpr ⟨_, hj, rfl⟩
  rw [Catalog.listed?_refresh hre, Catalog.listed?_applyChanges_of_mem _ _ (nodup_loadedChanges hs)
    hmem, Catalog.listed?_applyChange, if_pos ⟨rfl, rfl⟩]

theorem results_of_loadedChanges (hk : k.Stamped)
    (hf : ∀ p change, changes.get? p = some change → change.cls = .feature) :
    c.results.filter (fun r => !changes.contains r.step.source) =
      k.catalog.results.filter fun r => !changes.contains r.step.source := by
  refine Catalog.results_of_refresh hk.catalog (loadedChanges_stamped hk hs) ?_ hre
    (fun q => !changes.contains q) ?_
  · intro e he
    exact hf e.1 e.2.1 (get?_of_mem_loadedChanges he)
  · intro e he
    have hcontains : changes.contains e.1 = true :=
      PathMap.contains_iff.mpr ⟨_, get?_of_mem_loadedChanges he⟩
    simp [hcontains]

end

/-! ## Courses -/

theorem dispose_not_mem {k : Keeper} {ms : List Move} (h : (k.after ms).disposed = false) :
    Move.dispose ∉ ms := by
  intro hmem
  obtain ⟨t, ht⟩ := List.mem_iff_getElem?.mp hmem
  have hlt : t < ms.length := (List.getElem?_eq_some_iff.mp ht).1
  rw [← moment_length] at h
  have hnext := moment_not_disposed hlt h
  rw [moment_succ ht] at hnext
  exact (next_disposed_eq_false.mp hnext).1 rfl

/-- A run that finds nothing to do leaves the catalog alone. -/
theorem entersPending_of_empty {k : Keeper} {ms : List Move} (hempty : k.pending.entries = [])
    (hcatalog : (k.moment ms 1).catalog = k.catalog) : k.EntersPending ms 0 := by
  have hnone : ∀ p change, k.pending.get? p ≠ some change := by
    intro p change hp
    have hmem := PathMap.mem_entries_iff.mpr hp
    rw [hempty] at hmem
    cases hmem
  exact ⟨fun p change hp => absurd hp (hnone p change), fun p change hp =>
    absurd hp (hnone p change),
    fun p cls _ => by rw [hcatalog], fun _ => by rw [hcatalog]; rfl, fun _ => rfl⟩

namespace RefreshCourse
variable {k : Keeper} {ms : List Move} {i : Nat} (h : k.RefreshCourse ms i)

include h

theorem moment_reachable (t : Nat) : (k.moment ms t).Reachable :=
  h.reachable.after fun w hw => h.stamps w (List.mem_of_mem_take hw)

theorem unfinished : (k.moment ms 0).result? i = none := by
  obtain ⟨r, hr, -, -, ha⟩ := h.run
  refine (result?_eq_none_iff hr).mpr fun result hp => ?_
  rcases ha with hq | ⟨⟨hq, -⟩ | ⟨time, hq⟩, -⟩ <;> rw [hp] at hq <;> cases hq

/-- In the first turn the run finds nothing to do, or it takes over the pending changes. -/
theorem begins (hd : (k.moment ms 1).disposed = false) : (k.moment ms 1).catalog = k.catalog ∧
    ((k.pending.entries = [] ∧ (k.moment ms 1).result? i = some (.ok false)) ∨
      ∃ g, TakesOver k.pending k.loads.length i g (k.moment ms 1)) := by
  obtain ⟨r, hr, hj, hc, ha⟩ := h.run
  have hfirst : k.moment ms 1 = k.next (.turn (.run i)) := moment_succ h.first
  rw [hfirst] at hd ⊢
  exact (goes_of_ready hr h.ready).takes.idles_or_takesOver hr ha hj hc
    (next_disposed_eq_false.mp hd).2

/-- As long as the run has not ended, it waits for the files of the changes that it has taken
over. -/
theorem waitsFor {g : Group} (hover : TakesOver k.pending k.loads.length i g (k.moment ms 1))
    (hcatalog : (k.moment ms 1).catalog = k.catalog) {t : Nat} (ht : 1 ≤ t)
    (hd : (k.moment ms t).disposed = false) (hn : (k.moment ms t).result? i = none) :
    (k.moment ms t).WaitsFor i k.pending g.loads k.catalog ∧
      ((∀ m ∈ ms.take t, m.rematches = false) → (k.moment ms t).catalog = k.catalog) := by
  -- From move to move the run waits on.  Only its last turn ends this, and then it has a result.
  induction ht with
  | refl =>
    obtain ⟨r, hr, -, hp⟩ := hover.applies
    exact ⟨⟨⟨r, g, hr, hp, rfl⟩, hcatalog ▸ sameEntries_refl _⟩, fun _ => hcatalog⟩
  | @step t ht ih =>
    cases hm : ms[t]? with
    | none =>
      rw [moment_succ_of_none hm] at hd hn ⊢
      obtain ⟨hwaits, hsame⟩ := ih hd hn
      exact ⟨hwaits, fun hms => hsame fun m hmem =>
        hms m (List.take_subset_take_left ms (Nat.le_succ t) hmem)⟩
    | some m =>
      have hn₀ : (k.moment ms t).result? i = none := by
        cases hresult : (k.moment ms t).result? i with
        | none => rfl
        | some result => cases hn.symm.trans (moment_result? hresult (Nat.le_succ t))
      rw [moment_succ hm] at hd hn ⊢
      obtain ⟨-, hd₀⟩ := next_disposed_eq_false.mp hd
      obtain ⟨hwaits, hsame⟩ := ih hd₀ hn₀
      rcases hwaits.next (h.moment_reachable t) hd with ⟨hnext, hkept⟩ | ⟨r, hr, hgoes⟩
      · refine ⟨hnext, fun hms => ?_⟩
        rw [List.take_add_one, hm] at hms
        have hbefore := hsame fun m' hmem => hms m' (List.mem_append_left _ hmem)
        exact (hkept (hms m (by simp))).trans hbefore
      · obtain rfl := hgoes.move
        rcases hwaits.ends (h.moment_reachable t) hd₀ hr hgoes with ⟨stop, hresult⟩
          | ⟨_, _, _, _, fault, _, hresult⟩
        · cases hn.symm.trans hresult
        · cases hn.symm.trans hresult

/-- The run has ended when no turn is left and nothing is held back. -/
theorem ended (hd : (k.after ms).disposed = false) (hready : (k.after ms).ready = [])
    (hheld : (k.after ms).held = []) :
    ∃ result, (k.after ms).result? i = some result := by
  rw [← moment_length] at hd hready hheld ⊢
  have hpos : 1 ≤ ms.length := (List.getElem?_eq_some_iff.mp h.first).1
  obtain ⟨hcatalog, ⟨-, hresult⟩ | ⟨g, hover⟩⟩ := h.begins (moment_not_disposed hpos hd)
  · exact ⟨_, moment_result? hresult hpos⟩
  · by_contra hnone
    have hn : (k.moment ms ms.length).result? i = none :=
      Option.eq_none_iff_forall_ne_some.mpr fun result hresult => hnone ⟨result, hresult⟩
    obtain ⟨r, g', hr, hp, -⟩ := (h.waitsFor hover hcatalog hpos hd hn).1.run
    rcases (h.moment_reachable _).live.ended hready hheld hr with ⟨result, hp'⟩ | ⟨time, hp'⟩ <;>
      rw [hp] at hp' <;> cases hp'

/-- What a load of the run has brought was in its file at a moment on the way. -/
theorem exists_read {g : Group} (hover : TakesOver k.pending k.loads.length i g (k.moment ms 1))
    {t : Nat} (ht : 1 ≤ t) (hd : (k.moment ms t).disposed = false) {p : Path} {change : Change}
    (hp : k.pending.get? p = some change) (hkind : change.kind ≠ .deleted)
    (hended : ∀ j ∈ g.loads, Ended (k.moment ms t).loads j) :
    ∃ j x u, ((p, change), j) ∈ k.pending.entries.zip g.loads ∧ (k.moment ms t).loaded j = x ∧
      0 < u ∧ u ≤ t ∧
      (k.moment ms u).site.load change.cls p = .ok x := by
  obtain ⟨j, hj, hload⟩ := hover.exists_load hp
  obtain ⟨l, x, hl, hx⟩ := hended j (List.of_mem_zip hj).2
  have hpoint : (k.moment ms t).loadPoint? j = some (.finished (.ok x)) := by
    rw [loadPoint?, hl, Option.map_some, hx]
  obtain ⟨n, rfl⟩ := Nat.exists_eq_add_of_le ht
  have hd₁ := moment_not_disposed (Nat.le_add_right 1 n) hd
  rw [← moment_drop, moment] at hpoint hd
  -- The file was read in a turn of the load, and `ms₁` are the moves before that turn.
  obtain ⟨ms₁, ms₂, hsplit, hread⟩ :=
    Keeper.exists_read ((h.moment_reachable 1).undisturbed hd₁) (dispose_not_mem hd)
      hload (by simp [newLoad]) (by simpa [newLoad] using hkind) hpoint
  have hle : ms₁.length ≤ n := by
    have hlength := congrArg List.length hsplit
    simp only [List.length_take, List.length_append, List.length_cons] at hlength
    omega
  have hmoment : k.moment ms (1 + ms₁.length) = (k.moment ms 1).after ms₁ := by
    have htake := congrArg (List.take ms₁.length) hsplit
    rw [List.take_take, Nat.min_eq_left hle, List.take_left] at htake
    rw [← moment_drop, moment, htake]
  refine ⟨j, x, 1 + ms₁.length, hj, ?_, by omega, by omega, ?_⟩
  · rw [loaded, ← moment_drop, moment, hpoint]
  · rw [hmoment]
    exact hread

/-- A run that has waited for its files enters them in its last turn. -/
theorem entersPending {g : Group} (hover : TakesOver k.pending k.loads.length i g (k.moment ms 1))
    (hcatalog : (k.moment ms 1).catalog = k.catalog) {t : Nat} (ht : 1 ≤ t)
    (hd : (k.moment ms (t + 1)).disposed = false) {changed : Bool}
    (hend : k.EndsAt ms i t (.ok changed)) :
    changed = true ∧ k.EntersPending ms t := by
  have hsucc := moment_succ (k := k) hend.move
  have hd₀ := moment_not_disposed (Nat.le_succ t) hd
  have hresult := hend.result
  obtain ⟨hwaits, hbefore⟩ := h.waitsFor hover hcatalog ht hd₀ hend.before
  obtain ⟨r, hr, hgoes⟩ : ∃ r, (k.moment ms t).runs[i]? = some r ∧
      Goes (k.moment ms t) (.turn (.run i)) i r := by
    rw [hsucc] at hd hresult
    rcases hwaits.next (h.moment_reachable t) hd with ⟨hnext, -⟩ | hgoes
    · cases hresult.symm.trans hnext.result?
    · exact hgoes
  have hlast := hwaits.ends (h.moment_reachable t) hd₀ hr hgoes
  rw [← hsucc] at hlast
  obtain ⟨stop, hstop⟩ | ⟨g', hp, hloads, hended, fault, hre, htold⟩ := hlast
  · cases hresult.symm.trans hstop
  · rw [htold] at hresult
    obtain ⟨rfl, rfl⟩ : changed = true ∧ fault = none := by
      rcases toldResult_cases (fault.or (k.moment ms t).announce.2) with hok | ⟨fault', herror⟩
      · rw [hok] at hresult
        cases hresult
        exact ⟨rfl, (Option.or_eq_none_iff.mp (toldResult_eq_ok_iff.mp hok)).1⟩
      · rw [herror] at hresult
        cases hresult
    have hstamped := (h.moment_reachable t).stamped
    have hsound : (Point.applying k.pending g').Sound (k.moment ms t).loads :=
      hp ▸ hstamped.points r (List.mem_of_getElem? hr)
    -- Nobody else had the lock since the changes were taken over, so the entries are still those of
    -- that time.
    have hlisted : ∀ cls p, (k.moment ms t).catalog.listed? cls p = k.catalog.listed? cls p :=
      Catalog.listed?_congr hwaits.entries.features hwaits.entries.definitions
    refine ⟨rfl, ⟨?_, ?_, ?_, results_of_loadedChanges hre hsound hstamped, hbefore⟩⟩
    · intro p change hget hkind
      obtain ⟨j, hj, -⟩ := hover.exists_load hget
      rw [← hloads] at hj
      rw [listed?_of_loadedChanges hre hsound hj, if_pos hkind]
    · intro p change hget hkind
      obtain ⟨j, x, u, hj, hx, hpos, hle, hload⟩ := h.exists_read hover ht hd₀ hget hkind hended
      rw [← hloads] at hj
      refine ⟨u, hpos, hle, ?_⟩
      rw [listed?_of_loadedChanges hre hsound hj, if_neg hkind, hx, hlisted,
        Site.brings?_of_load hload]
      split
      · rfl
      · rfl
    · intro p cls hcls
      rw [listed?_of_not_changed hre hcls, hlisted]

end RefreshCourse

/-- What applying the pending changes does, in whatever order turns are taken, and whatever else is
asked of the keeper and happens to the files meanwhile.  The run has ended when no turn is left.  If
nothing failed, then it has entered the changes that were pending when it took the lock, all at
once, and touched nothing else. -/
theorem refresh_enters {k : Keeper} {ms : List Move} {i : Nat} (h : k.RefreshCourse ms i)
    (hd : (k.after ms).disposed = false) :
    ((k.after ms).ready = [] → (k.after ms).held = [] →
      ∃ result, (k.after ms).result? i = some result) ∧
      ∀ changed, (k.after ms).result? i = some (.ok changed) → ∃ t, k.EndsAt ms i t (.ok changed) ∧
        (changed = true ↔ k.pending.entries ≠ []) ∧ k.EntersPending ms t := by
  refine ⟨h.ended hd, ?_⟩
  intro changed hresult
  rw [← moment_length] at hd hresult
  obtain ⟨t, r, -, hlt, hr, hn, hm, -, he⟩ := exists_end h.unfinished (Nat.zero_le _) hresult
  have hend : k.EndsAt ms i t (.ok changed) := ⟨hm, (result?_eq_none_iff hr).mpr hn, he⟩
  have hd' : (k.moment ms (t + 1)).disposed = false := moment_not_disposed hlt hd
  refine ⟨t, hend, ?_⟩
  have hd₁ := moment_not_disposed (Nat.succ_le_succ (Nat.zero_le t)) hd'
  obtain ⟨hcatalog, ⟨hempty, hidle⟩ | ⟨g, hover⟩⟩ := h.begins hd₁
  · -- The first turn is the last one then.
    cases t with
    | zero =>
      cases hidle.symm.trans he
      exact ⟨by simp [hempty], entersPending_of_empty hempty hcatalog⟩
    | succ t => cases hend.before.symm.trans (moment_result? hidle (Nat.le_add_left 1 t))
  · have ht : 1 ≤ t := by
      cases t with
      | zero =>
        obtain ⟨r, hr, -, hp⟩ := hover.applies
        have hnone := (result?_eq_none_iff hr).mpr (by simp [hp])
        cases hnone.symm.trans he
      | succ t => exact Nat.le_add_left 1 t
    obtain ⟨hchanged, henters⟩ := h.entersPending hover hcatalog ht hd' hend
    exact ⟨by simp [hchanged, hover.nonempty], henters⟩

def fiveFiles : Keeper :=
  (ofFiles [(shortPath 'f' 'a', "x"), (shortPath 'f' 'b', "y"), (shortPath 'f' 'c', "z"),
    (shortPath 'f' 'd', "x"), (shortPath 's' 'a', "x")]).after
    [.rebuild, .turn (.run 0), .turn (.load 0), .turn (.load 1), .turn (.load 2), .turn (.load 3),
      .turn (.report 0), .turn (.report 1), .turn (.report 2), .turn (.report 3), .turn (.run 0),
      .turn (.run 0), .turn (.load 4), .turn (.report 4), .turn (.run 0), .turn (.run 0)]

/-- The first feature was edited, and two are missing.  The keeper is told that one of these is gone
and that the other has changed, and is asked to apply this. -/
def fewerFiles : Keeper :=
  fiveFiles.after
    [.edit (inMemory [(shortPath 'f' 'a', "y"), (shortPath 'f' 'd', "x"),
      (shortPath 's' 'a', "x")]), .notify (shortPath 'f' 'a') { cls := .feature, kind := .changed },
      .notify (shortPath 'f' 'b') { cls := .feature, kind := .deleted },
      .notify (shortPath 'f' 'c') { cls := .feature, kind := .changed }, .refresh]

/-- While the changes are applied, a file is edited that was read already, and another change is
told. -/
def refreshing : List Move :=
  [.turn (.run 4), .turn (.load 5), .turn (.load 7), .edit (inMemory [(shortPath 'f' 'a', "z")]),
    .turn (.load 6), .notify (shortPath 'f' 'd') { cls := .feature, kind := .deleted },
    .turn (.report 5), .turn (.report 6), .turn (.report 7), .turn (.run 4)]

theorem fewerFiles_refreshCourse : fewerFiles.RefreshCourse refreshing 4 where
  reachable := by
    have hnew : ∀ files, (ofFiles files).Reachable :=
      fun files => Reachable.new (inMemory_stamps files) _ 20 _ _ _ Catalog.empty_stamped
    refine ((hnew _).after ?_).after ?_
    · intro w hw
      simp at hw
    · intro w hw
      simp only [List.mem_cons, reduceCtorEq, Move.edit.injEq, List.not_mem_nil, or_false] at hw
      rw [hw]
      exact inMemory_stamps _
  ready := by decide +kernel
  run := ⟨_, rfl, rfl, rfl, .inr ⟨.inl ⟨rfl, rfl⟩, by decide +kernel, by decide +kernel⟩⟩
  first := rfl
  stamps := by
    intro w hw
    simp only [refreshing, List.mem_cons, reduceCtorEq, Move.edit.injEq, List.not_mem_nil, or_false,
      false_or] at hw
    rw [hw]
    exact inMemory_stamps _

theorem refresh_enters_fewerFiles :
    (fewerFiles.after refreshing).result? 4 = some (.ok true) ∧ fewerFiles.pending.size = 3 ∧
      (fewerFiles.catalog.results.map (·.found.length)) = [1, 0, 0, 1] ∧
      ((fewerFiles.after refreshing).catalog.results.map (·.found.length)) = [1, 0, 0] ∧
      ∃ t, fewerFiles.EndsAt refreshing 4 t (.ok true) ∧ fewerFiles.EntersPending refreshing t := by
  have hd : (fewerFiles.after refreshing).disposed = false := by decide +kernel
  have hresult : (fewerFiles.after refreshing).result? 4 = some (.ok true) := by decide +kernel
  obtain ⟨t, hend, -, henters⟩ := (refresh_enters fewerFiles_refreshCourse hd).2 true hresult
  exact ⟨hresult, by decide +kernel, by decide +kernel, by decide +kernel, t, hend, henters⟩

end Keeper
end StepAtlas
