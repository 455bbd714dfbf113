import StepAtlas.Proofs.Keeper.History

/-
Building twice in a row comes to the same as building once.  A build looks at the catalog before it
for one thing: the entries of files that have become too large.  The catalog that lists a site has
these entries itself, so it is the one that lists the site after itself, in the same order and with
the same results.
-/

namespace StepAtlas

namespace Site

/-- Files that are recorded after a map have the same records after the records. -/
theorem entriesOf_record? {α : Type} {s : Site} {understand : Path → Text → Except Fault (Option α)}
    {before m : PathMap α} {files : List Path}
    (h : m.entries = entriesOf (fun p => s.record? (understand p) before p) files) :
    m.entries = entriesOf (fun p => s.record? (understand p) m p) files := by
  have hget : ∀ p ∈ files, m.get? p = s.record? (understand p) before p := by
    intro p hp
    refine Option.ext fun a => ?_
    rw [← PathMap.mem_entries_iff, h, mem_entriesOf, and_iff_right hp]
  have hsame : ∀ p ∈ files, s.record? (understand p) m p = s.record? (understand p) before p := by
    intro p hp
    have hp := hget p hp
    unfold record? at hp ⊢
    cases hread : s.workspace.read p with
    | error fault => rfl
    | ok file =>
      rw [hread] at hp
      dsimp only at hp ⊢
      -- Only what is too large is looked up, and then the record is what was looked up before.
      by_cases hsize : s.sizeLimit < file.size
      · rw [if_pos hsize] at hp ⊢
        rw [if_pos hsize]
        exact hp
      · rw [if_neg hsize, if_neg hsize]
  exact h.trans (List.filterMap_congr fun p hp => congrArg (Option.map (p, ·)) (hsame p hp).symm)

theorem Records.self {s : Site} {before c : Catalog} (h : s.Records before c) : s.Records c c := by
  obtain ⟨⟨files, hfound, hf⟩, ⟨scripts, hscripts, hd⟩⟩ := h
  exact ⟨⟨files, hfound, entriesOf_record? hf⟩, ⟨scripts, hscripts, entriesOf_record? hd⟩⟩

/-- The catalog that lists a site after another one lists it after itself. -/
theorem Lists.self {s : Site} {matcher : Matcher} {before c : Catalog}
    (h : s.Lists matcher before c) :
    s.Lists matcher c c :=
  ⟨h.toRecords.self, h.results⟩

/-- What does not fail once does not fail the next time. -/
theorem Fine.self {s : Site} {matcher : Matcher} {before c : Catalog} (h : s.Fine matcher before)
    (hc : s.Lists matcher before c) : s.Fine matcher c :=
  exists_lists_iff.mp ⟨h.warnings, c, hc.self⟩

end Site

def Move.alters : Move → Bool
  | .edit _ | .changeSettings _ | .switchMode _ => true
  | _ => false

namespace Keeper

/-- Runs that build follow each other: the first takes the lock with the first move and returns at a
time that it has published, nothing that they look at is changed, and from then on no other changes
are applied. -/
structure InARow (k : Keeper) (ms : List Move) (i t : Nat) : Prop extends k.Course ms i where
  still : ∀ m ∈ ms, m.alters = false
  unfinished : (k.moment ms t).result? i = none
  returns : (k.moment ms (t + 1)).result? i = some (.ok true)
  apart : ∀ u, t < u → ∀ j changes, ¬ k.AppliesAt ms j u changes

/-- A move that changes neither files nor settings nor the mode touches the catalog at most. -/
theorem Alters.same {k k' : Keeper} {m : Move} (h : Alters k m k') (hm : m.alters = false) :
    k'.site = k.site ∧ k'.matcher = k.matcher := by
  cases h with
  | keeps hk => exact ⟨congrArg Content.site hk, congrArg Content.matcher hk⟩
  | edits | switches | resets => cases hm
  | publishes _ hk | applies _ _ _ hk =>
    exact ⟨congrArg Content.site hk, congrArg Content.matcher hk⟩

namespace InARow
variable {k : Keeper} {ms : List Move} {i t : Nat} (h : k.InARow ms i t)

include h

/-- The site stays the same, and so does the mode. -/
theorem same (u : Nat) : (k.moment ms u).site = k.site ∧ (k.moment ms u).matcher = k.matcher := by
  refine moment_induction (P := fun k' => k'.site = k.site ∧ k'.matcher = k.matcher) (t := 0)
    ⟨rfl, rfl⟩ ?_ (Nat.zero_le u)
  intro v m _ hm hv
  have hnext :=
    (next_alters (h.moment_reachable v).suited m).same (h.still m (List.mem_of_getElem? hm))
  exact ⟨hnext.1.trans hv.1, hnext.2.trans hv.2⟩

/-- A keeper that has ended returns that it has not published. -/
theorem not_disposed : (k.moment ms (t + 1)).disposed = false := by
  obtain ⟨v, r, htv, hvt, hr, hn, hm, hgoes, hend⟩ :=
    exists_end h.unfinished (Nat.le_succ t) h.returns
  obtain rfl : v = t := by omega
  have hk := h.moment_reachable v
  obtain ⟨r₀, hr₀, hj₀, -⟩ : ∃ r₀, (k.moment ms 0).runs[i]? = some r₀ ∧ r₀.job.refreshes = false ∧
      _ := h.begins.run
  have hj : r.job.refreshes = false := moment_job (Nat.zero_le v) hr₀ hr ▸ hj₀
  by_contra hd
  rw [moment_succ hm] at hd hend
  have hd₀ : (k.moment ms v).disposed = true := by
    refine ((next_disposed _ _).mp (by simpa using hd)).resolve_left ?_
    simp
  have hlate := hgoes.result hr hj (hk.suited i r hr) hn
    (fun hc => isSuperseded_of_hopeless hk.standing (.inl hd₀) hr hj hn hc hgoes)
      (result?_eq_some_iff.mp hend)
  cases hhind : (k.moment ms v).hindrance? r with
  | none | some stop => rw [hhind] at hlate; cases hlate

/-- The catalog of the first run lists the site, and nothing fails on the way. -/
theorem listed : k.PublishedAt ms i t ∧ k.site.Fine k.matcher k.catalog ∧
    k.site.Lists k.matcher k.catalog (k.moment ms (t + 1)).catalog := by
  obtain ⟨v, r, htv, hvt, -, -, hm, -, -⟩ := exists_end h.unfinished (Nat.le_succ t) h.returns
  obtain rfl : v = t := by omega
  have hreturns := h.returns
  cases h.finishes h.not_disposed h.unfinished h.returns with
  | drops _ he => rw [hreturns] at he; cases he
  | fails _ _ he =>
    obtain ⟨fault, he⟩ := he
    rw [hreturns] at he
    cases he
  | publishes hgoal hp hcatalog _ =>
    rw [(h.same v).2] at hgoal
    obtain ⟨hfine, hlists⟩ := lists_of_newGoal h.reachable.stamped hgoal
    exact ⟨⟨hm, hp⟩, hfine, hcatalog ▸ hlists⟩

/-- A later run has a course of its own. -/
theorem later {j s : Nat} (hm : ms[s]? = some (.turn (.run j))) (hb : (k.moment ms s).Begins j) :
    (k.moment ms s).Course (ms.drop s) j where
  reachable := h.moment_reachable s
  begins := hb
  first := by rw [List.getElem?_drop]; exact hm
  files := fun w hw => h.files w (List.mem_of_mem_drop hw)

/-- What a later run comes to at its last turn, if it is wanted, when the catalog was still the same
at the time it took the lock. -/
theorem outcome {j s v : Nat} (hsv : s ≤ v) (hm : ms[s]? = some (.turn (.run j)))
    (hb : (k.moment ms s).Begins j) (hc : (k.moment ms s).catalog = (k.moment ms (t + 1)).catalog)
    (hd : (k.moment ms (v + 1)).disposed = false)
    (hw : (k.moment ms (v + 1)).isSuperseded j = false) (hn : (k.moment ms v).result? j = none)
    {result : Except Stop Bool} (he : (k.moment ms (v + 1)).result? j = some result) :
    Publishes (k.moment ms v) j (k.moment ms (v + 1)) ∧
      (k.moment ms (v + 1)).catalog = (k.moment ms (t + 1)).catalog ∧
      result = toldResult (k.moment ms v).announce.2 := by
  obtain ⟨n, rfl⟩ := Nat.exists_eq_add_of_le hsv
  have hcourse := h.later hm hb
  obtain ⟨-, hfine, hlists⟩ := h.listed
  have hfinishes :
      Finishes (k.moment ms (s + n)) j (k.moment ms s).newGoal (k.moment ms (s + n + 1)) := by
    rw [← moment_drop] at hn
    rw [Nat.add_assoc, ← moment_drop] at hd he
    have hlast := hcourse.finishes hd hn he
    rw [moment_drop, moment_drop] at hlast
    exact hlast
  have hagain := hfine.self hlists
  rcases hfinishes.outcome hcourse.reachable.stamped hw with ⟨-, hp, hl, hresult⟩ | ⟨hnot, -, -⟩
  · rw [(h.same s).1, (h.same _).2, hc] at hl
    exact ⟨hp, hlists.self.unique hl, Option.some.inj (he.symm.trans hresult)⟩
  · rw [(h.same s).1, (h.same _).2, hc] at hnot
    exact absurd hagain hnot

/-- From the first publication on the catalog stays the same. -/
theorem catalog_eq {u : Nat} (hu : t < u) :
    (k.moment ms u).catalog = (k.moment ms (t + 1)).catalog := by
  induction u using Nat.strongRecOn with
  | ind u ih =>
    obtain ⟨v, rfl⟩ : ∃ v, u = v + 1 := ⟨u - 1, by omega⟩
    rcases Nat.lt_or_ge t v with hv | hv
    · have hbefore := ih v (Nat.lt_succ_self v) hv
      cases hm : ms[v]? with
      | none =>
        rw [moment_succ_of_none hm]
        exact hbefore
      | some m =>
        have hstill := h.still m (List.mem_of_getElem? hm)
        have halters := next_alters (h.moment_reachable v).suited m
        rw [← moment_succ hm] at halters
        generalize hk' : k.moment ms (v + 1) = k' at halters
        cases halters with
        | keeps hk => exact (congrArg Content.catalog hk).trans hbefore
        | edits | switches | resets => cases hstill
        | @publishes j _ hp =>
          rw [← hk'] at hp ⊢
          have hpub : k.PublishedAt ms j v := ⟨hm, hp⟩
          -- The publisher took the lock after the first publication, since no run had a draft then.
          obtain ⟨s, hts, hsv, hms, hb⟩ := PublishedAt.exists_begins h.moment_reachable hpub hv
            fun r hr => PublishedAt.draft?_eq_none h.moment_reachable h.listed.1 hr
          obtain ⟨result, hend, -⟩ := hp.ended
          exact (h.outcome hsv hms hb (ih s (by omega) hts)
            (hpub.not_disposed (h.moment_reachable v).standing)
            hp.wanted hp.unfinished hend).2.1
        | applies ha => exact absurd ⟨hm, _, ha⟩ (h.apart v hv _ _)
    · obtain rfl : v = t := by omega
      rfl

end InARow

/-- Building twice in a row comes to the same as building once.  From the time at which the first
run has published, the catalog stays as it is, entry by entry and result by result in their order,
and so do all its answers.  A second run that is wanted ends, and it publishes again. -/
theorem rebuild_again {k : Keeper} {ms : List Move} {i t : Nat} (h : k.InARow ms i t) :
    (∀ u, t < u → (k.moment ms u).catalog = (k.moment ms (t + 1)).catalog) ∧
      ∀ j s, t < s → ms[s]? = some (.turn (.run j)) → (k.moment ms s).Begins j →
        (k.after ms).disposed = false → (k.after ms).isSuperseded j = false →
        ((k.after ms).ready = [] → (k.after ms).held = [] →
          ∃ result, (k.after ms).result? j = some result) ∧
          ∀ result, (k.after ms).result? j = some result →
            ∃ u, s ≤ u ∧ k.PublishedAt ms j u ∧ result = toldResult (k.moment ms u).announce.2 := by
  refine ⟨fun u hu => h.catalog_eq hu, ?_⟩
  intro j s hts hm hb hd hw
  have hcourse := h.later hm hb
  have hafter : (k.moment ms s).after (ms.drop s) = k.after ms := by
    rw [moment, ← after_append, List.take_append_drop]
  refine ⟨fun hready hheld => ?_, fun result hend => ?_⟩
  · rw [← hafter] at hd hready hheld ⊢
    exact hcourse.ended hd hready hheld
  · have hs : s ≤ ms.length := Nat.le_of_lt (List.getElem?_eq_some_iff.mp hm).1
    have hbefore : (k.moment ms s).result? j = none := hcourse.unfinished
    rw [← moment_length] at hd hw hend
    obtain ⟨u, r, hsu, hlt, hr, hn, hmu, -, he⟩ := exists_end hbefore hs hend
    have hunfinished : (k.moment ms u).result? j = none := (result?_eq_none_iff hr).mpr hn
    obtain ⟨hp, -, hresult⟩ := h.outcome hsu hm hb (h.catalog_eq hts) (moment_not_disposed hlt hd)
      (isSuperseded_before (begun_of_result? he) hlt hw) hunfinished he
    exact ⟨u, hsu, ⟨hmu, hp⟩, hresult⟩

/-- A keeper whose catalog was built, and one of whose files has become too large since. -/
def outgrown : Keeper :=
  (new (inMemory twoFiles) (.new .boundless default shortSettings) 20 1 500 false).after
    [.rebuild, .turn (.run 0), .turn (.load 0), .turn (.report 0), .turn (.run 0), .turn (.run 0),
      .turn (.load 1), .turn (.report 1), .turn (.run 0), .turn (.run 0),
      .edit (inMemory [(shortPath 'f' 'a', [.scalar 'y', .scalar 'z']),
        (shortPath 's' 'a', [.scalar 'x'])]), .rebuild]

def twice : List Move :=
  [.turn (.run 1), .turn (.load 2), .turn (.report 2), .turn (.run 1), .turn (.run 1),
    .turn (.load 3), .turn (.report 3), .turn (.run 1), .turn (.run 1), .rebuild, .turn (.run 2),
    .turn (.load 4), .turn (.report 4), .turn (.run 2), .turn (.run 2), .turn (.load 5),
    .turn (.report 5), .turn (.run 2), .turn (.run 2)]

theorem outgrown_reachable : outgrown.Reachable := by
  refine (Reachable.new (inMemory_stamps _) _ 20 _ _ _ Catalog.empty_stamped).after ?_
  intro w hw
  simp only [List.mem_cons, reduceCtorEq, false_or, or_false, Move.edit.injEq, List.not_mem_nil]
    at hw
  rw [hw]
  exact inMemory_stamps _

theorem outgrown_twice : outgrown.InARow twice 1 8 where
  reachable := outgrown_reachable
  begins := ⟨by decide +kernel, _, rfl, rfl, rfl, .inr ⟨rfl, rfl, rfl⟩⟩
  first := rfl
  files := by
    intro w hw
    simp [twice] at hw
  still := by decide
  unfinished := by decide +kernel
  returns := by decide +kernel
  apart := by
    rintro u - i changes ⟨hm, g, ha⟩
    have hjobs : ∀ u < twice.length, ∀ r ∈ (outgrown.moment twice u).runs, r.job.refreshes =
        false := by decide +kernel
    have hu : u < twice.length := (List.getElem?_eq_some_iff.mp hm).1
    have hfiles : ∀ w, Move.edit w ∈ twice.take u → w.Stamps := by
      intro w hw
      have hmem := List.mem_of_mem_take hw
      simp [twice] at hmem
    obtain ⟨r, hr, hp, -⟩ := ha.run
    have hrefreshes := ((outgrown_reachable.after hfiles).suited i r hr).applying changes g hp
    rw [hjobs u hu r (List.mem_of_getElem? hr)] at hrefreshes
    cases hrefreshes

theorem rebuild_again_outgrown :
    outgrown.InARow twice 1 8 ∧ (outgrown.after twice).catalog.stats = ⟨1, 1, 1, 0, 0, 0⟩ ∧
      (outgrown.after twice).catalog = (outgrown.moment twice 9).catalog ∧
      ∃ u, 10 ≤ u ∧ outgrown.PublishedAt twice 2 u := by
  have hrun : (outgrown.moment twice 10).runs[2]? = some (newRun .rebuild) := by
    have hlen : (outgrown.moment twice 9).runs.length = 2 := by decide +kernel
    rw [moment_succ (show twice[9]? = some .rebuild from rfl), ← hlen]
    exact runs_start_self _ _
  have hb : (outgrown.moment twice 10).Begins 2 :=
    ⟨by decide +kernel, _, hrun, rfl, rfl, .inr ⟨rfl, by decide +kernel, by decide +kernel⟩⟩
  obtain ⟨hd, hw, hend, hstats⟩ : (outgrown.after twice).disposed = false ∧
      (outgrown.after twice).isSuperseded 2 = false ∧
      (outgrown.after twice).result? 2 = some (.ok true) ∧
      (outgrown.after twice).catalog.stats = ⟨1, 1, 1, 0, 0, 0⟩ := by
    decide +kernel
  obtain ⟨hsame, hagain⟩ := rebuild_again outgrown_twice
  obtain ⟨u, hu, hp, -⟩ := (hagain 2 10 (by decide) rfl hb hd hw).2 _ hend
  exact ⟨outgrown_twice, hstats, hsame twice.length (by decide), u, hu, hp⟩

end Keeper
end StepAtlas
