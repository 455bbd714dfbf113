import StepAtlas.Proofs.Keeper.Rebuilt
import StepAtlas.Proofs.Keeper.Termination
import StepAtlas.Proofs.Updating

/-
Whether a file that cannot be used keeps the others from being entered.  A keeper with nothing else
to do is asked to build its catalog or to apply pending changes.  It always returns, in whatever
order turns are taken.  It returns that it is done, and every other file is entered as if nothing
had happened, exactly when no warning and no pattern fails; but a warning about one file may fail,
and then nothing is entered at all.
-/

namespace StepAtlas
namespace Keeper

structure AtRest (k : Keeper) : Prop where
  reachable : k.Reachable
  disposed : k.disposed = false
  ready : k.ready = []
  held : k.held = []

namespace AtRest
variable {k : Keeper} (h : k.AtRest)

include h

theorem settled {i : Nat} {r : Run} (hr : k.runs[i]? = some r) :
    (∃ result, r.point = .finished result) ∨ ∃ time, r.point = .sleeping time :=
  h.reachable.live.ended h.ready h.held hr

theorem locked : k.locked = false := by
  by_contra hl
  obtain ⟨i, r, hr, hh⟩ := h.reachable.live.holder (by simpa using hl)
  rcases h.settled hr with ⟨result, hp⟩ | ⟨time, hp⟩ <;> rw [hp] at hh <;> cases hh

theorem queue : k.queue = [] := by
  refine List.eq_nil_iff_forall_not_mem.mpr fun i hi => ?_
  obtain ⟨r, hr, hp⟩ := h.reachable.orderly.queued i hi
  rcases h.settled hr with ⟨result, hp'⟩ | ⟨time, hp'⟩ <;> rw [hp] at hp' <;> cases hp'

theorem begun {i : Nat} {r : Run} (hr : k.runs[i]? = some r) : k.Begun i := by
  refine ⟨r, hr, ?_⟩
  rcases h.settled hr with ⟨result, hp⟩ | ⟨time, hp⟩ <;> simp [hp]

/-- What the first turn of a call establishes and every other turn keeps holds until the call
returns. -/
theorem returns_of_first {job : Job} {I P : Keeper → Prop} (hk : (k.start job).1.Reachable)
    (hfirst : I ((k.start job).1.next (.turn (.run k.runs.length))) ∨
      Returned k.runs.length P ((k.start job).1.next (.turn (.run k.runs.length))))
    (hstep : ∀ k' t, k'.Reachable → I k' → t ∈ k'.ready → I (k'.next (.turn t)) ∨
      Returned k.runs.length P (k'.next (.turn t)))
    (hlive : ∀ k', I k' → k'.held = [] ∧ ∃ r, k'.runs[k.runs.length]? = some r ∧
      (∀ result, r.point ≠ .finished result) ∧ ∀ time, r.point ≠ .sleeping time) :
    Returns k.runs.length P (k.start job).1 := by
  refine returns_of_invariant (fun k' => k' = (k.start job).1 ∨ I k') ?_ ?_ hk (.inl rfl)
  · rintro k' t hk' (rfl | hI) ht
    · have hready : t ∈ k.ready ++ [Turn.run k.runs.length] := ht
      rw [h.ready, List.nil_append, List.mem_singleton] at hready
      rw [hready]
      exact hfirst.imp_left .inr
    · exact (hstep k' t hk' hI ht).imp_left .inr
  · rintro k' (rfl | hI)
    · exact ⟨h.held, _, runs_start_self k job, by simp [newRun], by simp [newRun]⟩
    · exact hlive k' hI

end AtRest

/-! ## What lasts from turn to turn -/

structure Lasting (k₀ k : Keeper) : Prop where
  held : k.held = []
  changed : k.changed = k₀.changed
  matcher : k.matcher = k₀.matcher
  disposed : k.disposed = false

theorem Lasting.next_turn {k₀ k : Keeper} (h : Lasting k₀ k) (t : Turn) :
    Lasting k₀ (k.next (.turn t)) where
  held := (next_turn_surroundings k t).held.trans h.held
  changed := (next_turn_surroundings k t).changed.trans h.changed
  matcher := (next_turn_surroundings k t).matcher.trans h.matcher
  disposed := next_disposed_eq_false.mpr ⟨by simp, h.disposed⟩

theorem AtRest.lasting {k : Keeper} (h : k.AtRest) (job : Job) : Lasting k (k.start job).1 :=
  ⟨h.held, rfl, rfl, h.disposed⟩

theorem next_turn_site {k : Keeper} (h : k.Undisturbed) (t : Turn) :
    (k.next (.turn t)).site = k.site := by
  have hinforms : Informs (fun _ => .feature) k (.turn t) := trivial
  obtain ⟨w, hw, -⟩ | ⟨-, hsite, -⟩ := next_site h hinforms
  · cases hw
  · exact hsite

/-- Once all runs have begun, no turn makes a run come too late. -/
theorem next_turn_isSuperseded {k : Keeper} (hb : ∀ j, j < k.runs.length → k.Begun j) {i : Nat}
    {r : Run} (hr : k.runs[i]? = some r) (t : Turn) :
    (k.next (.turn t)).isSuperseded i = k.isSuperseded i := by
  have hopens : k.opening? (.turn t) = none := by
    rw [Option.eq_none_iff_forall_ne_some]
    intro j hj
    obtain ⟨s, -, -, hs, -⟩ := opening?_eq_some_iff.mp hj
    exact opening?_ne_of_begun (hb j (List.getElem?_eq_some_iff.mp hs).1) _ hj
  rw [next_isSuperseded hr, supersededBy, hopens, isSuperseded_of_run hr]
  rfl

theorem next_turn_begun {k : Keeper} (hb : ∀ j, j < k.runs.length → k.Begun j) (t : Turn) :
    ∀ j, j < (k.next (.turn t)).runs.length → (k.next (.turn t)).Begun j := by
  intro j hj
  rw [(next_turn_surroundings k t).length] at hj
  exact next_begun (hb j hj) _

/-! ## Building the catalog -/

inductive Rebuilt (k : Keeper) (i : Nat) (k' : Keeper) : Prop where
  | publishes (hf : k.site.Fine k.matcher k.catalog)
      (hl : k.site.Lists k.matcher k.catalog k'.catalog)
      (hr : k'.result? i = some (toldResult k.announce.2))
  | fails (hf : ¬ k.site.Fine k.matcher k.catalog)
      (hr : ∃ fault, k'.result? i = some (.error (.failed fault)))

theorem Finishes.rebuilt {k₀ k k' : Keeper} (hk : k₀.Stamped) {i : Nat}
    (h : Finishes k i k₀.newGoal k') (hl : Lasting k₀ k) (hw : k'.isSuperseded i = false) :
    Rebuilt k₀ i k' := by
  have houtcome := h.outcome hk hw
  rw [hl.matcher, announce_snd_congr hl.changed] at houtcome
  rcases houtcome with ⟨hfine, -, hlists, hresult⟩ | ⟨hfine, hresult, -⟩
  · exact .publishes hfine hlists hresult
  · exact .fails hfine hresult

structure Rebuilding (k₀ : Keeper) (i : Nat) (k : Keeper) : Prop where
  lasting : Lasting k₀ k
  pursues : k.Pursues i k₀.newGoal
  wanted : k.isSuperseded i = false
  begun : ∀ j, j < k.runs.length → k.Begun j

theorem Rebuilding.next_turn {k₀ k : Keeper} (hk₀ : k₀.Stamped) (hk : k.Reachable) {i : Nat}
    (h : Rebuilding k₀ i k) (t : Turn) :
    Rebuilding k₀ i (k.next (.turn t)) ∨ Returned i (Rebuilt k₀ i) (k.next (.turn t)) := by
  obtain ⟨r, hr, -⟩ := h.pursues
  have hlasting := h.lasting.next_turn t
  have hwanted : (k.next (.turn t)).isSuperseded i = false :=
    (next_turn_isSuperseded h.begun hr t).trans h.wanted
  rcases next_pursues hk hlasting.disposed (by simp) h.pursues with hp | hf
  · exact .inl ⟨hlasting, hp, hwanted, next_turn_begun h.begun t⟩
  · exact .inr ⟨hf.result?, hf.rebuilt hk₀ h.lasting hwanted⟩

namespace AtRest
variable {k : Keeper} (h : k.AtRest)

include h

theorem begins : (k.next .rebuild).Begins k.runs.length where
  ready := List.mem_append_right _ List.mem_cons_self
  run := ⟨_, runs_start_self k .rebuild, rfl, rfl, .inr ⟨rfl, h.locked, h.queue⟩⟩

/-- The first turn of the call. -/
theorem rebuilding :
    Rebuilding k k.runs.length ((k.next .rebuild).next (.turn (.run k.runs.length))) ∨
    Returned k.runs.length (Rebuilt k k.runs.length)
      ((k.next .rebuild).next (.turn (.run k.runs.length))) := by
  have hrun : (k.next .rebuild).runs[k.runs.length]? = some (newRun .rebuild) :=
    runs_start_self k .rebuild
  have hopens : (k.next .rebuild).opening? (.turn (.run k.runs.length)) = some k.runs.length :=
    opening?_eq_some_iff.mpr ⟨_, rfl, h.begins.ready, hrun, rfl⟩
  -- This turn makes the call the latest one, and every other run has begun before it.
  have hwanted : ((k.next .rebuild).next (.turn (.run k.runs.length))).isSuperseded k.runs.length =
      false := by
    rw [next_isSuperseded hrun, supersededBy, hopens]
    exact (if_pos rfl).trans h.disposed
  have hbegun : ∀ j, j < ((k.next .rebuild).next (.turn (.run k.runs.length))).runs.length →
      ((k.next .rebuild).next (.turn (.run k.runs.length))).Begun j := by
    intro j hj
    rw [(next_turn_surroundings _ _).length] at hj
    rcases of_runs_start (List.getElem?_eq_getElem hj) with ⟨rfl, -⟩ | hr
    · exact begun_of_opening hopens
    · obtain ⟨r, hr', hp⟩ := h.begun hr
      exact next_begun ⟨r, runs_start_of_some hr' .rebuild, hp⟩ _
  have hlasting : Lasting k (k.next .rebuild) := h.lasting .rebuild
  rcases h.begins.pursues_or_finishes with hp | hf
  · exact .inl ⟨hlasting.next_turn _, hp, hwanted, hbegun⟩
  · exact .inr ⟨hf.result?, Finishes.rebuilt h.reachable.stamped hf hlasting hwanted⟩

/-- A call to build the catalog returns. -/
theorem rebuild_returns : Returns k.runs.length (Rebuilt k k.runs.length) (k.next .rebuild) := by
  have hcalled : (k.next .rebuild).Reachable := h.reachable.next (by simp)
  refine h.returns_of_first hcalled h.rebuilding ?_ ?_
  · intro k' t hk hI _
    exact hI.next_turn h.reachable.stamped hk t
  · intro k' hI
    obtain ⟨r, hr, hdrafts⟩ := hI.pursues
    refine ⟨hI.lasting.held, r, hr, ?_, ?_⟩
    · intro result hp
      rw [hp] at hdrafts
      cases hdrafts
    · intro time hp
      rw [hp] at hdrafts
      cases hdrafts

end AtRest

/-! ## Applying changes -/

/-- A load of a file that is gone: there is nothing to wait for and nothing that could fail. -/
def Forgoes (k : Keeper) (j : Nat) : Prop :=
  ∃ l, k.loads[j]? = some l ∧ l.gone = true ∧ l.point ≠ .held ∧
    ∀ result, l.point = .finished result → result = .ok .nothing

theorem next_forgoes {k : Keeper} (h : k.Undisturbed) {m : Move} (hm : m ≠ .dispose) {j : Nat}
    (hf : k.Forgoes j) :
    (k.next m).Forgoes j := by
  obtain ⟨l, hl, hgone, hheld, hresult⟩ := hf
  rcases next_load h hm hl with hl' | ⟨rfl, htake⟩
  · exact ⟨l, hl', hgone, hheld, hresult⟩
  · generalize k.next (.turn (.load j)) = k' at htake ⊢
    cases htake with
    | rests hp => exact ⟨l, hl, hgone, hheld, hresult⟩
    | waits hp hg => rw [hgone] at hg; cases hg
    | @ends es result hp he =>
      refine ⟨{ l with point := .finished result },
        by simp [finishLoad, wake, modifyLoad, hl], hgone, by simp, ?_⟩
      intro result' hp'
      obtain rfl : result = result' := LoadPoint.finished.inj hp'
      cases he with
      | canceled hc =>
        rw [(h.loaded l (List.mem_of_getElem? hl)).1] at hc
        cases hc
      | gone => rfl
      | reads hg =>
        cases hpoint : l.point with
        | created => rw [hg hpoint] at hgone; cases hgone
        | held => exact absurd hpoint hheld
        | finished result => exact absurd hpoint (hp result)

def Answers (k : Keeper) (e : Path × Change) (j : Nat) : Prop :=
  (e.2.kind ≠ .deleted → k.Brings e.2.cls e.1 j) ∧ (e.2.kind = .deleted → k.Forgoes j)

inductive Refreshed (k : Keeper) (i : Nat) (k' : Keeper) : Prop where
  | idles (h : k.pending.entries = []) (hr : k'.result? i = some (.ok false))
  | stops {p : Path} {change : Change} (hp : k.pending.get? p = some change)
      (hk : change.kind ≠ .deleted) (hl : ∀ x, k.site.load change.cls p ≠ .ok x)
      (hr : ∃ fault, k'.result? i = some (.error (.failed fault)))
  | enters {loaded : List (Path × Change × Loaded)} {fault : Option Fault}
      (hn : k.pending.entries ≠ []) (hb : k.site.Brought k.pending loaded)
      (hre : k.catalog.refresh k.matcher loaded = (k'.catalog, fault))
      (hr : k'.result? i = some (toldResult (fault.or k.announce.2)))

structure Refreshing (k₀ : Keeper) (i : Nat) (k : Keeper) : Prop where
  lasting : Lasting k₀ k
  site : k.site = k₀.site
  catalog : k.catalog = k₀.catalog
  nonempty : k₀.pending.entries ≠ []
  run : ∃ r g, k.runs[i]? = some r ∧ r.point = .applying k₀.pending g ∧
    List.Forall₂ k.Answers k₀.pending.entries g.loads

theorem brought_of_answers {k : Keeper} {es : List (Path × Change)} {loads : List Nat}
    (h : List.Forall₂ k.Answers es loads) (he : ∀ j ∈ loads, Ended k.loads j) :
    List.Forall₂ (fun e x => x.1 = e.1 ∧ x.2.1 = e.2 ∧
      (e.2.kind ≠ .deleted → k.site.load e.2.cls e.1 = .ok x.2.2)) es
      ((es.zip loads).map fun ((p, c), load) => (p, c, k.loaded load)) := by
  induction h with
  | nil => exact .nil
  | @cons e j es loads ha _ ih =>
    refine .cons ⟨rfl, rfl, fun hk => ?_⟩ (ih fun j hj => he j (List.mem_cons_of_mem _ hj))
    obtain ⟨l, hl, hb⟩ := ha.1 hk
    obtain ⟨l', x, hl', hx⟩ := he j List.mem_cons_self
    rw [hl] at hl'
    cases hl'
    have hloaded : k.loaded j = x := by rw [loaded, loadPoint?, hl, Option.map_some, hx]
    show k.site.load e.2.cls e.1 = .ok (k.loaded j)
    rw [hloaded]
    exact hb.brought hx

/-- In its last turn a run stops because of a load, or it enters its changes and matches. -/
theorem TakesRun.refreshes_or_stops {k k' : Keeper} {id : Nat} {r : Run} (ht : TakesRun k id r k')
    (hr : k.runs[id]? = some r) {changes : PathMap Change} {g : Group}
    (hp : r.point = .applying changes g) (hc : r.canceled = false) (hd : k.disposed = false) :
    (∃ stop, g.stop = some stop ∧ k'.result? id = some (.error stop)) ∨
      (g.stop = none ∧ ∃ fault, k.catalog.refresh k.matcher (k.loadedChanges changes g) =
        (k'.catalog, fault) ∧
          k'.result? id = some (toldResult (fault.or k.announce.2))) := by
  cases ht with
  | leaves hp' hl =>
    rw [hp] at hp'
    cases hp'
    cases hl with
    | canceled hcan => rw [hc] at hcan; cases hcan
    | disposed hd' => rw [hd] at hd'; cases hd'
    | stopped hstop => exact .inl ⟨_, hstop, result?_eq_some_iff.mpr (point?_leave_self hr _)⟩
  | @breaks _ _ c fault hp' _ hg _ hre =>
    rw [hp] at hp'
    cases hp'
    refine .inr ⟨hg, some fault, ?_,
      result?_eq_some_iff.mpr (point?_leave_self (k := { k with catalog := c }) hr _)⟩
    rw [leave_eq]
    exact hre
  | applies hp' _ hg _ hre =>
    rw [hp] at hp'
    cases hp'
    exact .inr ⟨hg, none, hre, result?_eq_some_iff.mpr (point?_finish_self hr _)⟩
  | queues _ ha | enters _ ha =>
    have hstage := ha.le_stage
    rw [hp] at hstage
    exact absurd hstage (by simp [Point.stage])
  | stops hp' => rcases hp' with hp' | ⟨time, hp'⟩ <;> rw [hp] at hp' <;> cases hp'
  | rests hp' | givesUp hp' => rw [hp] at hp'; cases hp'
  | sleeps hp' | quits hp' | admitted hp' | resumes hp' | yields hp' | continues hp' =>
    rw [hp] at hp'; cases hp'

theorem Refreshing.refreshed {k₀ k k' : Keeper} (hk : k.Reachable) {i : Nat} (h : Refreshing k₀ i k)
    {r : Run} (hr : k.runs[i]? = some r) (hready : Turn.run i ∈ k.ready)
    (ht : TakesRun { k with ready := k.ready.erase (.run i) } i r k') :
    Returned i (Refreshed k₀ i) k' := by
  obtain ⟨r', g, hr', hp, hf⟩ := h.run
  rw [hr] at hr'
  cases hr'
  have hu := hk.undisturbed h.lasting.disposed
  have hgroup : r.point.group? = some g := by rw [hp]; rfl
  have hc : r.canceled = false :=
    hu.not_canceled hr (Point.isEarly_of_holds (.inl (by rw [hgroup]; rfl))) (by simp [hp])
  have hreported := hk.reported h.lasting.disposed
  rcases ht.refreshes_or_stops hr hp hc h.lasting.disposed with ⟨stop, hstop, hresult⟩
    | ⟨hstop, fault, hre, hresult⟩
  · refine ⟨⟨_, hresult⟩, ?_⟩
    cases stop with
    | canceled => exact absurd hstop ((hu.run i r hr).group g hgroup).2
    | failed fault =>
      obtain ⟨j, hj, l, hl, hlp⟩ :=
        (hreported i r.point g (point?_of_run hr) hgroup).stopped fault hstop
      obtain ⟨⟨p, change⟩, hmem, hans⟩ := exists_of_forall₂_right hf hj
      by_cases hk : change.kind = .deleted
      · -- Nothing is read of a file that is gone, so its load cannot have failed.
        obtain ⟨l', hl', -, -, hok⟩ := hans.2 hk
        rw [hl] at hl'
        cases hl'
        cases hok _ hlp
      · obtain ⟨l', hl', hb⟩ := hans.1 hk
        rw [hl] at hl'
        cases hl'
        refine .stops (PathMap.mem_entries_iff.mp hmem) hk ?_ ⟨fault, hresult⟩
        intro x hx
        rw [← h.site, hb.failed hlp] at hx
        cases hx
  · -- The run has its turn only when all loads have reported; none stopped it, so each has brought
    -- something.
    have hdone : g.isDone = true := hk.orderly.awaits i r g hr hgroup hready
    have hbrought : k₀.site.Brought k₀.pending (k.loadedChanges k₀.pending g) := by
      rw [Site.Brought, ← h.site]
      exact brought_of_answers hf fun j hj => hreported.ended (point?_of_run hr) hgroup hstop hdone
        hj
    have hrefresh : k₀.catalog.refresh k₀.matcher (k.loadedChanges k₀.pending g) =
        (k'.catalog, fault) := by
      rw [← h.catalog, ← h.lasting.matcher]
      exact hre
    have htold : { k with ready := k.ready.erase (.run i) }.announce.2 = k₀.announce.2 :=
      announce_snd_congr h.lasting.changed
    rw [htold] at hresult
    exact ⟨⟨_, hresult⟩, .enters h.nonempty hbrought hrefresh hresult⟩

theorem Refreshing.next_turn {k₀ k : Keeper} (hk : k.Reachable) {i : Nat} (h : Refreshing k₀ i k)
    {t : Turn} (ht : t ∈ k.ready) :
    Refreshing k₀ i (k.next (.turn t)) ∨ Returned i (Refreshed k₀ i) (k.next (.turn t)) := by
  obtain ⟨r, g, hr, hp, hf⟩ := h.run
  by_cases hi : t = .run i
  · subst hi
    exact .inr (h.refreshed hk hr ht (goes_of_ready hr ht).takes)
  · -- The turn of another run or of a load: the lock keeps the catalog, and loads bring what their
    -- files hold.
    have hu := hk.undisturbed h.lasting.disposed
    have hsite := next_turn_site hu t
    have hcatalog := next_turn_catalog_of_holds hk.orderly hr (by rw [hp]; rfl) hi
    obtain ⟨r', hr', -, hstays | hgoes⟩ := next_run hr (.turn t)
    · rw [hp] at hstays
      obtain ⟨g', hp', hloads⟩ := hstays.of_applying
      refine .inl ⟨h.lasting.next_turn t, hsite.trans h.site, hcatalog.trans h.catalog, h.nonempty,
        ?_⟩
      refine ⟨r', g', hr', hp', ?_⟩
      rw [hloads]
      refine hf.imp fun e j ha => ⟨fun hk => ?_, fun hk => next_forgoes hu (by simp) (ha.2 hk)⟩
      exact next_brings hu (by simp) (by rw [hsite]) (ha.1 hk)
    · exact absurd (Move.turn.inj hgoes.move) hi

theorem TakesOver.answers {changes : PathMap Change} {n id : Nat} {g : Group} {k : Keeper}
    (h : TakesOver changes n id g k) : List.Forall₂ k.Answers changes.entries g.loads := by
  refine h.loads.imp fun e j hj => ⟨fun hk => ?_, fun hk => ?_⟩
  · exact ⟨_, hj.2, fun result hp => (by cases hp), rfl, rfl, decide_eq_false hk⟩
  · exact ⟨_, hj.2, decide_eq_true hk, by simp [newLoad], fun result hp => (by cases hp)⟩

/-- A run that applies changes finds none, or it takes over all of them. -/
theorem Enters.idles_or_takesOver {k k' : Keeper} {id : Nat} {r : Run} (he : Enters k id r.job k')
    (hr : k.runs[id]? = some r) (hj : r.job.refreshes = true) (hd : k.disposed = false) :
    k'.catalog = k.catalog ∧ ((k.pending.entries = [] ∧ k'.result? id = some (.ok false)) ∨
      ∃ g, TakesOver k.pending k.loads.length id g k') := by
  cases he with
  | builds hj' => rw [hj] at hj'; cases hj'
  | idles _ hempty =>
    have hnil : k.pending.entries = [] :=
      hempty.resolve_right fun hd' => Bool.noConfusion (hd.symm.trans hd')
    refine ⟨by rw [leave_eq]; rfl, .inl ⟨hnil, ?_⟩⟩
    exact result?_eq_some_iff.mpr (point?_leave_self (k := { k with pending := .empty }) hr _)
  | takesOver hj' hne => exact ⟨rfl, .inr ⟨_, takesOver_startLoads hr hj' hne⟩⟩

/-- A run takes the lock if it has its turn: it waits for the lock, or the lock is free and it comes
to it. -/
def Admissible (k : Keeper) (r : Run) : Prop :=
  r.point = .queued ∨
    (((r.point = .created ∧ r.job = .refresh) ∨ ∃ time, r.point = .sleeping time) ∧
      k.locked = false ∧ k.queue = [])

theorem TakesRun.idles_or_takesOver {k k' : Keeper} {id : Nat} {r : Run} (ht : TakesRun k id r k')
    (hr : k.runs[id]? = some r) (ha : k.Admissible r) (hj : r.job.refreshes = true)
    (hc : r.canceled = false) (hd : k.disposed = false) :
    k'.catalog = k.catalog ∧ ((k.pending.entries = [] ∧ k'.result? id = some (.ok false)) ∨
      ∃ g, TakesOver k.pending k.loads.length id g k') := by
  have hpoint : r.point = .queued ∨ r.point = .created ∨ ∃ time, r.point = .sleeping time := by
    rcases ha with hp | ⟨⟨hp, -⟩ | hp, -⟩
    · exact .inl hp
    · exact .inr (.inl hp)
    · exact .inr (.inr hp)
  have hfree : r.point ≠ .queued → k.locked = false ∧ k.queue = [] :=
    fun hp => (ha.resolve_left hp).2
  cases ht with
  | enters _ harrives _ _ he =>
    obtain ⟨superseded, hr₀⟩ := harrives.run hr
    have hd₀ := harrives.disposed.trans hd
    have hentered := he.idles_or_takesOver (r := { r with superseded }) hr₀ hj hd₀
    obtain ⟨_, _, _, _, _, rfl⟩ := harrives.eq
    exact hentered
  | admitted _ _ he =>
    have hentered := he.idles_or_takesOver (r := r) hr hj hd
    exact hentered
  | queues _ harrives hl =>
    obtain ⟨hlocked, hqueue⟩ := hfree harrives.point_ne_queued
    rcases hl with hl | hq
    · rw [hlocked] at hl
      cases hl
    · exact absurd hqueue hq
  | sleeps hp hj' =>
    rcases ha with hq | ⟨⟨-, hrefresh⟩ | ⟨time, hs⟩, -⟩
    · rw [hp] at hq
      cases hq
    · rw [hj'] at hrefresh
      cases hrefresh
    · rw [hp] at hs
      cases hs
  | stops _ hc' | quits _ hc' => rw [hc] at hc'; cases hc'
  | givesUp hp => rcases hpoint with hp' | hp' | ⟨time, hp'⟩ <;> rw [hp'] at hp <;> cases hp
  | rests hp | resumes hp | yields hp | continues hp | leaves hp | breaks hp | applies hp =>
    rcases hpoint with hp' | hp' | ⟨time, hp'⟩ <;> rw [hp] at hp' <;> cases hp'

namespace AtRest
variable {k : Keeper} (h : k.AtRest)

include h

theorem refreshing :
    Refreshing k k.runs.length ((k.next .refresh).next (.turn (.run k.runs.length))) ∨
    Returned k.runs.length (Refreshed k k.runs.length)
      ((k.next .refresh).next (.turn (.run k.runs.length))) := by
  have hrun : (k.next .refresh).runs[k.runs.length]? = some (newRun .refresh) :=
    runs_start_self k .refresh
  have hready : Turn.run k.runs.length ∈ (k.next .refresh).ready :=
    List.mem_append_right _ List.mem_cons_self
  have hlasting : Lasting k (k.next .refresh) := h.lasting .refresh
  have hundisturbed := (h.reachable.next (m := .refresh) (by simp)).undisturbed hlasting.disposed
  have hsite : ((k.next .refresh).next (.turn (.run k.runs.length))).site = k.site :=
    next_turn_site hundisturbed _
  have hadmissible : (k.next .refresh).Admissible (newRun .refresh) :=
    .inr ⟨.inl ⟨rfl, rfl⟩, h.locked, h.queue⟩
  rcases (goes_of_ready hrun hready).takes.idles_or_takesOver hrun hadmissible rfl rfl
    h.disposed with
    ⟨hcatalog, ⟨hempty, hresult⟩ | ⟨g, hover⟩⟩
  · exact .inr ⟨⟨_, hresult⟩, .idles hempty hresult⟩
  · obtain ⟨r, hr, -, hp⟩ := hover.applies
    exact .inl ⟨hlasting.next_turn _, hsite, hcatalog, hover.nonempty, r, g, hr, hp, hover.answers⟩

/-- A call to apply the pending changes returns. -/
theorem refresh_returns : Returns k.runs.length (Refreshed k k.runs.length) (k.next .refresh) := by
  have hcalled : (k.next .refresh).Reachable := h.reachable.next (by simp)
  refine h.returns_of_first hcalled h.refreshing ?_ ?_
  · intro k' t hk hI ht
    exact hI.next_turn hk ht
  · intro k' hI
    obtain ⟨r, g, hr, hp, -⟩ := hI.run
    exact ⟨hI.lasting.held, r, hr, by simp [hp], by simp [hp]⟩

end AtRest

/-! ## Isolation -/

/-- In whatever order turns are taken, a call returns that it is done, and the catalog is then as
`P` says. -/
def Succeeds (k : Keeper) (call : Move) (P : Catalog → Prop) : Prop :=
  Returns k.runs.length (fun k' => k'.result? k.runs.length = some (.ok true) ∧ P k'.catalog)
    (k.next call)

theorem Succeeds.imp {k : Keeper} {call : Move} {P Q : Catalog → Prop} (h : k.Succeeds call P)
    (himp : ∀ c, P c → Q c) : k.Succeeds call Q :=
  Returns.imp (fun _ h => ⟨h.1, himp _ h.2⟩) h

def answering (k : Keeper) (file : Path) (answer : Except Fault FileContent) : Keeper :=
  k.next (.edit (k.workspace.answering file answer))

namespace AtRest
variable {k : Keeper} (h : k.AtRest)

include h

theorem answering (file : Path) (answer : Except Fault FileContent) :
    (k.answering file answer).AtRest where
  reachable := by
    refine h.reachable.next ?_
    rintro w hw
    cases hw
    exact Workspace.answering_stamps h.reachable.stamped.stamps file answer
  disposed := h.disposed
  ready := h.ready
  held := h.held

/-- Building the catalog succeeds exactly if nothing fails on the way. -/
theorem succeeds_rebuild_iff {P : Catalog → Prop}
    (hP : ∀ c, k.site.Lists k.matcher k.catalog c → P c) :
    k.Succeeds .rebuild P ↔ k.site.Fine k.matcher k.catalog ∧ k.announce.2 = none := by
  constructor
  · intro hs
    obtain ⟨k', ⟨hresult, -⟩, hrebuilt⟩ := hs.exists_and h.rebuild_returns
    cases hrebuilt with
    | publishes hfine _ hr =>
      rw [hresult] at hr
      exact ⟨hfine, toldResult_eq_ok_iff.mp (Option.some.inj hr).symm⟩
    | fails _ hr =>
      obtain ⟨fault, hr⟩ := hr
      cases hresult.symm.trans hr
  · rintro ⟨hfine, htold⟩
    refine h.rebuild_returns.imp fun k' hrebuilt => ?_
    cases hrebuilt with
    | publishes _ hlists hr => exact ⟨by rw [hr, htold]; rfl, hP _ hlists⟩
    | fails hfails => exact absurd hfine hfails

/-- Applying changes succeeds exactly if there are any and nothing fails on the way. -/
theorem succeeds_refresh_iff {P : Catalog → Prop}
    (hP : ∀ c, k.site.Updates k.pending k.catalog c → P c) :
    k.Succeeds .refresh P ↔
      k.pending.entries ≠ [] ∧ k.site.Applicable k.matcher k.pending k.catalog ∧
      k.announce.2 = none := by
  constructor
  · intro hs
    obtain ⟨k', ⟨hresult, -⟩, hrefreshed⟩ := hs.exists_and h.refresh_returns
    cases hrefreshed with
    | idles _ hr => cases hresult.symm.trans hr
    | stops _ _ _ hr =>
      obtain ⟨fault, hr⟩ := hr
      cases hresult.symm.trans hr
    | enters hn hb hre hr =>
      rw [hresult] at hr
      obtain ⟨hfault, htold⟩ :=
        Option.or_eq_none_iff.mp (toldResult_eq_ok_iff.mp (Option.some.inj hr).symm)
      exact ⟨hn, (hb.applicable_iff k.matcher k.catalog).mpr (by rw [hre, hfault]), htold⟩
  · rintro ⟨hn, happlicable, htold⟩
    refine h.refresh_returns.imp fun k' hrefreshed => ?_
    cases hrefreshed with
    | idles hempty => exact absurd hempty hn
    | stops hp hk hl =>
      obtain ⟨x, hx⟩ := Site.warns_iff.mp (happlicable.warnings _ _ hp hk)
      exact absurd hx (hl x)
    | @enters loaded fault _ hb hre hr =>
      have hfault := (hb.applicable_iff k.matcher k.catalog).mp happlicable
      rw [hre] at hfault
      cases (hfault : fault = none)
      refine ⟨by rw [hr, htold]; rfl, hP _ ⟨?_, ?_⟩⟩
      · intro p change hp
        rw [Catalog.listed?_refresh hre]
        exact (hb.updates k.catalog).changed p change hp
      · intro p cls hcls
        rw [Catalog.listed?_refresh hre]
        exact (hb.updates k.catalog).others p cls hcls

end AtRest

/-- A keeper for two features and a script that serves the step of the second. -/
def written : Keeper :=
  let files : List (Path × Text) := [
    (shortPath 'f' 'a', "Feature: A\n"),
    (shortPath 'f' 'b', "Feature: B\n  Scenario: C\n    Given x\n"), (shortPath 's' 'a', "x")]
  new { inMemory files with feature := Gherkin.parse [] } (.new .boundless default shortSettings) 20
    1000 500 false

def rewritten : Keeper :=
  let change : Change := { cls := .feature, kind := .changed }
  written.after
    [.notify (shortPath 'f' 'a') change, .notify (shortPath 'f' 'b') change, .turn (.run 0),
      .turn (.run 1)]

theorem rewritten_atRest : rewritten.AtRest where
  reachable := by
    have hwritten : written.Reachable :=
      Reachable.new (fun _ _ _ h => Gherkin.parse_stampedBy h) _ 20 _ _ _ Catalog.empty_stamped
    refine hwritten.after fun w hw => ?_
    simp at hw
  disposed := by decide +kernel
  ready := by decide +kernel
  held := by decide +kernel

theorem AtRest.fine_iff {k : Keeper} (h : k.AtRest) : k.site.Fine k.matcher k.catalog ↔
    (Catalog.build k.workspace k.settings k.matcher k.sizeLimit k.catalog).isOk = true :=
  Site.fine_iff_isOk h.reachable.stamped.stamps h.reachable.stamped.catalog

/-- One of the features is written in a way that nobody understands. -/
def gibberish : Except Fault FileContent := .ok { text := "Gibberish\n", size := 10 }

theorem gibberish_applicable :
    (rewritten.site.answering (shortPath 'f' 'a') gibberish).Applicable rewritten.matcher
    rewritten.pending rewritten.catalog := by
  let step : Step :=
    { keyword := .given, text := "x", line := 3, source := shortPath 'f' 'b', scenario := "C",
      feature := "B" }
  let feature : Feature :=
    { name := "B", source := shortPath 'f' 'b',
      scenarios := [{ name := "C", steps := [step], line := 2, tags := [] }]
      tags := [] }
  let change : Change := { cls := .feature, kind := .changed }
  have hbrought : (rewritten.site.answering (shortPath 'f' 'a') gibberish).Brought rewritten.pending
      [(shortPath 'f' 'a', change, .nothing), (shortPath 'f' 'b', change, .feature feature)] := by
    refine .cons ⟨rfl, rfl, fun _ => ?_⟩ (.cons ⟨rfl, rfl, fun _ => ?_⟩ .nil)
    · decide +kernel
    · decide +kernel
  exact (hbrought.applicable_iff _ _).mpr (by decide +kernel)

def unquotable : Except Fault FileContent := .ok { text := "[/b]\n", size := 5 }

end Keeper
end StepAtlas
