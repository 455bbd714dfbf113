import StepAtlas.Proofs.Keeper.Frame
import StepAtlas.Proofs.Keeper.Moves

/-
What a move does to a run.  A run gets on only by its own turns.  Whatever else happens, it waits
where it waited, except that the group of loads it waits for takes reports or is told to stop; and
what a run has come to in the end stays.
-/

namespace StepAtlas

inductive Point.Stays (p : Point) : Point → Prop where
  | same : Stays p p
  | group {g g' : Group} (hg : p.group? = some g) (hd : g.isDone = false)
      (hl : g'.loads = g.loads) :
      Stays p (p.withGroup g')

theorem Point.withGroup_withGroup (p : Point) (g g' : Group) :
    (p.withGroup g).withGroup g' = p.withGroup g' := by
  cases p with
  | _ => rfl

theorem Point.Stays.trans {p q q' : Point} (h : p.Stays q) (h' : q.Stays q') : p.Stays q' := by
  cases h with
  | same => exact h'
  | @group g g₁ hg hd hl =>
    cases h' with
    | same => exact .group hg hd hl
    | @group g₂ g₃ hg' hd' hl' =>
      rw [Point.group?_withGroup hg] at hg'
      cases hg'
      rw [Point.withGroup_withGroup]
      exact .group hg hd (hl'.trans hl)

theorem Point.Stays.draft? {p q : Point} (h : p.Stays q) : q.draft? = p.draft? := by
  cases h with
  | same => rfl
  | group hg hd hl =>
    cases p with
    | _ => rfl

theorem Point.Stays.applying {p : Point} {changes : PathMap Change} {g : Group} {q : Point}
    (h : p.Stays q) (hq : q = .applying changes g) : ∃ g', p = .applying changes g' := by
  cases h with
  | same => exact ⟨g, hq⟩
  | group hg hd hl =>
    cases p with
    | applying changes' g' =>
      cases hq
      exact ⟨g', rfl⟩
    | _ => cases hq

theorem Point.Stays.of_applying {changes : PathMap Change} {g : Group} {q : Point}
    (h : (Point.applying changes g).Stays q) :
    ∃ g', q = .applying changes g' ∧ g'.loads = g.loads := by
  cases h with
  | same => exact ⟨g, rfl, rfl⟩
  | @group g₁ g' hg hd hl =>
    cases hg
    exact ⟨g', rfl, hl⟩

theorem Point.Stays.of_group?_eq_none {p q : Point} (h : p.Stays q) (hp : p.group? = none) :
    q = p := by
  cases h with
  | same => rfl
  | group hg hd hl =>
    rw [hp] at hg
    cases hg

namespace Keeper

/-- Every run is there still and waits where it waited, and those that are new have not begun.  Some
may have been superseded. -/
structure KeepsRuns (outdated : Nat → Bool) (runs runs' : List Run) : Prop where
  kept : ∀ (i : Nat) (r : Run), runs[i]? = some r → ∃ r', runs'[i]? = some r' ∧ r'.job = r.job ∧
    r'.superseded = (outdated i || r.superseded) ∧ r.point.Stays r'.point
  fresh : ∀ (i : Nat) (r' : Run), runs'[i]? = some r' → runs[i]? = none → r'.point = .created

def noRun (_ : Nat) : Bool := false

namespace KeepsRuns
variable {outdated : Nat → Bool} {runs runs₁ runs' : List Run}

theorem of_kept (hlen : runs'.length = runs.length)
    (hkept : ∀ (i : Nat) (r : Run), runs[i]? = some r → ∃ r', runs'[i]? = some r' ∧ r'.job = r.job ∧
      r'.superseded = (outdated i || r.superseded) ∧ r.point.Stays r'.point) :
    KeepsRuns outdated runs runs' where
  kept := hkept
  fresh := by
    intro i r' hr' hnone
    rw [List.getElem?_eq_none_iff, ← hlen, ← List.getElem?_eq_none_iff, hr'] at hnone
    cases hnone

theorem refl (runs : List Run) : KeepsRuns noRun runs runs :=
  .of_kept rfl fun _ r hr => ⟨r, hr, rfl, rfl, .same⟩

theorem trans (h : KeepsRuns outdated runs runs₁) (h' : KeepsRuns noRun runs₁ runs') :
    KeepsRuns outdated runs runs' where
  kept := by
    intro i r hr
    obtain ⟨r₁, hr₁, hj₁, hs₁, hp₁⟩ := h.kept i r hr
    obtain ⟨r', hr', hj', hs', hp'⟩ := h'.kept i r₁ hr₁
    exact ⟨r', hr', hj'.trans hj₁, hs'.trans hs₁, hp₁.trans hp'⟩
  fresh := by
    intro i r' hr' hnone
    cases hr₁ : runs₁[i]? with
    | none => exact h'.fresh i r' hr' hr₁
    | some r₁ =>
      have hcreated := h.fresh i r₁ hr₁ hnone
      obtain ⟨r'', hr'', -, -, hp⟩ := h'.kept i r₁ hr₁
      rw [hr'] at hr''
      cases hr''
      rw [hp.of_group?_eq_none (by rw [hcreated]; rfl), hcreated]

theorem modifyRun (k : Keeper) (id : Nat) {f : Run → Run} (hj : ∀ r, (f r).job = r.job)
    (hs : ∀ r, (f r).superseded = r.superseded) (hp : ∀ r, (f r).point = r.point) :
    KeepsRuns noRun k.runs (k.modifyRun id f).runs := by
  refine .of_kept (by simp [Keeper.modifyRun]) ?_
  intro i r hr
  by_cases hi : id = i
  · exact ⟨f r, by simp [Keeper.modifyRun, hi, hr], hj r, hs r, by rw [hp]; exact .same⟩
  · exact ⟨r, by simp [Keeper.modifyRun, hi, hr], rfl, rfl, .same⟩

theorem wait {k : Keeper} {id : Nat} {r : Run} (hr : k.runs[id]? = some r) {p : Point}
    (hp : r.point.Stays p) :
    KeepsRuns noRun k.runs (k.wait id p).runs := by
  refine .of_kept (by simp [Keeper.wait, Keeper.modifyRun]) ?_
  intro i s hs
  by_cases hi : i = id
  · subst hi
    rw [hr] at hs
    cases hs
    exact ⟨_, runs_wait_self hr p, rfl, rfl, hp⟩
  · exact ⟨s, (runs_wait_of_ne hi p).trans hs, rfl, rfl, .same⟩

theorem unwantedRuns (k : Keeper) :
    KeepsRuns (fun i => decide (k.current = some i)) k.runs k.unwantedRuns := by
  refine .of_kept (by simp [Keeper.unwantedRuns]) ?_
  intro i r hr
  refine ⟨{ r with superseded := decide (k.current = some i) || r.superseded }, ?_, rfl, rfl, .same⟩
  simp [Keeper.unwantedRuns, List.getElem?_mapIdx, hr]

theorem start (k : Keeper) (job : Job) : KeepsRuns noRun k.runs (k.start job).1.runs where
  kept := fun _ r hr => ⟨r, runs_start_of_some hr job, rfl, rfl, .same⟩
  fresh := by
    intro i r' hr' hnone
    rcases of_runs_start hr' with ⟨-, rfl⟩ | hr
    · rfl
    · rw [hnone] at hr
      cases hr

end KeepsRuns

theorem CancelsRun.keepsRuns {k k' : Keeper} {id : Nat} (hc : CancelsRun k id k') :
    KeepsRuns noRun k.runs k'.runs := by
  cases hc with
  | rests hp => exact .refl _
  | flags hr hp => exact .modifyRun k id (fun _ => rfl) (fun _ => rfl) (fun _ => rfl)
  | wakes hr hp => exact KeepsRuns.modifyRun k id (fun _ => rfl) (fun _ => rfl) (fun _ => rfl)
  | stops hr hg hd hs =>
    obtain ⟨loads, ts, rfl, -, -⟩ := hs
    exact KeepsRuns.wait hr (.group hg hd rfl)

theorem Cancels.keepsRuns {k k' : Keeper} (hc : Cancels k k') : KeepsRuns noRun k.runs k'.runs :=
  hc.induction (P := fun k' => KeepsRuns noRun k.runs k'.runs)
    (fun _ _ _ hk hcan => hk.trans hcan.keepsRuns) (.refl _)

theorem notify_keepsRuns (k : Keeper) (p : Path) (c : Change) :
    KeepsRuns noRun k.runs (k.notify p c).runs := by
  unfold notify
  split
  · exact .refl _
  · have h := (cancelTimer_cancels { k with pending := k.pending.set p c }).keepsRuns
    exact h.trans (.start _ .delayedRefresh)

theorem dispose_keepsRuns (k : Keeper) :
    KeepsRuns (fun i => decide (k.current = some i)) k.runs k.dispose.runs := by
  obtain ⟨k₁, k₂, provider, connected, changed, h₁, h₂, -, he⟩ := dispose_eq k
  rw [he]
  exact ((KeepsRuns.unwantedRuns k).trans h₁.keepsRuns).trans h₂.keepsRuns

theorem Reconfigures.keepsRuns {k k' : Keeper} (hc : Reconfigures k k') :
    KeepsRuns noRun k.runs k'.runs := by
  induction hc with
  | sets => exact .refl _
  | starts => exact .start _ .rebuild
  | trans _ _ ih ih' => exact ih.trans ih'

theorem TakesReport.keepsRuns {k k' : Keeper} {id : Nat} {l : Load} (ht : TakesReport k id l k') :
    KeepsRuns noRun k.runs k'.runs := by
  cases ht with
  | rests => exact .refl _
  | delivers hl hr hg hd ha => exact KeepsRuns.wait hr (.group hg hd (Group.loads_report _ _ _))

theorem TakesLoad.keepsRuns {k k' : Keeper} {id : Nat} {l : Load} (ht : TakesLoad k id l k') :
    KeepsRuns noRun k.runs k'.runs := by
  cases ht with
  | rests | waits | ends => exact .refl _

/-- The runs that are superseded by a move, other than by the turn of a run. -/
def outdated (k : Keeper) : Move → Nat → Bool
  | .dispose, i => decide (k.current = some i)
  | _, _ => false

/-- Everything but the turn of a run lets all runs wait where they are. -/
theorem next_keepsRuns (k : Keeper) {m : Move} (hm : ∀ i, m ≠ .turn (.run i)) :
    KeepsRuns (k.outdated m) k.runs (k.next m).runs := by
  have h := next_moves k m
  generalize k.next m = k' at h ⊢
  cases h with
  | @starts m job hm' =>
    cases m <;> cases hm' <;> exact .start k _
  | notify p c => exact notify_keepsRuns k p c
  | switchMode mode => exact (switchMode_reconfigures k mode).keepsRuns
  | changeSettings changes => exact (changeSettings_reconfigures k changes).keepsRuns
  | dispose => exact dispose_keepsRuns k
  | run => exact absurd rfl (hm _)
  | @works t runs loads ready es ht hes htake =>
    generalize { k with runs, loads, ready, events := k.events ++ es } = k' at htake ⊢
    cases htake with
    | run => exact absurd rfl (ht _)
    | load hl hload => exact hload.keepsRuns
    | report hl hreport => exact hreport.keepsRuns
    | alarm | idle => exact .refl _
  | @waits m hm' => cases m <;> first | exact .refl _ | cases hm'
  | listen | edit => exact .refl _

structure Goes (k : Keeper) (m : Move) (i : Nat) (r : Run) : Prop where
  move : m = .turn (.run i)
  ready : Turn.run i ∈ k.ready
  takes : TakesRun { k with ready := k.ready.erase (.run i) } i r (k.next m)

theorem next_eq_takeRun {k : Keeper} {i : Nat} {r : Run} (hr : k.runs[i]? = some r)
    (ht : Turn.run i ∈ k.ready) :
    k.next (.turn (.run i)) = { k with ready := k.ready.erase (.run i) }.takeRun i r := by
  have he : k.next (.turn (.run i)) = { k with ready := k.ready.erase (.run i) }.take (.run i) :=
    if_pos ht
  rw [he, take]
  simp only [hr]
  rfl

theorem goes_of_ready {k : Keeper} {i : Nat} {r : Run} (hr : k.runs[i]? = some r)
    (ht : Turn.run i ∈ k.ready) :
    Goes k (.turn (.run i)) i r := by
  refine ⟨rfl, ht, ?_⟩
  rw [next_eq_takeRun hr ht]
  exact takeRun_takesRun _ i r

/-- A run waits where it waited, or it takes its turn. -/
theorem next_run {k : Keeper} {i : Nat} {r : Run} (hr : k.runs[i]? = some r) (m : Move) :
    ∃ r', (k.next m).runs[i]? = some r' ∧ r'.job = r.job ∧
      (r.point.Stays r'.point ∨ Goes k m i r) := by
  by_cases hm : ∃ j, m = .turn (.run j)
  · obtain ⟨j, rfl⟩ := hm
    rcases next_turn k (.run j) with he | ⟨hready, htake⟩
    · rw [he]
      exact ⟨r, hr, rfl, .inl .same⟩
    · generalize hk' : k.next (.turn (.run j)) = k' at htake
      cases htake with
      | @run _ s _ hs hrun =>
        obtain ⟨p, superseded, hr', hp⟩ := hrun.frame.runs i r hr
        refine ⟨_, hr', rfl, ?_⟩
        by_cases hi : i = j
        · subst hi
          have hrs : k.runs[i]? = some s := hs
          rw [hr] at hrs
          cases hrs
          exact .inr ⟨rfl, hready, hk'.symm ▸ hrun⟩
        · rw [hp hi]
          exact .inl .same
      | idle => exact ⟨r, hr, rfl, .inl .same⟩
  · obtain ⟨r', hr', hj, -, hp⟩ := (next_keepsRuns k (m := m) fun i hi => hm ⟨i, hi⟩).kept i r hr
    exact ⟨r', hr', hj, .inl hp⟩

/-- A run that was not there before has not begun. -/
theorem next_fresh {k : Keeper} {i : Nat} (h : k.runs[i]? = none) {m : Move} {r' : Run}
    (hr' : (k.next m).runs[i]? = some r') : r'.point = .created := by
  by_cases hm : ∃ j, m = .turn (.run j)
  · obtain ⟨j, rfl⟩ := hm
    rcases next_turn k (.run j) with he | ⟨hready, htake⟩
    · rw [he, h] at hr'
      cases hr'
    · generalize k.next (.turn (.run j)) = k' at htake hr'
      cases htake with
      | run hs hrun =>
        have hlen : k'.runs.length = k.runs.length := hrun.frame.length
        rw [List.getElem?_eq_none_iff, ← hlen, ← List.getElem?_eq_none_iff, hr'] at h
        cases h
      | idle =>
        have hr₀ : k.runs[i]? = some r' := hr'
        rw [h] at hr₀
        cases hr₀
  · exact (next_keepsRuns k fun i hi => hm ⟨i, hi⟩).fresh i r' hr' h

/-! ## Points -/

theorem point?_of_run {k : Keeper} {i : Nat} {r : Run} (hr : k.runs[i]? = some r) :
    k.point? i = some r.point := by
  rw [point?, hr]
  rfl

theorem point?_wait_self {k : Keeper} {id : Nat} {r : Run} (hr : k.runs[id]? = some r) (p : Point) :
    (k.wait id p).point? id = some p := by
  rw [point?, runs_wait_self hr]
  rfl

theorem point?_wait_of_ne {k : Keeper} {id i : Nat} (hi : i ≠ id) (p : Point) :
    (k.wait id p).point? i = k.point? i := by
  rw [point?, runs_wait_of_ne hi]
  rfl

/-- A turn leaves the other runs where they are. -/
theorem Frame.point? {id : Nat} {k k' : Keeper} (hf : Frame id k.core k'.core) {i : Nat}
    (hi : i ≠ id) :
    k'.point? i = k.point? i := by
  cases hs : k.runs[i]? with
  | some s =>
    obtain ⟨p, superseded, hs', hp⟩ := hf.runs i s hs
    have hs'' : k'.runs[i]? = some { s with point := p, superseded } := hs'
    rw [Keeper.point?, Keeper.point?, hs, hs'']
    exact congrArg some (hp hi)
  | none =>
    have hlen : k'.runs.length = k.runs.length := hf.length
    rw [List.getElem?_eq_none_iff, ← hlen, ← List.getElem?_eq_none_iff] at hs
    rw [Keeper.point?, Keeper.point?, hs]
    rw [List.getElem?_eq_none_iff, hlen, ← List.getElem?_eq_none_iff] at hs
    rw [hs]

theorem point?_finish_self {k : Keeper} {id : Nat} {r : Run} (hr : k.runs[id]? = some r)
    (result : Except Stop Bool) :
    (k.finish id result).point? id = some (.finished result) :=
  point?_wait_self hr _

theorem point?_giveUp_self {k : Keeper} {id : Nat} {r : Run} (hr : k.runs[id]? = some r)
    (result : Except Stop Bool) :
    (k.giveUp id result).point? id = some (.finished result) := by
  obtain ⟨subscriptions, he⟩ := giveUp_eq k id result
  rw [he]
  exact point?_finish_self hr result

theorem point?_leave_self {k : Keeper} {id : Nat} {r : Run} (hr : k.runs[id]? = some r)
    (result : Except Stop Bool) :
    (k.leave id result).point? id = some (.finished result) := by
  rw [leave_eq]
  exact point?_finish_self hr result

/-- Where the turn of a run can lead: to a point that suits its job, and if there are loads to wait
for, none of them has reported yet. -/
inductive Leads (r : Run) : Point → Prop where
  | queued : Leads r .queued
  | sleeping (time : Nat) (hj : r.job = .delayedRefresh) : Leads r (.sleeping time)
  | drafts {p : Point} {d : Draft} (hd : p.draft? = some d) (hj : r.job.refreshes = true →
      r.point.draft?.isSome = true)
      (hg : ∀ g, p.group? = some g → g.awaited = g.loads ∧ g.stop = none) : Leads r p
  | applying {changes : PathMap Change} {g : Group} (hj : r.job.refreshes = true)
      (hg : g.awaited = g.loads ∧ g.stop = none) :
      Leads r (.applying changes g)
  | finished (result : Except Stop Bool) : Leads r (.finished result)

theorem Leads.awaited {r : Run} {p : Point} (h : Leads r p) {g : Group} (hg : p.group? = some g) :
    g.awaited = g.loads ∧ g.stop = none := by
  cases h with
  | queued | sleeping | finished => cases hg
  | drafts hd hj hgr => exact hgr g hg
  | applying hj hgr =>
    cases hg
    exact hgr

theorem Builds.leads {k k' : Keeper} {id : Nat} {d : Draft} {goal : Except Fault Catalog}
    (hb : Builds k id d goal k') {s : Run} (hs : k.runs[id]? = some s) {r : Run}
    (hj : r.job.refreshes = true → r.point.draft?.isSome = true) :
    ∃ p, k'.point? id = some p ∧ Leads r p := by
  cases hb with
  | searches hset hd hg => exact ⟨_, point?_wait_self hs _, .drafts rfl hj fun g hg => by cases hg⟩
  | @loads d' files rest hset hd hg =>
    have hs' : (k.startLoads id (files.map fun p => (p, d'.cls, false))).1.runs[id]? = some s := hs
    refine ⟨_, point?_wait_self hs' _, .drafts rfl hj ?_⟩
    intro g hg
    cases hg
    exact ⟨rfl, rfl⟩
  | abandons hw => exact ⟨_, point?_giveUp_self hs _, .finished _⟩
  | fails hf => exact ⟨_, point?_giveUp_self hs _, .finished _⟩
  | @publishes c hw hg hre =>
    obtain ⟨told, subscriptions, he⟩ := publish_eq k id c
    rw [he]
    exact ⟨_, point?_finish_self (k := { k with .. }) hs _, .finished _⟩

theorem Enters.leads {k k' : Keeper} {id : Nat} {r : Run} (he : Enters k id r.job k') {s : Run}
    (hs : k.runs[id]? = some s) : ∃ p, k'.point? id = some p ∧ Leads r p := by
  cases he with
  | builds hj hb =>
    refine hb.leads hs fun hj' => ?_
    rw [hj] at hj'
    cases hj'
  | idles hj hp =>
    exact ⟨_, point?_leave_self (k := { k with pending := .empty }) hs _, .finished _⟩
  | takesOver hj hp hd =>
    have hs' : ({ k with pending := .empty }.startLoads id (changedFiles k.pending)).1.runs[id]? =
        some s := hs
    exact ⟨_, point?_wait_self hs' _, .applying hj ⟨rfl, rfl⟩⟩

theorem TakesRun.leads {k k' : Keeper} {id : Nat} {r : Run} (ht : TakesRun k id r k')
    (hr : k.runs[id]? = some r) :
    ∃ p, k'.point? id = some p ∧ Leads r p := by
  have hbuilding : ∀ {d : Draft}, r.point.draft? = some d → r.job.refreshes = true →
      r.point.draft?.isSome = true := by
    intro d hd _
    rw [hd]
    rfl
  cases ht with
  | rests hp => exact ⟨_, point?_of_run hr, hp ▸ .finished _⟩
  | stops hp hc => exact ⟨_, point?_wait_self hr _, .finished _⟩
  | sleeps hp hj hc => exact ⟨_, point?_wait_self (k := { k with ready := _ }) hr _, .sleeping _ hj⟩
  | @queues k₀ hc ha hl =>
    obtain ⟨superseded, hr₀⟩ := ha.run hr
    exact ⟨_, point?_wait_self (k := { k₀ with queue := _ }) hr₀ _, .queued⟩
  | enters hc ha hl hq he =>
    obtain ⟨superseded, hr₀⟩ := ha.run hr
    exact he.leads hr₀
  | quits hp hc =>
    exact ⟨_, point?_wait_self (k := { k with queue := _, ready := _ }) hr _, .finished _⟩
  | admitted hp hc he => exact he.leads hr
  | resumes hp hc hb => exact hb.leads hr (hbuilding (by rw [hp]; rfl))
  | yields hp hc hg hs =>
    exact ⟨_, point?_wait_self (k := { k with ready := _ }) hr _,
      .drafts rfl (hbuilding (by rw [hp]; rfl)) fun g hg => by cases hg⟩
  | continues hp hc hb => exact hb.leads hr (hbuilding (by rw [hp]; rfl))
  | givesUp hp hg => exact ⟨_, point?_giveUp_self hr _, .finished _⟩
  | leaves hp hl => exact ⟨_, point?_leave_self hr _, .finished _⟩
  | @breaks changes g c fault hp hc hg hd hre =>
    exact ⟨_, point?_leave_self (k := { k with catalog := c }) hr _, .finished _⟩
  | applies hp hc hg hd hre => exact ⟨_, point?_wait_self (k := { k with .. }) hr _, .finished _⟩

theorem Leads.ne_created {r : Run} {p : Point} (h : Leads r p) : p ≠ .created := by
  rintro rfl
  cases h with
  | drafts hd => cases hd

/-- The turn of a run that has ended comes to nothing. -/
theorem TakesRun.eq_of_finished {k k' : Keeper} {id : Nat} {r : Run} (ht : TakesRun k id r k')
    {result : Except Stop Bool} (hp : r.point = .finished result) : k' = k := by
  cases ht with
  | rests _ => rfl
  | stops hp' hc => rw [hp] at hp'; rcases hp' with hp' | ⟨time, hp'⟩ <;> cases hp'
  | queues hc ha hl | enters hc ha hl hq he =>
    cases ha with
    | rebuild hp' hj | startUp hp' hj | refresh hp' hj => rw [hp] at hp'; cases hp'
    | wakes hp' => rw [hp] at hp'; cases hp'
  | givesUp hp' hg => rw [hp] at hp'; cases hp'
  | sleeps hp' | quits hp' | admitted hp' | resumes hp' | yields hp' | continues hp' | leaves hp'
      | breaks hp'
  | applies hp' => rw [hp] at hp'; cases hp'

/-- A run that has ended takes no part any more. -/
theorem next_finished {k : Keeper} {i : Nat} {result : Except Stop Bool}
    (h : k.point? i = some (.finished result)) (m : Move) :
    (k.next m).point? i = some (.finished result) := by
  obtain ⟨r, hr, hp⟩ := Option.map_eq_some_iff.mp h
  obtain ⟨r', hr', -, hstays | hgoes⟩ := next_run hr m
  · rw [point?_of_run hr', hstays.of_group?_eq_none (by rw [hp]; rfl), hp]
  · rw [hgoes.takes.eq_of_finished hp]
    exact h

/-! ## Jobs -/

/-- A run waits only where its job leads. -/
structure RunSuited (r : Run) : Prop where
  draft : ∀ d, r.point.draft? = some d → r.job.refreshes = false
  applying : ∀ changes g, r.point = .applying changes g → r.job.refreshes = true

/-- Every run waits only where its job leads. -/
def Suited (k : Keeper) : Prop := ∀ (i : Nat) (r : Run), k.runs[i]? = some r → RunSuited r

theorem RunSuited.of_created {r : Run} (h : r.point = .created) : RunSuited r := by
  constructor
  · intro d hd
    rw [h] at hd
    cases hd
  · intro changes g hp
    rw [h] at hp
    cases hp

theorem RunSuited.stays {r r' : Run} (h : RunSuited r) (hj : r'.job = r.job)
    (hp : r.point.Stays r'.point) :
    RunSuited r' where
  draft := by
    intro d hd
    rw [hp.draft?] at hd
    rw [hj]
    exact h.draft d hd
  applying := by
    intro changes g he
    rw [hj]
    obtain ⟨g', hq⟩ := hp.applying he
    exact h.applying changes g' hq

theorem RunSuited.leads {r r' : Run} (h : RunSuited r) (hj : r'.job = r.job)
    (hp : Leads r r'.point) :
    RunSuited r' where
  draft := by
    intro d hd
    rw [hj]
    generalize r'.point = q at hp hd
    cases hp with
    | queued | sleeping | applying | finished => cases hd
    | drafts hd' hjob hg =>
      by_contra hrefreshes
      obtain ⟨d₀, hd₀⟩ := Option.isSome_iff_exists.mp (hjob (by simpa using hrefreshes))
      exact hrefreshes (h.draft d₀ hd₀)
  applying := by
    intro changes g he
    rw [hj]
    generalize r'.point = q at hp he
    cases hp with
    | queued | sleeping | finished => cases he
    | applying hjob hg => exact hjob
    | drafts hd' hjob hg =>
      rw [he] at hd'
      cases hd'

theorem next_suited {k : Keeper} (h : k.Suited) (m : Move) : (k.next m).Suited := by
  intro i r' hr'
  cases hr : k.runs[i]? with
  | none => exact .of_created (next_fresh hr hr')
  | some r =>
    obtain ⟨s, hs, hj, hp⟩ := next_run hr m
    rw [hr'] at hs
    cases hs
    rcases hp with hstays | hgoes
    · exact (h i r hr).stays hj hstays
    · obtain ⟨p, hp, hleads⟩ := hgoes.takes.leads hr
      rw [point?_of_run hr'] at hp
      cases hp
      exact (h i r hr).leads hj hleads

theorem new_suited (w : Workspace) (provider : Provider Unit) (groupSize : Nat) (limit : Int)
    (delay : Nat) (watchable : Bool) : (new w provider groupSize limit delay watchable).Suited := by
  intro i r hr
  cases hr

end Keeper
end StepAtlas
