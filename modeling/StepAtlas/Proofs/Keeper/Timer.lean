import StepAtlas.Proofs.Keeper.Moves
import StepAtlas.Proofs.Keeper.Turns

/-
The timer of a keeper that goes on: what is told to stop when no one ends the keeper.

Every change of a file starts a run that sleeps first and stops the one started before it.  As long
as the keeper is not ended, nothing else is told to stop, and a run is told so only while it sleeps.
Hence a run that has come as far as the queue is never stopped, nor is any load, and the one
sleeping run that is not stopped is the timer.
-/

namespace StepAtlas

def Point.isEarly : Point → Bool
  | .created | .sleeping _ => true
  | _ => false

def Run.isTimer (r : Run) : Bool :=
  decide (r.job = .delayedRefresh) && !r.canceled && r.point.isEarly

theorem Run.isTimer_iff {r : Run} :
    r.isTimer = true ↔ r.job = .delayedRefresh ∧ r.canceled = false ∧ r.point.isEarly = true := by
  simp [isTimer, and_assoc]

def Run.stopTimer (r : Run) : Run := if r.isTimer then { r with canceled := true } else r

theorem Run.isTimer_stopTimer (r : Run) : r.stopTimer.isTimer = false := by
  unfold stopTimer
  split
  · simp [isTimer]
  · rename_i h
    simpa using h

theorem Run.isTimer_of_job {r : Run} (h : r.job ≠ .delayedRefresh) : r.isTimer = false := by
  simp [Run.isTimer, h]

theorem Run.isTimer_of_isEarly {r : Run} (h : r.point.isEarly = false) : r.isTimer = false := by
  simp [Run.isTimer, h]

theorem Point.isEarly_of_holds {p : Point} (h : p.group?.isSome ∨ p.draft?.isSome) :
    p.isEarly = false := by
  cases p with
  | created | sleeping => simp [group?, draft?] at h
  | _ => rfl

/-- Loads that nobody has told to stop. -/
def Group.Undisturbed (g : Group) : Prop := g.stopping = false ∧ g.stop ≠ some .canceled

/-- A load that nobody has told to stop. -/
def Load.Undisturbed (l : Load) : Prop :=
  l.canceled = false ∧ l.point ≠ .finished (.error .canceled)

/-- A run that is told to stop at most while it sleeps, and whose loads are not. -/
structure Run.Undisturbed (r : Run) : Prop where
  sleeping : ∀ time, r.point = .sleeping time → r.job = .delayedRefresh
  canceled : r.canceled = true → r.point.isEarly = true ∨ ∃ result, r.point = .finished result
  group : ∀ g, r.point.group? = some g → g.Undisturbed

theorem Run.Undisturbed.stopTimer {r : Run} (h : r.Undisturbed) : r.stopTimer.Undisturbed := by
  unfold Run.stopTimer
  split
  · rename_i ht
    exact ⟨h.sleeping, fun _ => .inl (isTimer_iff.mp ht).2.2, h.group⟩
  · exact h

theorem Group.report_undisturbed {g : Group} (hg : g.Undisturbed) (load : Nat)
    {result : Except Stop Loaded} (hr : result ≠ .error .canceled) :
    (g.report load result).Undisturbed := by
  cases result with
  | error stop =>
    refine ⟨hg.1, ?_⟩
    intro he
    cases he
    exact hr rfl
  | ok x =>
    refine ⟨hg.1, ?_⟩
    simp [Group.report, hg.1]

namespace Keeper

structure UndisturbedParts (disposed : Bool) (timer : Option Nat) (loads : List Load)
    (runs : List Run) : Prop where
  disposed : disposed = false
  sleeper : ∀ i : Nat, timer = some i → ∃ r, runs[i]? = some r ∧ r.isTimer = true
  unique : ∀ (i : Nat) (r : Run), runs[i]? = some r → r.isTimer = true → timer = some i
  loaded : ∀ l ∈ loads, l.Undisturbed
  run : ∀ (i : Nat) (r : Run), runs[i]? = some r → r.Undisturbed

def Undisturbed (k : Keeper) : Prop := UndisturbedParts k.disposed k.timer k.loads k.runs

/-! ## Turns -/

/-- A run goes on to a point beyond sleep.  It may have been the timer, if there is none any
more. -/
structure Awake (k : Keeper) (id : Nat) (r : Run) : Prop where
  run : k.runs[id]? = some r
  disposed : k.disposed = false
  sleeper : ∀ i : Nat, k.timer = some i → i ≠ id ∧ ∃ s, k.runs[i]? = some s ∧ s.isTimer = true
  unique : ∀ (i : Nat) (s : Run), i ≠ id → k.runs[i]? = some s → s.isTimer = true → k.timer = some i
  loaded : ∀ l ∈ k.loads, l.Undisturbed
  others : ∀ (i : Nat) (s : Run), i ≠ id → k.runs[i]? = some s → s.Undisturbed

/-- A run of another kind is not the timer. -/
theorem Undisturbed.awake {k : Keeper} (h : k.Undisturbed) {id : Nat} {r : Run}
    (hr : k.runs[id]? = some r) (hn : r.isTimer = false) : Awake k id r where
  run := hr
  disposed := h.disposed
  sleeper := by
    intro i hi
    obtain ⟨s, hs, htimer⟩ := h.sleeper i hi
    refine ⟨?_, s, hs, htimer⟩
    rintro rfl
    rw [hr] at hs
    cases hs
    rw [hn] at htimer
    cases htimer
  unique := fun i s _ => h.unique i s
  loaded := h.loaded
  others := fun i s _ => h.run i s

namespace Awake
variable {k k' : Keeper} {id : Nat} {r : Run}

theorem wait (h : Awake k id r) {p : Point} (hp : p.isEarly = false)
    (hc : r.canceled = true → ∃ result, p = .finished result)
    (hg : ∀ g, p.group? = some g → g.Undisturbed) :
    (k.wait id p).Undisturbed where
  disposed := h.disposed
  sleeper := by
    intro i hi
    obtain ⟨hne, s, hs, htimer⟩ := h.sleeper i hi
    exact ⟨s, (runs_wait_of_ne hne p).trans hs, htimer⟩
  unique := by
    intro i s hi hs
    rcases of_runs_wait hi with ⟨rfl, s₀, -, rfl⟩ | ⟨hne, hi⟩
    · rw [Run.isTimer_iff] at hs
      rw [hp] at hs
      cases hs.2.2
    · exact h.unique i s hne hi hs
  loaded := h.loaded
  run := by
    intro i s hi
    rcases of_runs_wait hi with ⟨rfl, s₀, hs₀, rfl⟩ | ⟨hne, hi⟩
    · rw [h.run] at hs₀
      cases hs₀
      refine ⟨?_, fun hcan => .inr (hc hcan), hg⟩
      intro time he
      rw [show p = .sleeping time from he] at hp
      cases hp
    · exact h.others i s hne hi

theorem finish (h : Awake k id r) (result : Except Stop Bool) : (k.finish id result).Undisturbed :=
  h.wait rfl (fun _ => ⟨result, rfl⟩) (fun g hg => by cases hg)

theorem giveUp (h : Awake k id r) (result : Except Stop Bool) :
    (k.giveUp id result).Undisturbed := by
  obtain ⟨subscriptions, he⟩ := giveUp_eq k id result
  rw [he]
  exact h.finish result

theorem leave (h : Awake k id r) (result : Except Stop Bool) : (k.leave id result).Undisturbed := by
  rw [leave_eq]
  exact h.finish result

theorem publish (h : Awake k id r) (c : Catalog) : (k.publish id c).Undisturbed := by
  obtain ⟨told, subscriptions, he⟩ := publish_eq k id c
  rw [he]
  exact h.finish _

theorem startLoads (h : Awake k id r) (files : List (Path × FileClass × Bool)) :
    Awake (k.startLoads id files).1 id r := by
  refine ⟨h.run, h.disposed, h.sleeper, h.unique, ?_, h.others⟩
  intro l hl
  rcases List.mem_append.mp hl with hl | hl
  · exact h.loaded l hl
  · obtain ⟨file, -, rfl⟩ := List.mem_map.mp hl
    exact ⟨rfl, by simp⟩

/-- Loads that are started now have not been told to stop. -/
theorem waitFor (h : Awake k id r) (hc : r.canceled = false) {p : Point} {g : Group}
    (hp : p.group? = some g) (hg : g.Undisturbed) : (k.wait id p).Undisturbed := by
  refine h.wait (Point.isEarly_of_holds (.inl (by rw [hp]; rfl)))
    (fun hcan => by rw [hc] at hcan; cases hcan) ?_
  intro g' hg'
  rw [hp] at hg'
  cases hg'
  exact hg

theorem builds {d : Draft} {goal : Except Fault Catalog} (h : Awake k id r)
    (hc : r.canceled = false) (hb : Builds k id d goal k') : k'.Undisturbed := by
  cases hb with
  | searches hs hd hg =>
    exact h.wait rfl (fun hcan => by rw [hc] at hcan; cases hcan) (fun g hg => by cases hg)
  | loads hs hd hg => exact (h.startLoads _).waitFor hc rfl ⟨rfl, by simp [Keeper.startLoads]⟩
  | abandons hw => exact h.giveUp _
  | fails hf => exact h.giveUp _
  | publishes hw hg hr => exact h.publish _

theorem enters {job : Job} (he : Enters k id job k') (h : Awake k id r) (hc : r.canceled = false) :
    k'.Undisturbed := by
  cases he with
  | builds hj hb => exact h.builds hc hb
  | idles hj hp =>
    rw [leave_eq]
    exact h.finish (.ok false)
  | takesOver hj hp hd =>
    have h' : Awake { k with pending := .empty } id r :=
      ⟨h.run, h.disposed, h.sleeper, h.unique, h.loaded, h.others⟩
    exact (h'.startLoads (changedFiles k.pending)).waitFor hc rfl ⟨rfl, by simp [Keeper.startLoads]⟩

end Awake

/-- A run that asks for the lock is not the timer, or there is no timer any more. -/
theorem Arrives.timer {k k' : Keeper} {id : Nat} {r : Run} (ha : Arrives k id r k')
    (h : k.Undisturbed) (hr : k.runs[id]? = some r) (hc : r.canceled = false) :
    (k'.timer = k.timer ∧ r.isTimer = false) ∨ (k'.timer = none ∧ k.timer = some id) := by
  cases ha with
  | rebuild hp hj => exact .inl ⟨by rw [supersede_eq], Run.isTimer_of_job (by rw [hj]; simp)⟩
  | startUp hp hj => exact .inl ⟨by rw [supersede_eq]; rfl, Run.isTimer_of_job (by rw [hj]; simp)⟩
  | refresh hp hj => exact .inl ⟨rfl, Run.isTimer_of_job (by rw [hj]; simp)⟩
  | wakes hp =>
    have hj : r.job = .delayedRefresh := (h.run id r hr).sleeping _ hp
    exact .inr ⟨rfl, h.unique id r hr (Run.isTimer_iff.mpr ⟨hj, hc, by rw [hp]; rfl⟩)⟩

theorem Arrives.awake {k k' : Keeper} {id : Nat} {r : Run} (ha : Arrives k id r k')
    (h : k.Undisturbed) (hr : k.runs[id]? = some r) (hc : r.canceled = false) :
    ∃ superseded, Awake k' id { r with superseded } := by
  obtain ⟨superseded, hr'⟩ := ha.run hr
  have htimer := ha.timer h hr hc
  refine ⟨superseded, hr', ha.disposed.trans h.disposed, ?_, ?_, ?_, ?_⟩
  · intro i hi
    rcases htimer with ⟨ht, hn⟩ | ⟨ht, -⟩
    · rw [ht] at hi
      obtain ⟨hne, s, hs, hst⟩ := (h.awake hr hn).sleeper i hi
      obtain ⟨superseded', hs'⟩ := ha.run hs
      exact ⟨hne, _, hs', hst⟩
    · rw [ht] at hi
      cases hi
  · intro i s' hne hs' hst
    obtain ⟨s, superseded', hs, rfl⟩ := ha.of_run hs'
    have hi := h.unique i s hs hst
    rcases htimer with ⟨ht, -⟩ | ⟨-, ht⟩
    · exact ht.trans hi
    · rw [hi] at ht
      exact absurd (Option.some.inj ht) hne
  · rw [ha.loads]
    exact h.loaded
  · intro i s' _ hs'
    obtain ⟨s, superseded', hs, rfl⟩ := ha.of_run hs'
    exact ⟨(h.run i s hs).sleeping, (h.run i s hs).canceled, (h.run i s hs).group⟩

/-- A run that holds the lock or waits for it was not told to stop. -/
theorem Undisturbed.not_canceled {k : Keeper} (h : k.Undisturbed) {id : Nat} {r : Run}
    (hr : k.runs[id]? = some r) (he : r.point.isEarly = false)
    (hf : ∀ result, r.point ≠ .finished result) : r.canceled = false := by
  cases hc : r.canceled with
  | false => rfl
  | true =>
    rcases (h.run id r hr).canceled hc with he' | ⟨result, hp⟩
    · rw [he] at he'
      cases he'
    · exact absurd hp (hf result)

theorem Undisturbed.sleep {k : Keeper} (h : k.Undisturbed) {id : Nat} {r : Run}
    (hr : k.runs[id]? = some r) (hp : r.point = .created) (hj : r.job = .delayedRefresh)
    (hc : r.canceled = false) (time : Nat) :
    (k.wait id (.sleeping time)).Undisturbed where
  disposed := h.disposed
  sleeper := by
    intro i hi
    obtain ⟨s, hs, htimer⟩ := h.sleeper i hi
    by_cases hid : i = id
    · subst hid
      exact ⟨_, runs_wait_self hr _, Run.isTimer_iff.mpr ⟨hj, hc, rfl⟩⟩
    · exact ⟨s, (runs_wait_of_ne hid _).trans hs, htimer⟩
  unique := by
    intro i s hi hs
    rcases of_runs_wait hi with ⟨rfl, s₀, -, rfl⟩ | ⟨-, hi⟩
    · exact h.unique i r hr (Run.isTimer_iff.mpr ⟨hj, hc, by rw [hp]; rfl⟩)
    · exact h.unique i s hi hs
  loaded := h.loaded
  run := by
    intro i s hi
    rcases of_runs_wait hi with ⟨rfl, s₀, hs₀, rfl⟩ | ⟨-, hi⟩
    · rw [hr] at hs₀
      cases hs₀
      exact ⟨fun _ _ => hj, fun _ => .inl rfl, fun g hg => by cases hg⟩
    · exact h.run i s hi

theorem TakesRun.undisturbed {k k' : Keeper} {id : Nat} {r : Run} (ht : TakesRun k id r k')
    (h : k.Undisturbed) (hr : k.runs[id]? = some r) : k'.Undisturbed := by
  have hlate : r.point.isEarly = false → Awake k id r :=
    fun he => h.awake hr (Run.isTimer_of_isEarly he)
  cases ht with
  | rests hp => exact h
  | stops hp hc => exact (h.awake hr (by simp [Run.isTimer, hc])).finish _
  | sleeps hp hj hc => exact h.sleep hr hp hj hc _
  | queues hc ha hl =>
    obtain ⟨superseded, hw⟩ := ha.awake h hr hc
    exact hw.wait rfl (fun hcan => by rw [show _ = r.canceled from rfl, hc] at hcan; cases hcan)
      (fun g hg => by cases hg)
  | enters hc ha hl hq he =>
    obtain ⟨superseded, hw⟩ := ha.awake h hr hc
    exact Awake.enters he ⟨hw.run, hw.disposed, hw.sleeper, hw.unique, hw.loaded, hw.others⟩ hc
  | quits hp hc =>
    have hw := hlate (by rw [hp]; rfl)
    exact hw.finish _
  | admitted hp hc he =>
    have hw := hlate (by rw [hp]; rfl)
    exact Awake.enters he ⟨hw.run, hw.disposed, hw.sleeper, hw.unique, hw.loaded, hw.others⟩ hc
  | resumes hp hc hb => exact (hlate (by rw [hp]; rfl)).builds hc hb
  | yields hp hc hg hs =>
    exact (hlate (by rw [hp]; rfl)).wait rfl (fun hcan => by rw [hc] at hcan; cases hcan)
      (fun g hg => by cases hg)
  | continues hp hc hb => exact (hlate (by rw [hp]; rfl)).builds hc hb
  | givesUp hp hg => exact (hlate (Point.isEarly_of_holds (.inr (by rw [hp]; rfl)))).giveUp _
  | leaves hp hl => exact (hlate (by rw [hp]; rfl)).leave _
  | breaks hp hc hg hd hre =>
    rw [leave_eq]
    exact (hlate (by rw [hp]; rfl)).finish _
  | applies hp hc hg hd hre => exact (hlate (by rw [hp]; rfl)).finish _

theorem EndsLoad.ne_canceled {k : Keeper} {l : Load} {es : List Event} {result : Except Stop Loaded}
    (he : EndsLoad k l es result) (hl : l.canceled = false) : result ≠ .error .canceled := by
  cases he with
  | canceled hc => rw [hl] at hc; cases hc
  | gone hg => simp
  | reads hg => cases k.workspace.load k.sizeLimit l.cls l.path <;> simp [Except.mapError]

theorem Undisturbed.modifyLoad {k : Keeper} (h : k.Undisturbed) (id : Nat) {f : Load → Load}
    (hf : ∀ l, k.loads[id]? = some l → (f l).Undisturbed) : (k.modifyLoad id f).Undisturbed := by
  refine ⟨h.disposed, h.sleeper, h.unique, ?_, h.run⟩
  intro l hl
  rcases mem_modify hl with hl | ⟨l', hl', rfl⟩
  · exact h.loaded l hl
  · exact hf l' hl'

theorem TakesLoad.undisturbed {k k' : Keeper} {id : Nat} {l : Load} (ht : TakesLoad k id l k')
    (hl : k.loads[id]? = some l) (h : k.Undisturbed) : k'.Undisturbed := by
  have hu := h.loaded l (List.mem_of_getElem? hl)
  cases ht with
  | rests hp => exact h
  | waits hp hg =>
    refine h.modifyLoad id fun l' hl' => ?_
    exact ⟨(h.loaded l' (List.mem_of_getElem? hl')).1, by simp⟩
  | ends hp he =>
    refine Undisturbed.modifyLoad (k := { k with .. }) h id fun l' hl' => ?_
    refine ⟨(h.loaded l' (List.mem_of_getElem? hl')).1, ?_⟩
    intro hfin
    exact he.ne_canceled hu.1 (LoadPoint.finished.inj hfin)

theorem TakesReport.undisturbed {k k' : Keeper} {id : Nat} {l : Load} (ht : TakesReport k id l k')
    (hl : k.loads[id]? = some l) (h : k.Undisturbed) : k'.Undisturbed := by
  cases ht with
  | rests => exact h
  | @delivers r g result hlp hr hg hd ha =>
    have hlate : r.point.isEarly = false := Point.isEarly_of_holds (.inl (by rw [hg]; rfl))
    have hc : r.canceled = false := h.not_canceled hr hlate fun result hp => by
      rw [hp] at hg; cases hg
    have hres : result ≠ .error .canceled := by
      intro he
      exact (h.loaded l (List.mem_of_getElem? hl)).2 (he ▸ hlp)
    exact (h.awake hr (Run.isTimer_of_isEarly hlate)).waitFor hc (Point.group?_withGroup hg _)
      (Group.report_undisturbed ((h.run _ r hr).group g hg) id hres)

theorem Takes.undisturbed {k k' : Keeper} {t : Turn} (ht : Takes k t k') (h : k.Undisturbed) :
    k'.Undisturbed := by
  cases ht with
  | run hr hrun => exact hrun.undisturbed h hr
  | load hl hload => exact hload.undisturbed hl h
  | report hl hreport => exact hreport.undisturbed hl h
  | alarm hr hp => exact h
  | idle => exact h

/-! ## Calls -/

theorem Undisturbed.start {k : Keeper} (h : k.Undisturbed) {job : Job}
    (hj : job ≠ .delayedRefresh) :
    (k.start job).1.Undisturbed where
  disposed := h.disposed
  sleeper := by
    intro i hi
    obtain ⟨s, hs, htimer⟩ := h.sleeper i hi
    exact ⟨s, runs_start_of_some hs job, htimer⟩
  unique := by
    intro i s hi hs
    rcases of_runs_start hi with ⟨-, rfl⟩ | hi
    · rw [Run.isTimer_of_job hj] at hs
      cases hs
    · exact h.unique i s hi hs
  loaded := h.loaded
  run := by
    intro i s hi
    rcases of_runs_start hi with ⟨-, rfl⟩ | hi
    · exact ⟨fun _ hp => (by cases hp), fun _ => .inl rfl, fun g hg => (by cases hg)⟩
    · exact h.run i s hi

/-- Without a timer no run sleeps or will. -/
theorem Undisturbed.map_stopTimer_of_none {k : Keeper} (h : k.Undisturbed) (ht : k.timer = none) :
    k.runs.map Run.stopTimer = k.runs := by
  have hno : ∀ s ∈ k.runs, s.stopTimer = s := by
    intro s hs
    obtain ⟨i, hi⟩ := List.mem_iff_getElem?.mp hs
    refine if_neg fun hst => ?_
    have hi' := h.unique i s hi hst
    rw [ht] at hi'
    cases hi'
  exact (List.map_congr_left hno).trans (List.map_id' _)

theorem Undisturbed.map_stopTimer_of_some {k : Keeper} (h : k.Undisturbed) {id : Nat}
    (ht : k.timer = some id) :
    k.runs.map Run.stopTimer = k.runs.modify id fun r => { r with canceled := true } := by
  obtain ⟨r, hr, htimer⟩ := h.sleeper id ht
  apply List.ext_getElem?
  intro i
  rw [List.getElem?_map, List.getElem?_modify]
  cases hs : k.runs[i]? with
  | none => rfl
  | some s =>
    by_cases hid : id = i
    · subst hid
      rw [hr] at hs
      cases hs
      simp [Run.stopTimer, htimer]
    · have hn : s.isTimer = false := by
        by_contra hn
        have hi := h.unique i s hs (by simpa using hn)
        rw [ht] at hi
        exact hid (Option.some.inj hi)
      simp [Run.stopTimer, hn, hid]

/-- A run that sleeps or will is flagged and may be woken, and that is all. -/
theorem cancelRun_of_isTimer {k : Keeper} {id : Nat} {r : Run} (hr : k.runs[id]? = some r)
    (htimer : r.isTimer = true) :
    ∃ ready, k.cancelRun id =
      { k with runs := k.runs.modify id fun r => { r with canceled := true }, ready } := by
  have hcan := cancelRun_cancelsRun k id
  revert hcan
  generalize k.cancelRun id = k'
  intro hcan
  have hearly := (Run.isTimer_iff.mp htimer).2.2
  cases hcan with
  | rests hf =>
    obtain ⟨result, hp⟩ := hf r hr
    rw [hp] at hearly
    cases hearly
  | flags hr' hp => exact ⟨k.ready, rfl⟩
  | wakes hr' hp => exact ⟨_, rfl⟩
  | stops hr' hg hd hs =>
    rw [hr] at hr'
    cases hr'
    rw [Point.isEarly_of_holds (.inl (by rw [hg]; rfl))] at hearly
    cases hearly

/-- To tell the timer to stop is to flag the one run that sleeps or will. -/
theorem Undisturbed.cancelTimer_eq {k : Keeper} (h : k.Undisturbed) :
    ∃ ready, (k.timer.map k.cancelRun).getD k =
      { k with runs := k.runs.map Run.stopTimer, ready } := by
  obtain ht | ⟨id, ht⟩ := Option.eq_none_or_eq_some k.timer
  · have hk : (k.timer.map k.cancelRun).getD k = k := by rw [ht]; rfl
    rw [hk, h.map_stopTimer_of_none ht]
    exact ⟨k.ready, rfl⟩
  · have hk : (k.timer.map k.cancelRun).getD k = k.cancelRun id := by rw [ht]; rfl
    obtain ⟨r, hr, htimer⟩ := h.sleeper id ht
    rw [hk, h.map_stopTimer_of_some ht]
    exact cancelRun_of_isTimer hr htimer

/-- A change of a file is pending from now on, the timer is stopped, and another one is started. -/
theorem Undisturbed.notify_eq {k : Keeper} (h : k.Undisturbed) (p : Path) (c : Change) :
    ∃ ready, k.notify p c = { k with
      pending := k.pending.set p c, timer := some k.runs.length
      runs := k.runs.map Run.stopTimer ++ [newRun .delayedRefresh], ready } := by
  have h' : { k with pending := k.pending.set p c }.Undisturbed := h
  obtain ⟨ready, he⟩ := h'.cancelTimer_eq
  unfold notify
  rw [if_neg (by rw [h.disposed]; simp)]
  refine ⟨ready ++ [.run k.runs.length], ?_⟩
  simp only [he, start_eq, List.length_map]

theorem Undisturbed.notify {k : Keeper} (h : k.Undisturbed) (p : Path) (c : Change) :
    (k.notify p c).Undisturbed := by
  obtain ⟨ready, he⟩ := h.notify_eq p c
  have hlen : (k.runs.map Run.stopTimer).length = k.runs.length := List.length_map _
  rw [he]
  have hget : ∀ (i : Nat) (s : Run),
      (k.runs.map Run.stopTimer ++ [newRun .delayedRefresh])[i]? = some s →
      (i = k.runs.length ∧ s = newRun .delayedRefresh) ∨
        ∃ s₀, k.runs[i]? = some s₀ ∧ s = s₀.stopTimer := by
    intro i s hi
    rcases of_runs_start (k := { k with runs := k.runs.map Run.stopTimer }) hi with ⟨hlast, rfl⟩
      | hold
    · exact .inl ⟨hlast.trans hlen, rfl⟩
    · rw [List.getElem?_map] at hold
      obtain ⟨s₀, hs₀, rfl⟩ := Option.map_eq_some_iff.mp hold
      exact .inr ⟨s₀, hs₀, rfl⟩
  refine ⟨h.disposed, ?_, ?_, h.loaded, ?_⟩
  · intro i hi
    cases hi
    refine ⟨newRun .delayedRefresh, ?_, rfl⟩
    show (k.runs.map Run.stopTimer ++ [newRun .delayedRefresh])[k.runs.length]? = _
    rw [← hlen]
    exact List.getElem?_concat_length
  · intro i s hi hs
    rcases hget i s hi with ⟨rfl, -⟩ | ⟨s₀, -, rfl⟩
    · rfl
    · rw [Run.isTimer_stopTimer] at hs
      cases hs
  · intro i s hi
    rcases hget i s hi with ⟨-, rfl⟩ | ⟨s₀, hs₀, rfl⟩
    · exact ⟨fun _ hp => (by cases hp), fun _ => .inl rfl, fun g hg => (by cases hg)⟩
    · exact (h.run i s₀ hs₀).stopTimer

theorem Reconfigures.undisturbed {k k' : Keeper} (hc : Reconfigures k k') (h : k.Undisturbed) :
    k'.Undisturbed := by
  induction hc with
  | sets => exact h
  | starts => exact Undisturbed.start h (by simp)
  | trans _ _ ih ih' => exact ih' (ih h)

/-! ## Courses -/

/-- Nothing is told to stop but the timer, whatever happens, until the keeper ends. -/
theorem next_undisturbed {k : Keeper} (h : k.Undisturbed) {m : Move} (hm : m ≠ .dispose) :
    (k.next m).Undisturbed := by
  have h' := next_moves k m
  generalize k.next m = k' at h' ⊢
  cases h' with
  | @starts m job hj =>
    cases m <;> cases hj <;> exact h.start (by simp)
  | notify p c => exact h.notify p c
  | switchMode mode => exact (switchMode_reconfigures k mode).undisturbed h
  | changeSettings changes => exact (changeSettings_reconfigures k changes).undisturbed h
  | dispose => exact absurd rfl hm
  | run hready hr hrun => exact (hrun.takes hr).undisturbed h
  | works _ _ htake => exact htake.undisturbed h
  | listen | edit | waits => exact h

theorem new_undisturbed (w : Workspace) (provider : Provider Unit) (groupSize : Nat) (limit : Int)
    (delay : Nat) (watchable : Bool) :
    (new w provider groupSize limit delay watchable).Undisturbed := by
  constructor <;> simp [new]

end Keeper
end StepAtlas
