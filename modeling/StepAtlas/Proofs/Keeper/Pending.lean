import StepAtlas.Proofs.Keeper.Frame
import StepAtlas.Proofs.Keeper.Timer
import StepAtlas.Proofs.PathMap

/-
No change of a file is lost.  A change is pending from the moment on in which it is told.  It is
pending until another change of the same file takes its place or until a run takes over all pending
changes at once; `Meets` follows a change through a course until one of the two happens.  The run
that takes it over starts to load the file only then, so what it reads is no older than the change.

Somebody will always come for the pending changes: a timer that still sleeps, or a run that waits
for the lock and was not told to stop.
-/

namespace StepAtlas
namespace Keeper

/-! ## Who touches the pending changes -/

/-- A run takes over all pending changes and starts to load their files, with one load for each.
The loads are new: there were `n` of them before. -/
structure TakesOver (pending : PathMap Change) (n : Nat) (id : Nat) (g : Group) (k' : Keeper) :
    Prop where
  nonempty : pending.entries ≠ []
  empties : k'.pending = .empty
  applies : ∃ r, k'.runs[id]? = some r ∧ r.job.refreshes = true ∧ r.point = .applying pending g
  loads : List.Forall₂ (fun e j => n ≤ j ∧
    k'.loads[j]? = some (newLoad id (e.1, e.2.cls, decide (e.2.kind = .deleted)))) pending.entries
      g.loads

theorem takesOver_startLoads {k : Keeper} {id : Nat} {r : Run} (hr : k.runs[id]? = some r)
    (hj : r.job.refreshes = true) (hne : k.pending.entries ≠ []) :
    TakesOver k.pending k.loads.length id
      ({ k with pending := .empty }.startLoads id (changedFiles k.pending)).2
      (({ k with pending := .empty }.startLoads id (changedFiles k.pending)).1.wait id
        (.applying k.pending
          ({ k with pending := .empty }.startLoads id (changedFiles k.pending)).2)) := by
  have hr' : ({ k with pending := .empty }.startLoads id (changedFiles k.pending)).1.runs[id]? =
      some r := hr
  refine ⟨hne, rfl, ⟨_, runs_wait_self hr' _, hj, rfl⟩, ?_⟩
  have h := startLoads_group { k with pending := .empty } id (changedFiles k.pending)
  rw [changedFiles, List.forall₂_map_left_iff] at h
  rw [List.forall₂_iff_zip] at h ⊢
  refine ⟨h.1, fun {e j} hmem => ⟨?_, h.2 hmem⟩⟩
  obtain ⟨i, -, rfl⟩ := List.mem_map.mp (List.of_mem_zip hmem).2
  exact Nat.le_add_right _ _

/-- A run that comes to the lock leaves the pending changes alone or takes over all of them. -/
theorem Enters.pending {k k' : Keeper} {id : Nat} {job : Job} {r : Run} (he : Enters k id job k')
    (hr : k.runs[id]? = some r) (hjob : r.job = job) (hd : k.disposed = false) :
    k'.pending = k.pending ∨ ∃ g, TakesOver k.pending k.loads.length id g k' := by
  cases he with
  | builds hj hb => exact .inl hb.pending.1
  | idles hj hempty =>
    have hnil : k.pending.entries = [] := hempty.resolve_right (by rw [hd]; simp)
    rw [leave_eq]
    exact .inl (PathMap.eq_of_entries_eq hnil.symm)
  | takesOver hj hne hd' => exact .inr ⟨_, takesOver_startLoads hr (hjob ▸ hj) hne⟩

/-- A turn of a run leaves the pending changes alone or takes over all of them. -/
theorem TakesRun.pending {k k' : Keeper} {id : Nat} {r : Run} (ht : TakesRun k id r k')
    (hr : k.runs[id]? = some r) (hd : k.disposed = false) :
    k'.pending = k.pending ∨ ∃ g, TakesOver k.pending k.loads.length id g k' := by
  cases ht with
  | rests hp => exact .inl rfl
  | stops hp hc => exact .inl rfl
  | sleeps hp hj hc => exact .inl rfl
  | queues hc ha hl => exact .inl ha.pending
  | enters hc ha hl hq he =>
    obtain ⟨superseded, hr₀⟩ := ha.run hr
    have h := he.pending hr₀ rfl (ha.disposed.trans hd)
    rw [show _ = k.pending from ha.pending, show _ = k.loads from ha.loads] at h
    exact h
  | quits hp hc => exact .inl rfl
  | admitted hp hc he => exact he.pending hr rfl hd
  | resumes hp hc hb => exact .inl hb.pending.1
  | yields hp hc hg hs => exact .inl rfl
  | continues hp hc hb => exact .inl hb.pending.1
  | givesUp hp hg =>
    obtain ⟨subscriptions, he⟩ := giveUp_eq k id _
    rw [he]
    exact .inl rfl
  | leaves hp hl =>
    rw [leave_eq]
    exact .inl rfl
  | breaks hp hc hg hd hre =>
    rw [leave_eq]
    exact .inl rfl
  | applies hp hc hg hd hre => exact .inl rfl

/-- A change of the settings or the mode does not touch what is pending, nor who will see to it. -/
theorem Reconfigures.pending {k k' : Keeper} (hc : Reconfigures k k') :
    k'.pending = k.pending ∧ k'.timer = k.timer ∧ k'.loads = k.loads ∧
      ∀ (i : Nat) (r : Run), k.runs[i]? = some r → k'.runs[i]? = some r := by
  induction hc with
  | sets => exact ⟨rfl, rfl, rfl, fun _ _ hr => hr⟩
  | starts => exact ⟨rfl, rfl, rfl, fun _ _ hr => runs_start_of_some hr .rebuild⟩
  | trans _ _ ih ih' =>
    exact ⟨ih'.1.trans ih.1, ih'.2.1.trans ih.2.1, ih'.2.2.1.trans ih.2.2.1,
      fun i r hr => ih'.2.2.2 i r (ih.2.2.2 i r hr)⟩

theorem TakesLoad.pending {k k' : Keeper} {id : Nat} {l : Load} (ht : TakesLoad k id l k') :
    k'.pending = k.pending ∧ k'.timer = k.timer ∧ k'.runs = k.runs := by
  cases ht with
  | rests hp => exact ⟨rfl, rfl, rfl⟩
  | waits hp hg => exact ⟨rfl, rfl, rfl⟩
  | ends hp he => exact ⟨rfl, rfl, rfl⟩

theorem TakesReport.pending {k k' : Keeper} {id : Nat} {l : Load} (ht : TakesReport k id l k') :
    k'.pending = k.pending ∧ k'.timer = k.timer ∧ k'.loads = k.loads := by
  cases ht with
  | rests => exact ⟨rfl, rfl, rfl⟩
  | delivers hl hr hg hd ha => exact ⟨rfl, rfl, rfl⟩

theorem TakesLoad.catalog {k k' : Keeper} {id : Nat} {l : Load} (ht : TakesLoad k id l k') :
    k'.catalog = k.catalog := by
  cases ht with
  | rests | waits | ends => rfl

theorem TakesReport.catalog {k k' : Keeper} {id : Nat} {l : Load} (ht : TakesReport k id l k') :
    k'.catalog = k.catalog := by
  cases ht with
  | rests | delivers => rfl

/-- The moves of a keeper that is not ended leave the pending changes alone, except that a change is
told or that a run takes over all of them. -/
theorem next_pending {k : Keeper} (h : k.Undisturbed) {m : Move} (hm : m ≠ .dispose) :
    (∃ p c, m = .notify p c ∧ (k.next m).pending = k.pending.set p c) ∨
    ((∀ p c, m ≠ .notify p c) ∧ (k.next m).pending = k.pending) ∨
    ∃ id g, m = .turn (.run id) ∧ TakesOver k.pending k.loads.length id g (k.next m) := by
  have h' := next_moves k m
  generalize k.next m = k' at h' ⊢
  cases h' with
  | notify p c =>
    obtain ⟨ready, he⟩ := h.notify_eq p c
    exact .inl ⟨p, c, rfl, by rw [he]⟩
  | switchMode mode => exact .inr (.inl ⟨nofun, (switchMode_reconfigures k mode).pending.1⟩)
  | changeSettings changes =>
    exact .inr (.inl ⟨nofun, (changeSettings_reconfigures k changes).pending.1⟩)
  | dispose => exact absurd rfl hm
  | run hready hr hrun =>
    rcases hrun.pending hr h.disposed with hp | ⟨g, hover⟩
    · exact .inr (.inl ⟨nofun, hp⟩)
    · exact .inr (.inr ⟨_, g, rfl, hover⟩)
  | starts hm | waits hm =>
    refine .inr (.inl ⟨?_, rfl⟩)
    rintro p c rfl
    cases hm
  | listen | edit | works => exact .inr (.inl ⟨nofun, rfl⟩)

theorem after_undisturbed {k : Keeper} (h : k.Undisturbed) {ms : List Move}
    (hms : Move.dispose ∉ ms) :
    (k.after ms).Undisturbed := by
  induction ms generalizing k with
  | nil => exact h
  | cons m ms ih =>
    rw [List.mem_cons, not_or] at hms
    exact ih (next_undisturbed h (Ne.symm hms.1)) hms.2

/-! ## What a load brings -/

/-- A load is touched by its own turns alone. -/
theorem next_load {k : Keeper} (h : k.Undisturbed) {m : Move} (hm : m ≠ .dispose) {j : Nat}
    {l : Load} (hl : k.loads[j]? = some l) :
    (k.next m).loads[j]? = some l ∨
      (m = .turn (.load j) ∧
        TakesLoad { k with ready := k.ready.erase (.load j) } j l (k.next m)) := by
  have h' := next_moves k m
  generalize k.next m = k' at h' ⊢
  cases h' with
  | notify p c =>
    obtain ⟨ready, he⟩ := h.notify_eq p c
    rw [he]
    exact .inl hl
  | switchMode mode => exact .inl ((switchMode_reconfigures k mode).pending.2.2.1 ▸ hl)
  | changeSettings changes =>
    exact .inl ((changeSettings_reconfigures k changes).pending.2.2.1 ▸ hl)
  | dispose => exact absurd rfl hm
  | run hready hr hrun =>
    obtain ⟨files, hloads⟩ := hrun.frame.loads
    have hk' : k'.loads = k.loads ++ files.map (newLoad _) := hloads
    rw [hk', List.getElem?_append_left (List.getElem?_eq_some_iff.mp hl).1]
    exact .inl hl
  | @works t runs loads ready es ht hes htake =>
    generalize { k with runs, loads, ready, events := k.events ++ es } = k' at htake ⊢
    cases htake with
    | run => exact absurd rfl (ht _)
    | @load id l' _ hl' hload =>
      by_cases hj : id = j
      · subst hj
        have hll : l' = l := Option.some.inj (hl'.symm.trans hl)
        subst hll
        exact .inr ⟨rfl, hload⟩
      · refine .inl ?_
        cases hload with
        | rests hp => exact hl
        | waits hp hg => simpa [modifyLoad, hj] using hl
        | ends hp he => simpa [finishLoad, wake, modifyLoad, hj] using hl
    | report hl' hreport => exact .inl (hreport.pending.2.2 ▸ hl)
    | alarm | idle => exact .inl hl
  | starts | listen | edit | waits => exact .inl hl

/-- A load that has ended stays as it is. -/
theorem after_finished {k : Keeper} (h : k.Undisturbed) {ms : List Move} (hms : Move.dispose ∉ ms)
    {j : Nat} {l : Load} {result : Except Stop Loaded} (hl : k.loads[j]? = some l)
    (hp : l.point = .finished result) :
    (k.after ms).loads[j]? = some l := by
  induction ms generalizing k with
  | nil => exact hl
  | cons m ms ih =>
    rw [List.mem_cons, not_or] at hms
    refine ih (next_undisturbed h (Ne.symm hms.1)) hms.2 ?_
    rcases next_load h (Ne.symm hms.1) hl with hsame | ⟨-, htake⟩
    · exact hsame
    · generalize k.next m = k' at htake ⊢
      cases htake with
      | rests hp' => exact hl
      | waits hp' hg => rw [hp] at hp'; cases hp'
      | ends hp' he => exact absurd hp (hp' result)

/-- What a load brings in a course was read in the course: the load took its turn and the file held
that then. -/
def ReadWithin (k : Keeper) (ms : List Move) (j : Nat) (cls : FileClass) (p : Path) : Prop :=
  ∀ before after x, ms = before ++ after →
  (k.after before).loadPoint? j = some (.finished (.ok x)) →
    ∃ ms₁ ms₂, before = ms₁ ++ .turn (.load j) :: ms₂ ∧
      (k.after ms₁).workspace.load (k.after ms₁).sizeLimit cls p = .ok x

theorem exists_read {k : Keeper} (h : k.Undisturbed) {ms : List Move} (hms : Move.dispose ∉ ms)
    {j : Nat} {l : Load} (hl : k.loads[j]? = some l) (hp : ∀ result, l.point ≠ .finished result)
    (hgone : l.gone = false) {x : Loaded}
    (hx : (k.after ms).loadPoint? j = some (.finished (.ok x))) :
    ∃ ms₁ ms₂, ms = ms₁ ++ .turn (.load j) :: ms₂ ∧
      (k.after ms₁).workspace.load (k.after ms₁).sizeLimit l.cls l.path = .ok x := by
  induction ms generalizing k l with
  | nil =>
    simp only [after_nil, loadPoint?, hl, Option.map_some, Option.some.injEq] at hx
    exact absurd hx (hp _)
  | cons m ms ih =>
    rw [List.mem_cons, not_or] at hms
    have hnext := next_undisturbed h (Ne.symm hms.1)
    -- The rest of the course has the read, if the load has not ended yet.
    have hlater : ∀ l' : Load, (k.next m).loads[j]? = some l' →
        (∀ result, l'.point ≠ .finished result) → l'.gone = false → l'.cls = l.cls →
        l'.path = l.path → ∃ ms₁ ms₂, m :: ms = ms₁ ++ .turn (.load j) :: ms₂ ∧
          (k.after ms₁).workspace.load (k.after ms₁).sizeLimit l.cls l.path = .ok x := by
      intro l' hl' hp' hgone' hcls hpath
      obtain ⟨ms₁, ms₂, hsplit, hload⟩ := ih hnext hms.2 hl' hp' hgone' hx
      refine ⟨m :: ms₁, ms₂, by rw [hsplit]; rfl, ?_⟩
      rw [hcls, hpath] at hload
      exact hload
    rcases next_load h (Ne.symm hms.1) hl with hsame | ⟨rfl, htake⟩
    · exact hlater l hsame hp hgone rfl rfl
    · rw [after_cons] at hx
      generalize k.next (.turn (.load j)) = k' at htake hx hnext hlater
      cases htake with
      | rests hp' => exact absurd hp' (hp _)
      | waits hp' hg =>
        refine hlater { l with point := .held } ?_ (by simp) hgone rfl rfl
        simp [modifyLoad, hl]
      | @ends es result hp' he =>
        have hdone :
            ({ k with ready := k.ready.erase (.load j), events := k.events ++ es }.finishLoad j
              result).loads[j]? = some { l with point := .finished result } := by
          simp [finishLoad, wake, modifyLoad, hl]
        have hstays := after_finished hnext hms.2 hdone rfl
        simp only [loadPoint?, hstays, Option.map_some, Option.some.injEq, LoadPoint.finished.injEq]
          at hx
        refine ⟨[], ms, rfl, ?_⟩
        cases he with
        | canceled hc => cases hx
        | gone hg => rw [hgone] at hg; cases hg
        | reads hg =>
          rw [after_nil]
          cases hload : k.workspace.load k.sizeLimit l.cls l.path with
          | error fault => rw [hload] at hx; cases hx
          | ok y =>
            rw [hload] at hx
            cases hx
            rfl

/-! ## The fate of a change -/

inductive Fate where
  | pending
  /-- A later change of the same file took its place. -/
  | replaced
  /-- A run took it over. -/
  | taken (id : Nat)
deriving DecidableEq, Repr

inductive Meets (p : Path) (c : Change) : Keeper → List Move → Fate → Prop where
  | waits {k : Keeper} (h : k.pending.get? p = some c) : Meets p c k [] .pending
  | replaced {k : Keeper} {d : Change} {ms : List Move} (h : k.pending.get? p = some c) :
      Meets p c k (.notify p d :: ms) .replaced
  /-- The load `j` of the run that takes it over is new, and reads the file later. -/
  | taken {k : Keeper} {id : Nat} {g : Group} {j : Nat} {ms : List Move}
      (h : TakesOver k.pending k.loads.length id g (k.next (.turn (.run id))))
      (hj : ((p, c), j) ∈ k.pending.entries.zip g.loads)
      (hread : c.kind ≠ .deleted → ReadWithin (k.next (.turn (.run id))) ms j c.cls p) :
      Meets p c k (.turn (.run id) :: ms) (.taken id)
  | passes {k : Keeper} {m : Move} {ms : List Move} {f : Fate} (hn : ∀ d, m ≠ .notify p d)
      (ht : ∀ id g, ¬ TakesOver k.pending k.loads.length id g (k.next m))
      (h : Meets p c (k.next m) ms f) :
      Meets p c k (m :: ms) f

theorem Meets.unique {p : Path} {c : Change} {k : Keeper} {ms : List Move} {f f' : Fate}
    (h : Meets p c k ms f) (h' : Meets p c k ms f') : f = f' := by
  induction h with
  | waits hp =>
    cases h' with
    | waits => rfl
  | replaced hp =>
    cases h' with
    | replaced => rfl
    | passes hn => exact absurd rfl (hn _)
  | taken hover =>
    cases h' with
    | taken => rfl
    | passes hn ht => exact absurd hover (ht _ _)
  | passes hn ht _ ih =>
    cases h' with
    | replaced => exact absurd rfl (hn _)
    | taken hover => exact absurd hover (ht _ _)
    | passes _ _ h' => exact ih h'

/-- Each pending change is among the changes that a run takes over, with a new load of its file. -/
theorem TakesOver.exists_load {pending : PathMap Change} {n id : Nat} {g : Group} {k' : Keeper}
    (h : TakesOver pending n id g k') {p : Path} {c : Change} (hp : pending.get? p = some c) :
    ∃ j, ((p, c), j) ∈ pending.entries.zip g.loads ∧
      k'.loads[j]? = some (newLoad id (p, c.cls, decide (c.kind = .deleted))) := by
  obtain ⟨i, hi⟩ := List.mem_iff_getElem?.mp (PathMap.mem_entries_iff.mpr hp)
  obtain ⟨hlen, hall⟩ := List.forall₂_iff_zip.mp h.loads
  have hlt : i < g.loads.length := hlen ▸ (List.getElem?_eq_some_iff.mp hi).1
  have hmem : ((p, c), g.loads[i]) ∈ pending.entries.zip g.loads := by
    apply List.mem_iff_getElem?.mpr
    refine ⟨i, ?_⟩
    rw [List.getElem?_zip_eq_some]
    exact ⟨hi, List.getElem?_eq_getElem hlt⟩
  exact ⟨g.loads[i], hmem, (hall hmem).2⟩

theorem exists_meets {k : Keeper} (h : k.Undisturbed) {ms : List Move} (hms : Move.dispose ∉ ms)
    {p : Path} {c : Change} (hp : k.pending.get? p = some c) : ∃ f, Meets p c k ms f := by
  induction ms generalizing k with
  | nil => exact ⟨.pending, .waits hp⟩
  | cons m ms ih =>
    rw [List.mem_cons, not_or] at hms
    have hnext := next_undisturbed h (Ne.symm hms.1)
    rcases next_pending h (Ne.symm hms.1) with ⟨q, d, rfl, he⟩ | ⟨hn, he⟩ | ⟨id, g, rfl, hover⟩
    · by_cases hq : q = p
      · subst hq
        exact ⟨.replaced, .replaced hp⟩
      · have hp' : (k.next (.notify q d)).pending.get? p = some c := by
          rw [he, PathMap.get?_set, if_neg (Ne.symm hq)]
          exact hp
        obtain ⟨f, hf⟩ := ih hnext hms.2 hp'
        refine ⟨f, .passes (fun d' hd' => hq (Move.notify.inj hd').1) (fun id g hg => ?_) hf⟩
        rw [hg.empties] at hp'
        cases hp'
    · have hp' : (k.next m).pending.get? p = some c := by
        rw [he]
        exact hp
      obtain ⟨f, hf⟩ := ih hnext hms.2 hp'
      refine ⟨f, .passes (hn p) (fun id g hg => ?_) hf⟩
      rw [hg.empties] at hp'
      cases hp'
    · obtain ⟨j, hj, hload⟩ := hover.exists_load hp
      refine ⟨.taken id, .taken hover hj fun hkind before after x hsplit hx => ?_⟩
      have hbefore : Move.dispose ∉ before := fun hd => hms.2 (hsplit ▸ List.mem_append_left _ hd)
      exact exists_read hnext hbefore hload (by simp [newLoad]) (by simpa [newLoad] using hkind) hx

/-! ## Who will see to the pending changes -/

/-- A run waits for the lock to apply the pending changes. -/
structure WaitsToRefresh (r : Run) : Prop where
  point : r.point = .queued
  job : r.job.refreshes = true
  canceled : r.canceled = false

/-- If there are pending changes, then there is a timer that has not slept its time, or a run waits
for the lock to apply them. -/
def Heeded (k : Keeper) : Prop :=
  k.pending.entries ≠ [] →
    (∃ (i : Nat) (r : Run), k.timer = some i ∧ k.runs[i]? = some r ∧ r.isTimer = true) ∨
      ∃ (i : Nat) (r : Run), k.runs[i]? = some r ∧ WaitsToRefresh r

/-- It is enough that whoever would see to the changes is still there. -/
theorem Heeded.keep {k k' : Keeper} (hh : k.Heeded) (h : k'.Undisturbed)
    (hp : k'.pending = k.pending) (ht : k'.timer = k.timer)
    (hq : ∀ (i : Nat) (r : Run), k.runs[i]? = some r → WaitsToRefresh r →
      ∃ r', k'.runs[i]? = some r' ∧ WaitsToRefresh r') : k'.Heeded := by
  intro hne
  rw [hp] at hne
  rcases hh hne with ⟨i, r, hi, -, -⟩ | ⟨i, r, hr, hw⟩
  · have hi' : k'.timer = some i := ht.trans hi
    obtain ⟨r', hr', htimer⟩ := h.sleeper i hi'
    exact .inl ⟨i, r', hi', hr', htimer⟩
  · obtain ⟨r', hr', hw'⟩ := hq i r hr hw
    exact .inr ⟨i, r', hr', hw'⟩

theorem Heeded.frame {k k' : Keeper} {id : Nat} {r : Run} (hh : k.Heeded) (h : k'.Undisturbed)
    (hf : Frame id k.core k'.core) (hr : k.runs[id]? = some r) (hn : ¬ WaitsToRefresh r)
    (hp : k'.pending = k.pending) (ht : k'.timer = k.timer) : k'.Heeded := by
  refine hh.keep h hp ht fun i s hs hw => ?_
  obtain ⟨p, superseded, hs', hpoint⟩ := hf.runs i s hs
  have hi : i ≠ id := by
    rintro rfl
    rw [hr] at hs
    cases hs
    exact hn hw
  exact ⟨_, hs', (hpoint hi).trans hw.point, hw.job, hw.canceled⟩

theorem heeded_of_empty {k : Keeper} (h : k.pending = .empty) : k.Heeded := by
  intro hne
  rw [h] at hne
  exact absurd rfl hne

/-- A run that comes to the lock to apply changes leaves none behind. -/
theorem Enters.heeded {k k' : Keeper} {id : Nat} {job : Job} (he : Enters k id job k')
    (hbuild : job.refreshes = false → k'.pending = k.pending → k'.timer = k.timer → k'.Heeded) :
    k'.Heeded := by
  cases he with
  | builds hj hb => exact hbuild hj hb.pending.1 hb.pending.2
  | idles hj hp =>
    refine heeded_of_empty ?_
    rw [leave_eq]
    rfl
  | takesOver hj hp hd => exact heeded_of_empty rfl

theorem TakesRun.heeded {k k' : Keeper} {id : Nat} {r : Run} (ht : TakesRun k id r k')
    (hr : k.runs[id]? = some r) (h : k.Undisturbed) (hh : k.Heeded) : k'.Heeded := by
  have hnext := ht.undisturbed h hr
  have hframe := ht.frame
  have hpoint : r.point ≠ .queued → ¬ WaitsToRefresh r := fun hne hw => hne hw.point
  cases ht with
  | rests hp => exact hh
  | stops hp hc =>
    refine hh.frame hnext hframe hr (hpoint ?_) rfl rfl
    rcases hp with hp | ⟨time, hp⟩ <;> rw [hp] <;> simp
  | sleeps hp hj hc => exact hh.frame hnext hframe hr (hpoint (by rw [hp]; simp)) rfl rfl
  | queues hc ha hl =>
    rcases ha.timer h hr hc with ⟨htimer, -⟩ | ⟨-, htimer⟩
    · exact hh.frame hnext hframe hr (hpoint ha.point_ne_queued) ha.pending htimer
    · -- The timer has slept its time: now it is the run that waits for the lock.
      obtain ⟨s, hs, hst⟩ := h.sleeper id htimer
      rw [hr] at hs
      cases hs
      obtain ⟨superseded, hr₀⟩ := ha.run hr
      intro _
      refine .inr ⟨id, _, runs_wait_self hr₀ _, rfl, ?_, hc⟩
      show r.job.refreshes = true
      rw [(Run.isTimer_iff.mp hst).1]
      rfl
  | enters hc ha hl hq he =>
    refine he.heeded fun hj hpending hsame' => ?_
    have htimer : r.isTimer = false := Run.isTimer_of_job fun hd => by rw [hd] at hj; cases hj
    rcases ha.timer h hr hc with ⟨hsame, -⟩ | ⟨-, htime⟩
    · exact hh.frame hnext hframe hr (hpoint ha.point_ne_queued) (hpending.trans ha.pending)
        (hsame'.trans hsame)
    · obtain ⟨s, hs, hst⟩ := h.sleeper id htime
      rw [hr] at hs
      cases hs
      rw [htimer] at hst
      cases hst
  | quits hp hc =>
    rw [h.not_canceled hr (by rw [hp]; rfl) (by rw [hp]; simp)] at hc
    cases hc
  | admitted hp hc he =>
    refine he.heeded fun hj hpending hsame => hh.frame hnext hframe hr (fun hw => ?_) hpending hsame
    rw [hw.job] at hj
    cases hj
  | resumes hp hc hb =>
    exact hh.frame hnext hframe hr (hpoint (by rw [hp]; simp)) hb.pending.1 hb.pending.2
  | yields hp hc hg hs => exact hh.frame hnext hframe hr (hpoint (by rw [hp]; simp)) rfl rfl
  | continues hp hc hb =>
    exact hh.frame hnext hframe hr (hpoint (by rw [hp]; simp)) hb.pending.1 hb.pending.2
  | @givesUp d result hp hg =>
    obtain ⟨subscriptions, he⟩ := giveUp_eq k id result
    refine hh.frame hnext hframe hr (hpoint fun hq => ?_) (by rw [he]; rfl) (by rw [he]; rfl)
    rw [hq] at hp
    cases hp
  | leaves hp hl =>
    exact hh.frame hnext hframe hr (hpoint (by rw [hp]; simp)) (by rw [leave_eq]; rfl)
      (by rw [leave_eq]; rfl)
  | breaks hp hc hg hd hre =>
    exact hh.frame hnext hframe hr (hpoint (by rw [hp]; simp)) (by rw [leave_eq]; rfl)
      (by rw [leave_eq]; rfl)
  | applies hp hc hg hd hre => exact hh.frame hnext hframe hr (hpoint (by rw [hp]; simp)) rfl rfl

theorem next_heeded {k : Keeper} (h : k.Undisturbed) (hh : k.Heeded) {m : Move}
    (hm : m ≠ .dispose) :
    (k.next m).Heeded := by
  have hnext := next_undisturbed h hm
  have hstart : ∀ job (i : Nat) (r : Run), k.runs[i]? = some r → WaitsToRefresh r →
      ∃ r', (k.start job).1.runs[i]? = some r' ∧ WaitsToRefresh r' :=
    fun job i r hr hw => ⟨r, runs_start_of_some hr job, hw⟩
  have h' := next_moves k m
  generalize k.next m = k' at h' hnext ⊢
  cases h' with
  | @starts _ job => exact hh.keep hnext rfl rfl (hstart job)
  | notify p c =>
    obtain ⟨ready, he⟩ := h.notify_eq p c
    intro _
    have ht : (k.notify p c).timer = some k.runs.length := by rw [he]
    obtain ⟨r, hr, htimer⟩ := hnext.sleeper _ ht
    exact .inl ⟨_, r, ht, hr, htimer⟩
  | switchMode mode =>
    obtain ⟨hp, ht, -, hruns⟩ := (switchMode_reconfigures k mode).pending
    exact hh.keep hnext hp ht fun i r hr hw => ⟨r, hruns i r hr, hw⟩
  | changeSettings changes =>
    obtain ⟨hp, ht, -, hruns⟩ := (changeSettings_reconfigures k changes).pending
    exact hh.keep hnext hp ht fun i r hr hw => ⟨r, hruns i r hr, hw⟩
  | dispose => exact absurd rfl hm
  | run hready hr hrun => exact hrun.heeded hr h hh
  | @works t runs loads ready es ht hes htake =>
    generalize { k with runs, loads, ready, events := k.events ++ es } = k' at htake hnext ⊢
    cases htake with
    | run => exact absurd rfl (ht _)
    | load hl hload =>
      obtain ⟨hp, ht, hruns⟩ := hload.pending
      exact hh.keep hnext hp ht fun i r hr hw => ⟨r, hruns ▸ hr, hw⟩
    | report hl hreport =>
      obtain ⟨hp, ht, -⟩ := hreport.pending
      cases hreport with
      | rests => exact hh
      | delivers hl hr hg hd ha =>
        refine hh.frame hnext (Frame.wait k _ _) hr (fun hw => ?_) hp ht
        rw [hw.point] at hg
        cases hg
    | alarm | idle => exact hh
  | listen | edit | waits => exact hh

theorem after_heeded {k : Keeper} (h : k.Undisturbed) (hh : k.Heeded) {ms : List Move}
    (hms : Move.dispose ∉ ms) :
    (k.after ms).Heeded := by
  induction ms generalizing k with
  | nil => exact hh
  | cons m ms ih =>
    rw [List.mem_cons, not_or] at hms
    exact ih (next_undisturbed h (Ne.symm hms.1)) (next_heeded h hh (Ne.symm hms.1)) hms.2

/-- No change of a file is lost, in whatever order calls and turns interleave, until the keeper is
ended.  At every time after a change is told it is still pending, or it was replaced, or one run has
taken it over and reads the file after that.  And there is always somebody who will see to the
changes that are pending. -/
theorem no_change_lost (w : Workspace) (provider : Provider Unit) (groupSize : Nat) (limit : Int)
    (delay : Nat) (watchable : Bool) {ms : List Move} (hms : Move.dispose ∉ ms) :
    (∀ before p c later, ms = before ++ .notify p c :: later →
      ∃! fate,
        Meets p c ((new w provider groupSize limit delay watchable).after (before ++ [.notify p c]))
          later fate) ∧
    ((new w provider groupSize limit delay watchable).after ms).Heeded := by
  have h := new_undisturbed w provider groupSize limit delay watchable
  have hh : (new w provider groupSize limit delay watchable).Heeded := heeded_of_empty rfl
  generalize new w provider groupSize limit delay watchable = k at h hh
  refine ⟨?_, after_heeded h hh hms⟩
  rintro before p c later rfl
  simp only [List.mem_append, List.mem_cons, not_or] at hms
  have hbefore := after_undisturbed h hms.1
  have hnext : (k.after (before ++ [.notify p c])).Undisturbed := by
    rw [after_append]
    exact next_undisturbed hbefore (by simp)
  have hp : (k.after (before ++ [.notify p c])).pending.get? p = some c := by
    obtain ⟨ready, he⟩ := hbefore.notify_eq p c
    rw [after_append]
    show ((k.after before).notify p c).pending.get? p = _
    rw [he, PathMap.get?_set, if_pos rfl]
  obtain ⟨fate, hfate⟩ := exists_meets hnext hms.2.2 hp
  exact ⟨fate, hfate, fun _ h' => h'.unique hfate⟩

/-- A file is edited twice and another one once, while the timer sleeps; the run that the timer
becomes takes over the two changes that are left and loads both files. -/
def editCourse : List Move :=
  [.notify (shortPath 'f' 'a') { cls := .feature, kind := .changed }, .turn (.run 0),
    .notify (shortPath 's' 'a') { cls := .definition, kind := .changed },
    .notify (shortPath 'f' 'a') { cls := .feature, kind := .changed }, .turn (.run 2), .pass 500,
      .ring,
    .turn (.alarm 2), .turn (.run 2), .turn (.load 0), .turn (.load 1), .turn (.report 0),
      .turn (.report 1)]

theorem no_change_lost_editCourse :
    (((ofFiles twoFiles).after (editCourse.take 8)).pending.entries.length = 2 ∧
      ((ofFiles twoFiles).after editCourse).pending.entries.length = 0 ∧
      ((ofFiles twoFiles).after editCourse).loads.length = 2) ∧
    (∀ before p c later, editCourse = before ++ .notify p c :: later →
      ∃! fate, Meets p c ((ofFiles twoFiles).after (before ++ [.notify p c])) later fate) ∧
    ((ofFiles twoFiles).after editCourse).Heeded :=
  ⟨by decide +kernel, no_change_lost (inMemory twoFiles) _ 20 1000 500 false (by simp [editCourse])⟩

end Keeper
end StepAtlas
