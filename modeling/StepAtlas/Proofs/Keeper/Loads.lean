import StepAtlas.Proofs.Entries
import StepAtlas.Proofs.Keeper.Pending
import StepAtlas.Proofs.Keeper.Runs

/-
Loads and what they bring.  A load that has ended has read its file at that time, so as long as the
file stays the same it has brought what the file holds.  When the wait for a group is over and was
not stopped, all of its loads have brought something.
-/

namespace StepAtlas

/-- The load of a file as one of a class; what it has come to is what the file brings. -/
structure Load.Brings (l : Load) (s : Site) (cls : FileClass) (p : Path) : Prop where
  result : ∀ result, l.point = .finished result → result = (s.load cls p).mapError .failed
  path : l.path = p
  cls : l.cls = cls
  gone : l.gone = false

theorem Load.Brings.brought {l : Load} {s : Site} {cls : FileClass} {p : Path}
    (h : l.Brings s cls p) {x : Loaded} (hx : l.point = .finished (.ok x)) :
    s.load cls p = .ok x := by
  have hresult := h.result _ hx
  cases hload : s.load cls p with
  | error fault => rw [hload] at hresult; cases hresult
  | ok y => rw [hload] at hresult; cases hresult; rfl

theorem Load.Brings.failed {l : Load} {s : Site} {cls : FileClass} {p : Path} (h : l.Brings s cls p)
    {fault : Fault} (hf : l.point = .finished (.error (.failed fault))) :
    s.load cls p = .error fault := by
  have hresult := h.result _ hf
  cases hload : s.load cls p with
  | error fault' => rw [hload] at hresult; cases hresult; rfl
  | ok y => rw [hload] at hresult; cases hresult

namespace Keeper

def site (k : Keeper) : Site :=
  { workspace := k.workspace, settings := k.settings, sizeLimit := k.sizeLimit }

/-- What goes on between two calls: turns are taken, time passes, and files are held back or handed
out. -/
def Works (_ : Keeper) : Move → Prop
  | .listen _ | .turn _ | .ring | .pass _ | .hold _ | .release _ => True
  | _ => False

instance (k : Keeper) : (m : Move) → Decidable (Works k m)
  | .listen _ | .turn _ | .ring | .pass _ | .hold _ | .release _ => .isTrue trivial
  | .rebuild | .startUp | .refresh | .notify _ _ | .switchMode _ | .changeSettings _ | .dispose
    | .edit _ => .isFalse id

/-- Files change and the changes are told, and now and then a run is started to apply them.  What is
told of a file is the case. -/
def Informs (cls : Path → FileClass) (k : Keeper) : Move → Prop
  | .notify p c => k.site.Describes cls p c
  | .edit w => w.Stamps ∧ (k.site.edited w).Sorted cls
  | .refresh => True
  | m => Works k m

theorem Informs.ne_dispose {cls : Path → FileClass} {k : Keeper} {m : Move} (hm : Informs cls k m) :
    m ≠ .dispose := by
  rintro rfl
  exact hm

theorem Works.informs {cls : Path → FileClass} {k : Keeper} {m : Move} (hm : Works k m) :
    Informs cls k m := by
  cases m with
  | notify p c => exact hm.elim
  | edit w => exact hm.elim
  | refresh => trivial
  | _ => exact hm

def Brings (k : Keeper) (cls : FileClass) (p : Path) (j : Nat) : Prop :=
  ∃ l, k.loads[j]? = some l ∧ l.Brings k.site cls p

/-- What a load brings, it brings at all later times, unless the file changes. -/
theorem next_brings {k : Keeper} (h : k.Undisturbed) {m : Move} (hm : m ≠ .dispose)
    {cls : FileClass} {p : Path} {j : Nat} (hsite : (k.next m).site.load cls p = k.site.load cls p)
    (hb : k.Brings cls p j) :
    (k.next m).Brings cls p j := by
  obtain ⟨l, hl, hl'⟩ := hb
  have hsame : (k.next m).loads[j]? = some l → (k.next m).Brings cls p j :=
    fun hl₁ =>
      ⟨l, hl₁, fun result hp => hsite.symm ▸ hl'.result result hp, hl'.path, hl'.cls, hl'.gone⟩
  rcases next_load h hm hl with hl₁ | ⟨rfl, htake⟩
  · exact hsame hl₁
  · generalize k.next (.turn (.load j)) = k' at htake hsite hsame ⊢
    cases htake with
    | rests hp => exact hsame hl
    | waits hp hg =>
      refine ⟨{ l with point := .held }, by simp [modifyLoad, hl], ?_, hl'.path, hl'.cls, hl'.gone⟩
      intro result hp
      cases hp
    | @ends es result hp he =>
      refine ⟨{ l with point := .finished result },
        by simp [finishLoad, wake, modifyLoad, hl], ?_, hl'.path, hl'.cls, hl'.gone⟩
      intro result' hp'
      obtain rfl : result = result' := LoadPoint.finished.inj hp'
      cases he with
      | canceled hc =>
        rw [(h.loaded l (List.mem_of_getElem? hl)).1] at hc
        cases hc
      | gone hg =>
        rw [hl'.gone] at hg
        cases hg
      | reads hg =>
        rw [hsite, hl'.path, hl'.cls, Site.load, site]

/-- The settings and the mode stay as they are, and so do the files unless they are edited. -/
theorem next_site {cls : Path → FileClass} {k : Keeper} (h : k.Undisturbed) {m : Move}
    (hm : Informs cls k m) :
    (∃ w, m = .edit w ∧ (k.next m).site = k.site.edited w ∧ (k.next m).matcher = k.matcher) ∨
      ((∀ w, m ≠ .edit w) ∧ (k.next m).site = k.site ∧ (k.next m).matcher = k.matcher) := by
  have h' := next_moves k m
  generalize k.next m = k' at h' ⊢
  cases h' with
  | edit w => exact .inl ⟨w, rfl, rfl, rfl⟩
  | notify p c =>
    obtain ⟨ready, he⟩ := h.notify_eq p c
    rw [he]
    exact .inr ⟨nofun, rfl, rfl⟩
  | run hready hr hrun =>
    have hf := hrun.frame
    have hw : k'.workspace = k.workspace := hf.workspace
    have hs : k'.settings = k.settings := hf.settings
    have hl : k'.sizeLimit = k.sizeLimit := hf.sizeLimit
    exact .inr ⟨nofun, by rw [site, site, hw, hs, hl], hf.matcher⟩
  | starts hj | waits hj =>
    refine .inr ⟨?_, rfl, rfl⟩
    rintro w rfl
    cases hj
  | listen | works => exact .inr ⟨nofun, rfl, rfl⟩
  | switchMode | changeSettings | dispose => exact hm.elim

/-! ## Groups -/

def Ended (loads : List Load) (j : Nat) : Prop :=
  ∃ l x, loads[j]? = some l ∧ l.point = .finished (.ok x)

/-- What the loads have reported to a group: those that are not waited for have ended, unless one of
them has stopped the wait. -/
structure ReportedTo (g : Group) (loads : List Load) : Prop where
  ended : g.stop = none → ∀ j ∈ g.loads, j ∈ g.awaited ∨ Ended loads j
  stopped : ∀ fault, g.stop = some (.failed fault) →
    ∃ j ∈ g.loads, ∃ l, loads[j]? = some l ∧ l.point = .finished (.error (.failed fault))
  awaited : ∀ j ∈ g.awaited, j ∈ g.loads

def Reported (k : Keeper) : Prop :=
  ∀ i p g, k.point? i = some p → p.group? = some g → ReportedTo g k.loads

/-- When the wait for a group is over and nothing stopped it, every load has brought something. -/
theorem Reported.ended {k : Keeper} (h : k.Reported) {i : Nat} {p : Point} {g : Group}
    (hp : k.point? i = some p) (hg : p.group? = some g) (hstop : g.stop = none)
    (hdone : g.isDone = true) {j : Nat} (hj : j ∈ g.loads) :
    Ended k.loads j := by
  have hawaited : g.awaited = [] := by simpa [Group.isDone, hstop] using hdone
  refine ((h i p g hp hg).ended hstop j hj).resolve_left ?_
  rw [hawaited]
  exact List.not_mem_nil

theorem next_ended {k : Keeper} (h : k.Undisturbed) {m : Move} (hm : m ≠ .dispose) {j : Nat}
    (he : Ended k.loads j) :
    Ended (k.next m).loads j := by
  obtain ⟨l, x, hl, hp⟩ := he
  have hms : Move.dispose ∉ [m] := by simpa using Ne.symm hm
  exact ⟨l, x, after_finished h hms hl hp, hp⟩

theorem point?_start (k : Keeper) (job : Job) (i : Nat) :
    (k.start job).1.point? i = k.point? i ∨
      (k.point? i = none ∧ (k.start job).1.point? i = some .created) := by
  simp only [point?, start_eq, List.getElem?_append, List.getElem?_singleton]
  split
  · exact .inl rfl
  · rename_i hi
    rw [List.getElem?_eq_none (by omega)]
    split
    · exact .inr ⟨rfl, rfl⟩
    · exact .inl rfl

theorem point?_notify {k : Keeper} (h : k.Undisturbed) (p : Path) (c : Change) (i : Nat) :
    (k.notify p c).point? i = k.point? i ∨
      (k.point? i = none ∧ (k.notify p c).point? i = some .created) := by
  obtain ⟨ready, he⟩ := h.notify_eq p c
  have hmap : { k with runs := k.runs.map Run.stopTimer }.point? i = k.point? i := by
    have hpoint : ∀ r : Run, r.stopTimer.point = r.point := by
      intro r
      unfold Run.stopTimer
      split
      · rfl
      · rfl
    simp only [point?, List.getElem?_map, Option.map_map]
    congr 1
    funext r
    exact hpoint r
  rw [he, ← hmap]
  exact point?_start { k with runs := k.runs.map Run.stopTimer } .delayedRefresh i

theorem Reconfigures.point? {k k' : Keeper} (hc : Reconfigures k k') (i : Nat) :
    k'.point? i = k.point? i ∨ (k.point? i = none ∧ k'.point? i = some .created) := by
  induction hc with
  | sets => exact .inl rfl
  | starts k => exact point?_start k .rebuild i
  | trans _ _ ih ih' =>
    rcases ih with hsame | ⟨hnone, hnew⟩
    · rw [← hsame]
      exact ih'
    · refine .inr ⟨hnone, ?_⟩
      rcases ih' with hsame' | ⟨hnone', -⟩
      · exact hsame'.trans hnew
      · rw [hnew] at hnone'
        cases hnone'

/-- A call leaves every run where it is, and those that it starts have not begun. -/
theorem next_point? {k : Keeper} (h : k.Undisturbed) {m : Move} (hm : m ≠ .dispose)
    (ht : ∀ t, m ≠ .turn t) (i : Nat) :
    (k.next m).point? i = k.point? i ∨
      (k.point? i = none ∧ (k.next m).point? i = some .created) := by
  have h' := next_moves k m
  generalize k.next m = k' at h' ⊢
  cases h' with
  | @starts _ job => exact point?_start k job i
  | notify p c => exact point?_notify h p c i
  | switchMode mode => exact (switchMode_reconfigures k mode).point? i
  | changeSettings changes => exact (changeSettings_reconfigures k changes).point? i
  | dispose => exact absurd rfl hm
  | run | works => exact absurd rfl (ht _)
  | listen | edit | waits => exact .inl rfl

/-- A report leaves every run where it is, except that the group of its run takes it. -/
theorem TakesReport.point? {k k' : Keeper} {id : Nat} {l : Load} (ht : TakesReport k id l k')
    (i : Nat) :
    k'.point? i = k.point? i ∨ ∃ p g result, k.point? i = some p ∧ p.group? = some g ∧
      l.point = .finished result ∧
      g.isDone = false ∧ id ∈ g.awaited ∧
      k'.point? i = some (p.withGroup (g.report id result)) := by
  cases ht with
  | rests => exact .inl rfl
  | @delivers r g result hl hr hg hd ha =>
    by_cases hi : i = l.owner
    · subst hi
      exact .inr ⟨r.point, g, result, point?_of_run hr, hg, hl, hd, ha,
        point?_wait_self (k := { k with ready := _ }) hr _⟩
    · exact .inl (point?_wait_of_ne (k := { k with ready := _ }) hi _)

theorem ReportedTo.report {g : Group} {loads : List Load} (h : ReportedTo g loads)
    (hd : g.isDone = false) {id : Nat} {l : Load} (hl : loads[id]? = some l)
    {result : Except Stop Loaded} (hp : l.point = .finished result) (ha : id ∈ g.awaited) :
    ReportedTo (g.report id result) loads := by
  have hstop : g.stop = none := by simpa using (Bool.or_eq_false_iff.mp hd).1
  cases result with
  | error stop =>
    refine ⟨?_, ?_, h.awaited⟩
    · intro hs
      cases hs
    · intro fault hs
      obtain rfl : stop = .failed fault := Option.some.inj hs
      exact ⟨id, h.awaited id ha, l, hl, hp⟩
  | ok x =>
    refine ⟨?_, ?_, fun j hj => h.awaited j (List.mem_of_mem_erase hj)⟩
    · intro _ j hj
      by_cases hjd : j = id
      · exact .inr ⟨l, x, hjd ▸ hl, hp⟩
      · exact (h.ended hstop j hj).imp_left fun ha => (List.mem_erase_of_ne hjd).mpr ha
    · intro fault hs
      simp only [Group.report] at hs
      split at hs <;> cases hs

/-- Nothing has been reported to a group whose loads were just started. -/
theorem ReportedTo.of_awaited {g : Group} (h : g.awaited = g.loads) (hstop : g.stop = none)
    (loads : List Load) :
    ReportedTo g loads := by
  refine ⟨fun _ j hj => .inl (h ▸ hj), ?_, fun j hj => h ▸ hj⟩
  intro fault hs
  rw [hstop] at hs
  cases hs

theorem ReportedTo.next {k : Keeper} (h : k.Undisturbed) {m : Move} (hm : m ≠ .dispose) {g : Group}
    (hg : ReportedTo g k.loads) : ReportedTo g (k.next m).loads where
  ended := fun hs j hj => (hg.ended hs j hj).imp_right (next_ended h hm)
  stopped := by
    intro fault hs
    obtain ⟨j, hj, l, hl, hp⟩ := hg.stopped fault hs
    have hms : Move.dispose ∉ [m] := by simpa using Ne.symm hm
    exact ⟨j, hj, l, after_finished h hms hl hp, hp⟩
  awaited := hg.awaited

theorem next_reported {k : Keeper} (h : k.Undisturbed) (hr : k.Reported) {m : Move}
    (hm : m ≠ .dispose) :
    (k.next m).Reported := by
  have hnext : ∀ {g : Group}, ReportedTo g k.loads → ReportedTo g (k.next m).loads :=
    fun hg => hg.next h hm
  intro i p g hp hg
  by_cases ht : ∃ t, m = .turn t
  · obtain ⟨t, rfl⟩ := ht
    rcases next_turn k t with he | ⟨-, htake⟩
    · rw [he] at hp ⊢
      exact hr i p g hp hg
    · generalize k.next (.turn t) = k' at htake hp hnext ⊢
      cases htake with
      | @run id r _ hrun htr =>
        by_cases hi : i = id
        · subst hi
          obtain ⟨q, hq, hleads⟩ := htr.leads hrun
          rw [hp] at hq
          cases hq
          exact .of_awaited (hleads.awaited hg).1 (hleads.awaited hg).2 _
        · exact hnext (hr i p g ((htr.frame.point? hi).symm.trans hp) hg)
      | load hl hload =>
        refine hnext (hr i p g ?_ hg)
        rw [point?, hload.pending.2.2] at hp
        exact hp
      | report hl hreport =>
        rcases hreport.point? i with hsame | hdelivers
        · rw [hreport.pending.2.2]
          exact hr i p g (hsame.symm.trans hp) hg
        · obtain ⟨q, g₀, result, hq, hg₀, hlp, hd, ha, hp'⟩ := hdelivers
          rw [hp] at hp'
          cases hp'
          rw [Point.group?_withGroup hg₀] at hg
          cases hg
          rw [hreport.pending.2.2]
          exact (hr i q g₀ hq hg₀).report hd hl hlp ha
      | alarm hrun hpt => exact hr i p g hp hg
      | idle => exact hr i p g hp hg
  · rcases next_point? h hm (fun t he => ht ⟨t, he⟩) i with hsame | ⟨-, hnew⟩
    · exact hnext (hr i p g (hsame.symm.trans hp) hg)
    · rw [hp] at hnew
      cases hnew
      cases hg

end Keeper
end StepAtlas
