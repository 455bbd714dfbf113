import StepAtlas.Proofs.Keeper.Succession
import StepAtlas.Proofs.Keeper.Tenure
import StepAtlas.Proofs.Listing

/-
What a run that builds comes to.  From the turn in which it takes the lock a run has a goal, the
catalog of the files as they are then, and whatever else goes on it stays on the way to this goal.
In its last turn it publishes the goal, and the steps are matched in the mode of that time; or it
fails because no such catalog can be built; or its catalog is not wanted any more.  How many files
are loaded together, and in which order the loads of a group end, makes no difference.
-/

namespace StepAtlas
namespace Keeper

/-- A run that holds the lock is on the way to a goal. -/
def Pursues (k : Keeper) (i : Nat) (goal : Except Fault Catalog) : Prop :=
  ∃ r, k.runs[i]? = some r ∧ Drafts k goal r.point

/-- How a run on the way to a goal ends with its turn. -/
inductive Finishes (k : Keeper) (i : Nat) (goal : Except Fault Catalog) (k' : Keeper) : Prop where
  | drops (h : k'.isSuperseded i = true) (he : k'.result? i = some (.ok false))
  | fails (h : ∀ c, (goal >>= fun c => c.rematch k.matcher) ≠ .ok c) (hk : k'.catalog = k.catalog)
      (he : ∃ fault, k'.result? i = some (.error (.failed fault)))
  | publishes {c : Catalog} (h : (goal >>= fun c => c.rematch k.matcher) = .ok c)
    (hp : Publishes k i k')
      (hk : k'.catalog = c.published) (he : k'.result? i = some (toldResult k.announce.2))

theorem Finishes.result? {k k' : Keeper} {i : Nat} {goal : Except Fault Catalog}
    (h : Finishes k i goal k') :
    ∃ result, k'.result? i = some result := by
  cases h with
  | drops _ he => exact ⟨_, he⟩
  | fails _ _ he => exact ⟨_, he.choose_spec⟩
  | publishes _ _ _ he => exact ⟨_, he⟩

theorem result?_publish {k : Keeper} {id : Nat} {r : Run} (hr : k.runs[id]? = some r)
    (c : Catalog) :
    (k.publish id c).result? id = some (toldResult k.announce.2) := by
  obtain ⟨told, subscriptions, he⟩ := publish_eq k id c
  rw [he, result?_eq_some_iff]
  exact point?_finish_self (k := { k with .. }) hr _

theorem Drafts.draft? {k : Keeper} {goal : Except Fault Catalog} {p : Point} (h : Drafts k goal p) :
    ∃ d, p.draft? = some d := by
  cases h with
  | searching | loading | yielding => exact ⟨_, rfl⟩

theorem Drafts.holds {k : Keeper} {goal : Except Fault Catalog} {p : Point} (h : Drafts k goal p) :
    p.holds = true := by
  obtain ⟨d, hd⟩ := h.draft?
  exact Point.holds_of_draft? hd

theorem Drafts.stays {k : Keeper} {goal : Except Fault Catalog} {p q : Point} (h : Drafts k goal p)
    (hq : p.Stays q) :
    Drafts k goal q := by
  cases hq with
  | same => exact h
  | group hg hd hl =>
    cases h with
    | searching | yielding => cases hg
    | loading h hf =>
      cases hg
      exact .loading h (hl ▸ hf)

theorem exists_of_forall₂_right {α β : Type} {R : α → β → Prop} {xs : List α} {ys : List β}
    (h : List.Forall₂ R xs ys) {y : β} (hy : y ∈ ys) : ∃ x ∈ xs, R x y := by
  induction h with
  | nil => cases hy
  | @cons x y' xs ys hxy _ ih =>
    rcases List.mem_cons.mp hy with rfl | hy
    · exact ⟨x, List.mem_cons_self, hxy⟩
    · obtain ⟨x', hx', hr⟩ := ih hy
      exact ⟨x', List.mem_cons_of_mem x hx', hr⟩

/-- A goal that asks for a file whose warning cannot be shown cannot be reached. -/
theorem goal_ne_ok_of_load {k : Keeper} {d : Draft} {files : List Path} {p : Path} (hp : p ∈ files)
    {fault : Fault} (hload : k.site.load d.cls p = .error fault) (c : Catalog) :
    d.goal k files ≠ .ok c := by
  have hall : ∀ {c'}, Catalog.stageAll k.site.workspace k.site.sizeLimit k.catalog d.cls d.staged
      files ≠ .ok c' := by
    intro c' hstage
    obtain ⟨x, hx⟩ := (Site.stageAll_eq_ok_iff.mp hstage).1 p hp
    rw [hload] at hx
    cases hx
  intro hgoal
  unfold Draft.goal at hgoal
  cases hcls : d.cls with
  | feature =>
    rw [hcls] at hgoal hall
    obtain ⟨c₁, h₁, -⟩ := bind_eq_ok_iff.mp hgoal
    exact hall h₁
  | definition =>
    rw [hcls] at hgoal hall
    exact hall hgoal

theorem Finishes.of_goal {k k' : Keeper} {i : Nat} {goal : Except Fault Catalog}
    (hgoal : ∀ c, goal ≠ .ok c) (hk : k'.catalog = k.catalog)
    (he : ∃ fault, k'.result? i = some (.error (.failed fault))) :
    Finishes k i goal k' := by
  refine .fails ?_ hk he
  intro c hc
  obtain ⟨c₁, h₁, -⟩ := bind_eq_ok_iff.mp hc
  exact hgoal c₁ h₁

theorem catalog_giveUp (k : Keeper) (id : Nat) (result : Except Stop Bool) :
    (k.giveUp id result).catalog = k.catalog := by
  obtain ⟨subscriptions, he⟩ := giveUp_eq k id result
  rw [he]
  rfl

section
variable {k k' : Keeper} {i : Nat} {r : Run} {goal : Except Fault Catalog}

theorem Builds.pursues_or_finishes {k₁ : Keeper} {s : Run} {d : Draft} (hb : Builds k₁ i d goal k')
    (hk : Approaches k k₁) (hr : k.runs[i]? = some r) (hj : r.job.refreshes = false)
    (hc : r.canceled = false) (hn : ∀ result, r.point ≠ .finished result)
    (hs : k₁.runs[i]? = some s) (hd : r.staged = d.staged) :
    k'.Pursues i goal ∨ Finishes k i goal k' := by
  have hmode : k₁.matcher = k.matcher := by
    cases hk with
    | intro hp connected current runs timer locked queue => rfl
  have hcatalog : k₁.catalog = k.catalog := by
    cases hk with
    | intro hp connected current runs timer locked queue => rfl
  have hchanged : k₁.changed = k.changed := by
    cases hk with
    | intro hp connected current runs timer locked queue => rfl
  cases hb with
  | searches hset hst hg => exact .inl ⟨_, runs_wait_self hs _, .searching hg⟩
  | @loads d' files rest hset hst hg =>
    have hgroup := startLoads_group k₁ i (files.map fun p => (p, d'.cls, false))
    rw [List.forall₂_map_left_iff] at hgroup
    have hs' : (k₁.startLoads i (files.map fun p => (p, d'.cls, false))).1.runs[i]? = some s := hs
    refine .inl ⟨_, runs_wait_self hs' _, .loading hg (hgroup.imp fun p j hj => ?_)⟩
    exact ⟨_, hj, fun result hp => (by cases hp), rfl, rfl, rfl⟩
  | abandons hw =>
    refine .inr (.drops ?_ (result?_eq_some_iff.mpr (point?_giveUp_self hs _)))
    rw [isSuperseded_congr (Settles.giveUp hs _).superseded]
    exact hw
  | @fails fault hf =>
    refine .inr (.fails ?_ ((catalog_giveUp k₁ i _).trans hcatalog) ⟨fault, ?_⟩)
    · intro c hc
      rw [hmode, hc] at hf
      cases hf
    · exact result?_eq_some_iff.mpr (point?_giveUp_self hs _)
  | @publishes c hw hg hre =>
    rw [hmode] at hre
    refine .inr (.publishes (c := c) ?_ (.of_publish hr hj hc hn hk hs hw (hd ▸ hre)) ?_ ?_)
    · rw [hg]
      exact hre
    · obtain ⟨told, subscriptions, he⟩ := publish_eq k₁ i c
      rw [he]
      rfl
    · rw [← announce_snd_congr hchanged]
      exact result?_publish hs c

/-- A load that a draft waits for has failed, so the goal is out of reach. -/
theorem Drafts.goal_ne_ok_of_stop {p : Point} {g : Group} {fault : Fault} (h : Drafts k goal p)
    (hgroup : p.group? = some g) (hreported : ReportedTo g k.loads)
    (hstop : g.stop = some (.failed fault)) (c : Catalog) :
    goal ≠ .ok c := by
  obtain ⟨j, hj, l, hl, hlp⟩ := hreported.stopped fault hstop
  cases h with
  | searching | yielding => cases hgroup
  | loading hgoal hf =>
    cases hgroup
    obtain ⟨path, hpath, l', hl', hb⟩ := exists_of_forall₂_right hf hj
    obtain rfl : l' = l := Option.some.inj (hl'.symm.trans hl)
    have hload : k.site.load _ path = .error fault := hb.failed hlp
    rw [← hgoal]
    exact goal_ne_ok_of_load (List.mem_append_left _ hpath) hload c

theorem TakesRun.pursues_or_finishes (ht : TakesRun k i r k') (h : Drafts k goal r.point)
    (hr : k.runs[i]? = some r) (hu : k.Undisturbed) (hsuited : RunSuited r) (hreported : k.Reported)
    (hdone : ∀ g, r.point.group? = some g → g.isDone = true) :
    k'.Pursues i goal ∨ Finishes k i goal k' := by
  -- A run with a draft builds, has not ended and was not told to stop.
  obtain ⟨d, hd⟩ := h.draft?
  have hj : r.job.refreshes = false := hsuited.draft d hd
  have hn : ∀ result, r.point ≠ .finished result := by
    intro result hp
    rw [hp] at hd
    cases hd
  have hc : r.canceled = false :=
    hu.not_canceled hr (Point.isEarly_of_holds (.inr (by rw [hd]; rfl))) hn
  have hbuilds : ∀ {d : Draft} {goal' : Except Fault Catalog}, r.point.draft? = some d →
      goal' = goal → Builds k i d goal' k' → k'.Pursues i goal ∨ Finishes k i goal k' := by
    rintro d goal' hd rfl hb
    exact hb.pursues_or_finishes (.refl k) hr hj hc hn hr (Run.staged_of_draft? hd)
  cases ht with
  | rests hp => exact absurd hp (hn _)
  | stops hp hcan => rw [hc] at hcan; cases hcan
  | queues hc' ha hl | enters hc' ha hl hq he => rw [ha.draft?] at hd; cases hd
  | resumes hp hc' hb =>
    rw [hp] at h
    cases h with
    | searching hg => exact hbuilds (by rw [hp]; rfl) hg hb
  | @yields d g rest hp hc' hg hs =>
    rw [hp] at h
    cases h with
    | loading hgoal hf =>
      have hgroup : r.point.group? = some g := by rw [hp]; rfl
      have hended : ∀ j ∈ g.loads, Ended k.loads j :=
        fun j hj => hreported.ended (point?_of_run hr) hgroup hg (hdone g hgroup) hj
      have hnext : (k.enterLoads d g).goal k rest = goal :=
        (Draft.goal_append (stageAll_enterLoads hf hended) rfl rfl rest).symm.trans hgoal
      exact .inl ⟨_, runs_wait_self (k := { k with ready := _ }) hr _, .yielding hnext⟩
  | continues hp hc' hb =>
    rw [hp] at h
    cases h with
    | yielding hg => exact hbuilds (by rw [hp]; rfl) hg hb
  | @givesUp d result hp hg =>
    refine .inr ?_
    have hend : (k.giveUp i result).result? i = some result :=
      result?_eq_some_iff.mpr (point?_giveUp_self hr _)
    cases hg with
    | canceled hcan => rw [hc] at hcan; cases hcan
    | superseded hs =>
      refine .drops ?_ hend
      rw [isSuperseded_congr (Settles.giveUp hr _).superseded]
      exact hs
    | @stopped g stop hgroup hstop =>
      cases stop with
      | canceled => exact absurd hstop ((hu.run i r hr).group g hgroup).2
      | failed fault =>
        refine .of_goal ?_ (catalog_giveUp k i _) ⟨fault, hend⟩
        exact h.goal_ne_ok_of_stop hgroup (hreported i r.point g (point?_of_run hr) hgroup) hstop
  | leaves hp | breaks hp | applies hp | sleeps hp | quits hp | admitted hp =>
    rw [hp] at hd; cases hd

end

/-! ## Whole courses -/

/-- A run that builds takes the lock with its next turn. -/
structure Begins (k : Keeper) (i : Nat) : Prop where
  ready : Turn.run i ∈ k.ready
  run : ∃ r, k.runs[i]? = some r ∧ r.job.refreshes = false ∧ r.canceled = false ∧
    (r.point = .queued ∨ (r.point = .created ∧ k.locked = false ∧ k.queue = []))

theorem Finishes.of_ready {k k' : Keeper} {ready : List Turn} {i : Nat}
    {goal : Except Fault Catalog} (h : Finishes { k with ready } i goal k') :
    Finishes k i goal k' := by
  cases h with
  | drops h he => exact .drops h he
  | fails h hk he => exact .fails h hk he
  | publishes h hp hk he =>
    exact .publishes h ⟨hp.staged, hp.told, hp.unfinished, hp.wanted, hp.ended⟩ hk
      (he.trans (congrArg (fun fault => some (toldResult fault)) (announce_snd_congr rfl)))

theorem Begins.pursues_or_finishes {k : Keeper} {i : Nat} (h : k.Begins i) :
    (k.next (.turn (.run i))).Pursues i k.newGoal ∨
      Finishes k i k.newGoal (k.next (.turn (.run i))) := by
  obtain ⟨r, hr, hj, hc, hpoint⟩ := h.run
  have htakes := (goes_of_ready hr h.ready).takes
  generalize k.next (.turn (.run i)) = k' at htakes ⊢
  have hdraft : r.point.draft? = none := by
    rcases hpoint with hp | ⟨hp, -⟩ <;> rw [hp] <;> rfl
  have hn : ∀ result, r.point ≠ .finished result := by
    rcases hpoint with hp | ⟨hp, -⟩ <;> simp [hp]
  have henters : ∀ {k₁ : Keeper} {s : Run}, Approaches { k with ready := k.ready.erase (.run i) }
      k₁ → k₁.runs[i]? = some s → Enters k₁ i r.job k' → k'.Pursues i k.newGoal ∨
      Finishes k i k.newGoal k' := by
    intro k₁ s hk hs he
    have hgoal : k₁.newGoal = k.newGoal := by
      cases hk with
      | intro hp connected current runs timer locked queue =>
        exact newGoal_congr rfl (sameEntries_refl _)
    cases he with
    | builds _ hb =>
      rw [hgoal] at hb
      exact (hb.pursues_or_finishes hk hr hj hc hn hs
        (Run.staged_of_draft?_eq_none hdraft)).imp_right Finishes.of_ready
    | idles hj' | takesOver hj' => rw [hj] at hj'; cases hj'
  cases htakes with
  | rests hp => exact absurd hp (hn _)
  | stops hp hcan | quits hp hcan => rw [hc] at hcan; cases hcan
  | sleeps hp hjob => rw [hjob] at hj; cases hj
  | queues _ ha hl =>
    rcases hpoint with hp | ⟨-, hfree, hq⟩
    · exact absurd hp ha.point_ne_queued
    · rcases hl with hl | hl
      · rw [show k.locked = true from hl] at hfree
        cases hfree
      · exact absurd hq hl
  | enters _ ha _ _ he =>
    obtain ⟨superseded, hs⟩ := ha.run hr
    exact henters ha.approaches hs he
  | admitted hp _ he => exact henters (.intro rfl _ _ _ _ _ _) hr he
  | resumes hp | yields hp | continues hp | leaves hp | breaks hp | applies hp =>
    rcases hpoint with hp' | ⟨hp', -⟩ <;> rw [hp] at hp' <;> cases hp'
  | givesUp hp => rw [hdraft] at hp; cases hp

/-- Whatever happens besides, a run stays on the way to its goal until its last turn. -/
theorem next_pursues {k : Keeper} (hk : k.Reachable) {m : Move} (hd : (k.next m).disposed = false)
    (he : ∀ w, m ≠ .edit w) {i : Nat} {goal : Except Fault Catalog} (h : k.Pursues i goal) :
    (k.next m).Pursues i goal ∨ Finishes k i goal (k.next m) := by
  obtain ⟨r, hr, hdrafts⟩ := h
  obtain ⟨hm, hd₀⟩ := next_disposed_eq_false.mp hd
  have hu := hk.undisturbed hd₀
  by_cases hi : m = .turn (.run i)
  · subst hi
    rcases next_turn_run k i with ⟨-, ready, hsame⟩ | ⟨s, hs, hgoes⟩
    · rw [hsame]
      exact .inl ⟨r, hr, hdrafts.keep rfl rfl (sameEntries_refl _) fun _ _ _ h => h⟩
    · rw [hr] at hs
      cases hs
      have hdone := fun g hg => hk.orderly.awaits i r g hr hg hgoes.ready
      have htakes := hgoes.takes
      generalize k.next (.turn (.run i)) = k' at htakes
      have hreported := hk.reported hd₀
      refine (htakes.pursues_or_finishes ?_ hr hu (hk.suited i r hr) hreported hdone).imp_right
        Finishes.of_ready
      exact hdrafts.keep rfl rfl (sameEntries_refl _) fun _ _ _ h => h
  · obtain ⟨r', hr', -, hstays | hgoes⟩ := next_run hr m
    · obtain ⟨hw, hl⟩ := next_files hu hm he
      have hentries := next_sameEntries_of_holds hu hk.orderly hm hr hdrafts.holds hi
      have hkept := hdrafts.keep hw hl hentries fun _ _ _ => next_brings_of_files hu hm he
      exact .inl ⟨r', hr', hkept.stays hstays⟩
    · exact absurd hgoes.move hi

theorem Pursues.result? {k : Keeper} {i : Nat} {goal : Except Fault Catalog}
    (h : k.Pursues i goal) :
    k.result? i = none := by
  obtain ⟨r, hr, hdrafts⟩ := h
  rw [result?_eq_none_iff hr]
  intro result hp
  rw [hp] at hdrafts
  cases hdrafts

theorem begun_of_result? {k : Keeper} {i : Nat} {result : Except Stop Bool}
    (h : k.result? i = some result) :
    k.Begun i := by
  obtain ⟨r, hr, hp⟩ := Option.map_eq_some_iff.mp (result?_eq_some_iff.mp h)
  exact ⟨r, hr, by rw [hp]; simp⟩

/-- A keeper that is not ended was not ended before. -/
theorem moment_not_disposed {k : Keeper} {ms : List Move} {t u : Nat} (htu : t ≤ u)
    (h : (k.moment ms u).disposed = false) : (k.moment ms t).disposed = false := by
  by_contra hd
  have hlater : (k.moment ms u).disposed = true :=
    moment_induction (P := fun k => k.disposed = true) (by simpa using hd)
      (fun _ m _ _ hk => (next_disposed _ m).mpr (.inr hk)) htu
  rw [h] at hlater
  cases hlater

/-- A run that builds takes the lock with the first move of a course, and no file changes in the
course. -/
structure Course (k : Keeper) (ms : List Move) (i : Nat) : Prop where
  reachable : k.Reachable
  begins : k.Begins i
  first : ms[0]? = some (.turn (.run i))
  files : ∀ w, Move.edit w ∉ ms

namespace Course
variable {k : Keeper} {ms : List Move} {i : Nat} (h : k.Course ms i)

include h

theorem moment_reachable (t : Nat) : (k.moment ms t).Reachable :=
  h.reachable.after fun w hw => absurd (List.mem_of_mem_take hw) (h.files w)

theorem ne_edit {t : Nat} {m : Move} (hm : ms[t]? = some m) (w : Workspace) : m ≠ .edit w := by
  rintro rfl
  exact h.files w (List.mem_of_getElem? hm)

theorem pursues {t : Nat} (ht : 0 < t) (hd : (k.moment ms t).disposed = false)
    (hn : (k.moment ms t).result? i = none) : (k.moment ms t).Pursues i k.newGoal := by
  induction ht with
  | refl =>
    rw [moment_succ h.first] at hn ⊢
    rcases h.begins.pursues_or_finishes with hp | hf
    · exact hp
    · obtain ⟨result, hresult⟩ := hf.result?
      cases hn.symm.trans hresult
  | @step t ht ih =>
    cases hm : ms[t]? with
    | none =>
      rw [moment_succ_of_none hm] at hd hn ⊢
      exact ih hd hn
    | some m =>
      have hn₀ : (k.moment ms t).result? i = none := by
        cases hresult : (k.moment ms t).result? i with
        | none => rfl
        | some result => cases hn.symm.trans (moment_result? hresult (Nat.le_succ t))
      rw [moment_succ hm] at hd hn ⊢
      obtain ⟨-, hd₀⟩ := next_disposed_eq_false.mp hd
      rcases next_pursues (h.moment_reachable t) hd (h.ne_edit hm) (ih hd₀ hn₀) with hp | hf
      · exact hp
      · obtain ⟨result, hresult⟩ := hf.result?
        cases hn.symm.trans hresult

theorem unfinished : (k.moment ms 0).result? i = none := by
  obtain ⟨r, hr, -, -, hp⟩ := h.begins.run
  refine (result?_eq_none_iff hr).mpr fun result hresult => ?_
  rw [hresult] at hp
  simp at hp

/-- The turn in which the run ends. -/
theorem finishes {t : Nat} {result : Except Stop Bool} (hd : (k.moment ms (t + 1)).disposed = false)
    (hn : (k.moment ms t).result? i = none) (he : (k.moment ms (t + 1)).result? i = some result) :
    Finishes (k.moment ms t) i k.newGoal (k.moment ms (t + 1)) := by
  cases hm : ms[t]? with
  | none =>
    rw [moment_succ_of_none hm, hn] at he
    cases he
  | some m =>
    rw [moment_succ hm] at hd he ⊢
    have hnot : ¬ ((k.moment ms t).next m).Pursues i k.newGoal := fun hp => by
      cases hp.result?.symm.trans he
    cases t with
    | zero =>
      obtain rfl : Move.turn (.run i) = m := Option.some.inj (h.first.symm.trans hm)
      exact h.begins.pursues_or_finishes.resolve_left hnot
    | succ t =>
      obtain ⟨-, hd₀⟩ := next_disposed_eq_false.mp hd
      have hp := h.pursues (Nat.succ_pos t) hd₀ hn
      exact (next_pursues (h.moment_reachable (t + 1)) hd (h.ne_edit hm) hp).resolve_left hnot

/-- The run has ended when no turn is left and nothing is held back. -/
theorem ended (hd : (k.after ms).disposed = false) (hready : (k.after ms).ready = [])
    (hheld : (k.after ms).held = []) :
    ∃ result, (k.after ms).result? i = some result := by
  rw [← moment_length] at hd hready hheld ⊢
  by_contra hnone
  have hn : (k.moment ms ms.length).result? i = none :=
    Option.eq_none_iff_forall_ne_some.mpr fun result hresult =>
      hnone ⟨result, hresult⟩
  have hpos : 0 < ms.length := (List.getElem?_eq_some_iff.mp h.first).1
  obtain ⟨r, hr, hdrafts⟩ := h.pursues hpos hd hn
  rcases (h.moment_reachable _).live.ended hready hheld hr with ⟨result, hp⟩ | ⟨time, hp⟩
  · rw [hp] at hdrafts
    cases hdrafts
  · rw [hp] at hdrafts
    cases hdrafts

end Course

/-- The goal of a run is the catalog that is built from the files, up to matching. -/
theorem build_eq (k : Keeper) (matcher : Matcher) :
    Catalog.build k.workspace k.settings matcher k.sizeLimit k.catalog =
      (k.newGoal >>= fun c => c.rematch matcher) >>= fun c => pure c.published := by
  unfold Catalog.build newGoal
  cases k.workspace.search k.settings.excludeGlobs k.settings.featureGlobs with
  | error fault => rfl
  | ok files => simp only [newDraft, Draft.goal, bind_assoc]

/-- The goal can be reached if nothing fails on the way, and it lists the files then. -/
theorem lists_of_newGoal {k : Keeper} (hk : k.Stamped) {matcher : Matcher} {c : Catalog}
    (h : (k.newGoal >>= fun c => c.rematch matcher) = .ok c) :
    k.site.Fine matcher k.catalog ∧ k.site.Lists matcher k.catalog c.published := by
  have hbuild : Catalog.build k.site.workspace k.site.settings matcher k.site.sizeLimit k.catalog =
      .ok c.published := by
    refine (build_eq k matcher).trans ?_
    rw [h]
    rfl
  obtain ⟨hwarns, hlists⟩ := (Site.build_eq_ok_iff (s := k.site) hk.stamps hk.catalog).mp hbuild
  exact ⟨Site.exists_lists_iff.mp ⟨hwarns, _, hlists⟩, hlists⟩

theorem exists_newGoal {k : Keeper} (hk : k.Stamped) {matcher : Matcher}
    (h : k.site.Fine matcher k.catalog) :
    ∃ c, (k.newGoal >>= fun c => c.rematch matcher) = .ok c := by
  obtain ⟨hwarns, c, hlists⟩ := Site.exists_lists_iff.mpr h
  have hbuild := (Site.build_eq_ok_iff (s := k.site) hk.stamps hk.catalog).mpr ⟨hwarns, hlists⟩
  obtain ⟨c', hc', -⟩ := bind_eq_ok_iff.mp ((build_eq k matcher).symm.trans hbuild)
  exact ⟨c', hc'⟩

/-- A run that is still wanted in its last turn publishes a catalog that lists the files, or
something fails. -/
theorem Finishes.outcome {k₀ k k' : Keeper} (hk : k₀.Stamped) {i : Nat}
    (h : Finishes k i k₀.newGoal k') (hw : k'.isSuperseded i = false) :
    (k₀.site.Fine k.matcher k₀.catalog ∧ Publishes k i k' ∧
      k₀.site.Lists k.matcher k₀.catalog k'.catalog ∧
        k'.result? i = some (toldResult k.announce.2)) ∨
      (¬ k₀.site.Fine k.matcher k₀.catalog ∧
        (∃ fault, k'.result? i = some (.error (.failed fault))) ∧
          k'.catalog = k.catalog) := by
  cases h with
  | drops hsup => rw [hw] at hsup; cases hsup
  | fails hgoal hcatalog hfault =>
    refine .inr ⟨fun hfine => ?_, hfault, hcatalog⟩
    obtain ⟨c, hc⟩ := exists_newGoal hk hfine
    exact hgoal c hc
  | publishes hgoal hp hcatalog hresult =>
    obtain ⟨hfine, hlists⟩ := lists_of_newGoal hk hgoal
    exact .inl ⟨hfine, hp, hcatalog ▸ hlists, hresult⟩

/-- What a run that builds comes to, in whatever order turns are taken and whatever else is asked of
the keeper meanwhile.  When no turn is left it has ended.  It publishes the one catalog that lists
the files, or it fails, and the catalog stays as it is, because something fails that has to be done
for that. -/
theorem rebuild_lists {k : Keeper} {ms : List Move} {i : Nat} (h : k.Course ms i)
    (hd : (k.after ms).disposed = false) (hw : (k.after ms).isSuperseded i = false) :
    ((k.after ms).ready = [] → (k.after ms).held = [] →
      ∃ result, (k.after ms).result? i = some result) ∧
      ∀ result, (k.after ms).result? i = some result →
        ∃ t matcher, t < ms.length ∧ (k.moment ms t).matcher = matcher ∧
        ((k.site.Fine matcher k.catalog ∧ k.PublishedAt ms i t ∧
            ∀ c, k.site.Lists matcher k.catalog c ↔ c = (k.moment ms (t + 1)).catalog) ∨
          (¬ k.site.Fine matcher k.catalog ∧ (∃ fault, result = .error (.failed fault)) ∧
            (k.moment ms (t + 1)).catalog = (k.moment ms t).catalog)) := by
  refine ⟨h.ended hd, ?_⟩
  intro result hend
  rw [← moment_length] at hd hw hend
  obtain ⟨t, r, -, hlt, hr, hn, hm, -, he⟩ := exists_end h.unfinished (Nat.zero_le _) hend
  have hd' : (k.moment ms (t + 1)).disposed = false := moment_not_disposed hlt hd
  have hw' : (k.moment ms (t + 1)).isSuperseded i = false := by
    by_contra hsup
    have hlate : (k.moment ms ms.length).Begun i ∧ (k.moment ms ms.length).isSuperseded i = true :=
      moment_induction (P := fun k => k.Begun i ∧ k.isSuperseded i = true)
        ⟨begun_of_result? he, by simpa using hsup⟩
        (fun _ m _ _ hk => ⟨next_begun hk.1 m, next_isSuperseded_of_begun hk.1 hk.2 m⟩) hlt
    rw [hw] at hlate
    cases hlate.2
  have hfinishes := h.finishes hd' ((result?_eq_none_iff hr).mpr hn) he
  refine ⟨t, _, hlt, rfl, ?_⟩
  rcases hfinishes.outcome h.reachable.stamped hw' with ⟨hfine, hp, hlists, -⟩
    | ⟨hfine, ⟨fault, hfault⟩, hsame⟩
  · exact .inl ⟨hfine, ⟨hm, hp⟩, fun c => ⟨hlists.unique, fun hc => hc ▸ hlists⟩⟩
  · exact .inr ⟨hfine, ⟨fault, Option.some.inj (he.symm.trans hfault)⟩, hsame⟩

/-- A keeper that loads two of its three files together and is asked to build its catalog. -/
def paired : Keeper :=
  (new (inMemory (twoFiles ++ [(shortPath 'f' 'b', [.scalar 'y'])]))
    (.new .boundless default shortSettings) 2 1000 500 false).next
    .rebuild

/-- The second of two files is loaded before the first, and the mode is switched in between. -/
def crossing : List Move :=
  [.turn (.run 0), .turn (.load 1), .turn (.report 1), .switchMode .expressionOnly, .turn (.load 0),
    .turn (.report 0), .turn (.run 0), .turn (.run 0), .turn (.load 2), .turn (.report 2),
    .turn (.run 0), .turn (.run 0)]

theorem paired_course : paired.Course crossing 0 where
  reachable := by
    refine (Reachable.new (inMemory_stamps _) _ 2 _ _ _ Catalog.empty_stamped).next ?_
    intro w hw
    cases hw
  begins := ⟨by decide +kernel, _, rfl, rfl, rfl, .inr ⟨rfl, rfl, rfl⟩⟩
  first := rfl
  files := by
    intro w hw
    simp [crossing] at hw

theorem rebuild_lists_crossing :
    (paired.after crossing).result? 0 = some (.ok true) ∧
      ∃ t, paired.PublishedAt crossing 0 t ∧
        paired.site.Lists (paired.moment crossing t).matcher paired.catalog
          (paired.moment crossing (t + 1)).catalog := by
  have hd : (paired.after crossing).disposed = false := by decide +kernel
  have hw : (paired.after crossing).isSuperseded 0 = false := by decide +kernel
  have hend : (paired.after crossing).result? 0 = some (.ok true) := by decide +kernel
  obtain ⟨t, _, -, rfl, ⟨-, hp, hlists⟩ | ⟨-, ⟨fault, hfault⟩, -⟩⟩ :=
    (rebuild_lists paired_course hd hw).2 _ hend
  · exact ⟨hend, t, hp, (hlists _).mpr rfl⟩
  · cases hfault

end Keeper
end StepAtlas
