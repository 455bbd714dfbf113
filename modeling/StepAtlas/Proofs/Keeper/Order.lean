import StepAtlas.Proofs.Keeper.Moves
import StepAtlas.Proofs.Keeper.Turns

/-
The order of work: who holds the lock, who waits for it, and whose turn can come.

At most one run holds the lock.  The lock is handed on by giving the first run of the queue a turn,
and that run takes it without looking again, so mutual exclusion rests on what `ready` can hold: a
run of the queue has a turn only while the lock is free and no other run of the queue has one.  In
the same way a run that waits for loads has a turn only when its group is done.  All of this is kept
by every move, dispose included.
-/

namespace StepAtlas

def Point.holds : Point → Bool
  | .searching _ _ _ _ | .loading _ _ _ | .yielding _ _ | .applying _ _ => true
  | _ => false

theorem Point.holds_of_draft? {p : Point} {d : Draft} (h : p.draft? = some d) : p.holds = true := by
  cases p with
  | searching | loading | yielding => rfl
  | _ => cases h

theorem Point.group?_of_isInterruptible {p : Point} (h : p.isInterruptible = true) :
    p.group? = none := by
  cases p with
  | loading | applying => cases h
  | _ => rfl

theorem Point.holds_of_group? {p : Point} {g : Group} (h : p.group? = some g) : p.holds = true := by
  cases p with
  | loading | applying => rfl
  | _ => cases h

namespace Keeper

structure OrderlyParts (locked : Bool) (queue : List Nat) (runs : List Run) (ready : List Turn) :
    Prop where
  holds : ∀ (i : Nat) (r : Run), runs[i]? = some r → r.point.holds = true → locked = true
  alone : ∀ (i j : Nat) (r s : Run), runs[i]? = some r → runs[j]? = some s → r.point.holds = true →
    s.point.holds = true → i = j
  queued : ∀ i ∈ queue, ∃ r, runs[i]? = some r ∧ r.point = .queued
  nodup : queue.Nodup
  /-- A run of the queue has its turn when the lock is free for it, or when it was told to stop. -/
  summoned : ∀ (i : Nat) (r : Run), runs[i]? = some r → r.point = .queued → r.canceled = false →
    Turn.run i ∈ ready → locked = false ∧ queue.head? = some i
  once : ∀ i, ready.count (Turn.run i) ≤ 1
  awaits : ∀ (i : Nat) (r : Run) (g : Group), runs[i]? = some r → r.point.group? = some g →
    Turn.run i ∈ ready → g.isDone = true
  known : ∀ i, Turn.run i ∈ ready → i < runs.length

def Orderly (k : Keeper) : Prop := OrderlyParts k.locked k.queue k.runs k.ready

namespace Orderly

/-! ## Fields -/

/-- A run may wait elsewhere if it has the right to wait there. -/
theorem wait {k : Keeper} (h : k.Orderly) {id : Nat} {p : Point} (hq : id ∈ k.queue → p = .queued)
    (hh : p.holds = true → k.locked = true ∧ ∀ (j : Nat) (s : Run), k.runs[j]? = some s →
      s.point.holds = true → j = id)
    (hr : Turn.run id ∈ k.ready → p ≠ .queued ∧ ∀ g, p.group? = some g → g.isDone = true) :
    (k.wait id p).Orderly where
  holds := by
    intro i r hi hp
    rcases of_runs_wait hi with ⟨rfl, r₀, -, rfl⟩ | ⟨-, hi⟩
    · exact (hh hp).1
    · exact h.holds i r hi hp
  alone := by
    intro i j r s hi hj hri hsj
    rcases of_runs_wait hi with ⟨rfl, r₀, -, rfl⟩ | ⟨-, hi'⟩
    · rcases of_runs_wait hj with ⟨rfl, s₀, -, rfl⟩ | ⟨-, hj'⟩
      · rfl
      · exact ((hh hri).2 j s hj' hsj).symm
    · rcases of_runs_wait hj with ⟨rfl, s₀, -, rfl⟩ | ⟨-, hj'⟩
      · exact (hh hsj).2 i r hi' hri
      · exact h.alone i j r s hi' hj' hri hsj
  queued := by
    intro i hi
    obtain ⟨r, hr₀, hp⟩ := h.queued i hi
    by_cases hid : i = id
    · subst hid
      exact ⟨_, runs_wait_self hr₀ p, hq hi⟩
    · exact ⟨r, (runs_wait_of_ne hid p).trans hr₀, hp⟩
  nodup := h.nodup
  summoned := by
    intro i r hi hp hc ht
    rcases of_runs_wait hi with ⟨rfl, r₀, -, rfl⟩ | ⟨-, hi⟩
    · exact absurd hp (hr ht).1
    · exact h.summoned i r hi hp hc ht
  once := h.once
  awaits := by
    intro i r g hi hg ht
    rcases of_runs_wait hi with ⟨rfl, r₀, -, rfl⟩ | ⟨-, hi⟩
    · exact (hr ht).2 g hg
    · exact h.awaits i r g hi hg ht
  known := by
    intro i ht
    have hlen : (k.wait id p).runs.length = k.runs.length := by simp [Keeper.wait, modifyRun]
    rw [hlen]
    exact h.known i ht

/-- Runs may be told to stop, or that their catalog is not wanted. -/
theorem runs {k : Keeper} (h : k.Orderly) {runs : List Run} (hlen : runs.length = k.runs.length)
    (hruns : ∀ (i : Nat) (r : Run), runs[i]? = some r → ∃ r₀, k.runs[i]? = some r₀ ∧
      r.point = r₀.point ∧ (r₀.canceled = true → r.canceled = true)) : { k with runs }.Orderly where
  holds := by
    intro i r hi hp
    obtain ⟨r₀, hr₀, he, -⟩ := hruns i r hi
    exact h.holds i r₀ hr₀ (he ▸ hp)
  alone := by
    intro i j r s hi hj hri hsj
    obtain ⟨r₀, hr₀, he, -⟩ := hruns i r hi
    obtain ⟨s₀, hs₀, he', -⟩ := hruns j s hj
    exact h.alone i j r₀ s₀ hr₀ hs₀ (he ▸ hri) (he' ▸ hsj)
  queued := by
    intro i hi
    obtain ⟨r₀, hr₀, hp⟩ := h.queued i hi
    have hlt : i < runs.length := by
      rw [hlen]
      exact (List.getElem?_eq_some_iff.mp hr₀).1
    obtain ⟨r₁, hr₁, he, -⟩ := hruns i runs[i] (List.getElem?_eq_getElem hlt)
    rw [hr₀] at hr₁
    cases hr₁
    exact ⟨runs[i], List.getElem?_eq_getElem hlt, he.trans hp⟩
  nodup := h.nodup
  summoned := by
    intro i r hi hp hc ht
    obtain ⟨r₀, hr₀, he, hcan⟩ := hruns i r hi
    have hc₀ : r₀.canceled = false := by
      cases hr : r₀.canceled with
      | false => rfl
      | true => rw [hcan hr] at hc; cases hc
    exact h.summoned i r₀ hr₀ (he ▸ hp) hc₀ ht
  once := h.once
  awaits := by
    intro i r g hi hg ht
    obtain ⟨r₀, hr₀, he, -⟩ := hruns i r hi
    exact h.awaits i r₀ g hr₀ (he ▸ hg) ht
  known := by
    intro i ht
    show i < runs.length
    rw [hlen]
    exact h.known i ht

theorem modifyRun {k : Keeper} (h : k.Orderly) (id : Nat) {f : Run → Run}
    (hp : ∀ r, (f r).point = r.point) (hc : ∀ r, r.canceled = true → (f r).canceled = true) :
    (k.modifyRun id f).Orderly := by
  refine h.runs (by simp) ?_
  intro i r hi
  rw [List.getElem?_modify] at hi
  obtain ⟨r₀, hr₀, rfl⟩ := Option.map_eq_some_iff.mp hi
  refine ⟨r₀, hr₀, ?_, ?_⟩
  · split
    · exact hp r₀
    · rfl
  · intro hcan
    split
    · exact hc r₀ hcan
    · exact hcan

/-- Turns of loads, reports and alarms do not matter. -/
theorem ready_append {k : Keeper} (h : k.Orderly) (ts : List Turn) (hts : ∀ i, Turn.run i ∉ ts) :
    { k with ready := k.ready ++ ts }.Orderly where
  holds := h.holds
  alone := h.alone
  queued := h.queued
  nodup := h.nodup
  summoned := by
    intro i r hi hp hc ht
    exact h.summoned i r hi hp hc ((List.mem_append.mp ht).resolve_right (hts i))
  once := by
    intro i
    show (k.ready ++ ts).count (Turn.run i) ≤ 1
    rw [List.count_append, List.count_eq_zero.mpr (hts i)]
    exact h.once i
  awaits := by
    intro i r g hi hg ht
    exact h.awaits i r g hi hg ((List.mem_append.mp ht).resolve_right (hts i))
  known := fun i ht => h.known i ((List.mem_append.mp ht).resolve_right (hts i))

theorem ready_run {k : Keeper} (h : k.Orderly) {id : Nat} {r : Run} (hr : k.runs[id]? = some r)
    (hn : Turn.run id ∉ k.ready)
    (hq : r.point = .queued → r.canceled = false → k.locked = false ∧ k.queue.head? = some id)
    (hg : ∀ g, r.point.group? = some g → g.isDone = true) :
    { k with ready := k.ready ++ [Turn.run id] }.Orderly where
  holds := h.holds
  alone := h.alone
  queued := h.queued
  nodup := h.nodup
  summoned := by
    intro i s hi hp hc ht
    rcases List.mem_append.mp ht with ht | ht
    · exact h.summoned i s hi hp hc ht
    · rw [List.mem_singleton, Turn.run.injEq] at ht
      subst ht
      rw [hr] at hi
      cases hi
      exact hq hp hc
  once := by
    intro i
    show (k.ready ++ [Turn.run id]).count (Turn.run i) ≤ 1
    have h₁ := h.once i
    by_cases hi : i = id
    · subst hi
      have h₀ : k.ready.count (Turn.run i) = 0 := List.count_eq_zero.mpr hn
      simp [h₀]
    · have h₀ : [Turn.run id].count (Turn.run i) = 0 := by
        rw [List.count_eq_zero]
        simpa using hi
      rw [List.count_append, h₀]
      exact h₁
  awaits := by
    intro i s g hi hgr ht
    rcases List.mem_append.mp ht with ht | ht
    · exact h.awaits i s g hi hgr ht
    · rw [List.mem_singleton, Turn.run.injEq] at ht
      subst ht
      rw [hr] at hi
      cases hi
      exact hg g hgr
  known := by
    intro i ht
    rcases List.mem_append.mp ht with ht | ht
    · exact h.known i ht
    · rw [List.mem_singleton, Turn.run.injEq] at ht
      subst ht
      exact (List.getElem?_eq_some_iff.mp hr).1

theorem addTurn_run {k : Keeper} (h : k.Orderly) {id : Nat} {r : Run} (hr : k.runs[id]? = some r)
    (hq : r.point = .queued → r.canceled = false → k.locked = false ∧ k.queue.head? = some id)
    (hg : ∀ g, r.point.group? = some g → g.isDone = true) :
    { k with ready := addTurn k.ready (.run id) }.Orderly := by
  unfold addTurn
  split
  · exact h
  · rename_i hn
    exact h.ready_run hr (by simpa using hn) hq hg

/-- The lock is given back: the first run of the queue has a turn. -/
theorem unlock {k : Keeper} (h : k.Orderly)
    (hno : ∀ (i : Nat) (r : Run), k.runs[i]? = some r → r.point.holds = false) :
    { k with locked := false, ready := callHead k.ready k.queue }.Orderly := by
  have hfree : { k with locked := false }.Orderly := by
    refine ⟨?_, h.alone, h.queued, h.nodup, ?_, h.once, h.awaits, h.known⟩
    · intro i r hi hp
      rw [hno i r hi] at hp
      cases hp
    · intro i r hi hp hc ht
      exact ⟨rfl, (h.summoned i r hi hp hc ht).2⟩
  cases hq : k.queue with
  | nil =>
    rw [callHead]
    exact hq ▸ hfree
  | cons i rest =>
    obtain ⟨r, hr, hp⟩ := h.queued i (hq ▸ List.mem_cons_self)
    have hcall :=
      hfree.addTurn_run hr (fun _ _ => ⟨rfl, by rw [hq]; rfl⟩) (by rw [hp]; simp [Point.group?])
    rw [callHead]
    exact hq ▸ hcall

end Orderly

/-! ## Turns -/

/-- A run holds the lock, and has no other turn than the one that it is taking. -/
structure Entered (k : Keeper) (id : Nat) : Prop where
  orderly : k.Orderly
  locked : k.locked = true
  alone : ∀ (j : Nat) (s : Run), k.runs[j]? = some s → s.point.holds = true → j = id
  notQueued : id ∉ k.queue
  noTurn : Turn.run id ∉ k.ready

/-- A run at a point that does not wait for the lock is not in the queue. -/
theorem Orderly.not_mem_queue {k : Keeper} (h : k.Orderly) {id : Nat} {r : Run}
    (hr : k.runs[id]? = some r) (hp : r.point ≠ .queued) : id ∉ k.queue := by
  intro hq
  obtain ⟨r', hr', hp'⟩ := h.queued id hq
  rw [hr] at hr'
  cases hr'
  exact hp hp'

theorem Orderly.entered {k : Keeper} (h : k.Orderly) {id : Nat} {r : Run}
    (hr : k.runs[id]? = some r) (hid : Turn.run id ∉ k.ready) (hp : r.point.holds = true) :
    Entered k id where
  orderly := h
  locked := h.holds id r hr hp
  alone := fun j s hj hs => h.alone j id s r hj hr hs hp
  notQueued := h.not_mem_queue hr (by rintro he; rw [he] at hp; cases hp)
  noTurn := hid

/-- A run that waits for loads has no turn. -/
theorem Orderly.entered_of_group {k : Keeper} (h : k.Orderly) {id : Nat} {r : Run} {g : Group}
    (hr : k.runs[id]? = some r) (hg : r.point.group? = some g) (hd : g.isDone = false) :
    Entered k id := by
  refine h.entered hr ?_ (Point.holds_of_group? hg)
  intro ht
  rw [h.awaits id r g hr hg ht] at hd
  cases hd

namespace Entered
variable {k k' : Keeper} {id : Nat}

/-- The run holds the lock, so any point may be its next. -/
theorem wait (h : Entered k id) (p : Point) : (k.wait id p).Orderly :=
  h.orderly.wait (fun hq => absurd hq h.notQueued) (fun _ => ⟨h.locked, h.alone⟩)
    (fun ht => absurd ht h.noTurn)

theorem finish (h : Entered k id) (result : Except Stop Bool) :
    ({ k with locked := false, ready := callHead k.ready k.queue }.finish id result).Orderly := by
  have hend : (k.finish id result).Orderly :=
    h.orderly.wait (fun hq => absurd hq h.notQueued) (fun hp => by cases hp)
      (fun ht => absurd ht h.noTurn)
  refine Orderly.unlock hend ?_
  intro i r hi
  rcases of_runs_wait hi with ⟨rfl, r₀, -, rfl⟩ | ⟨hne, hi⟩
  · rfl
  · by_contra hp
    exact hne (h.alone i r hi (by simpa using hp))

theorem giveUp (h : Entered k id) (result : Except Stop Bool) : (k.giveUp id result).Orderly := by
  obtain ⟨subscriptions, he⟩ := giveUp_eq k id result
  rw [he]
  exact h.finish result

theorem leave (h : Entered k id) (result : Except Stop Bool) : (k.leave id result).Orderly := by
  rw [leave_eq]
  exact h.finish result

theorem publish (h : Entered k id) (c : Catalog) : (k.publish id c).Orderly := by
  obtain ⟨told, subscriptions, he⟩ := publish_eq k id c
  rw [he]
  exact h.finish _

theorem startLoads (h : Entered k id) (files : List (Path × FileClass × Bool)) :
    Entered (k.startLoads id files).1 id where
  orderly := h.orderly.ready_append _ (by simp)
  locked := h.locked
  alone := h.alone
  notQueued := h.notQueued
  noTurn := by
    intro ht
    rcases List.mem_append.mp ht with ht | ht
    · exact h.noTurn ht
    · simp at ht

theorem builds {d : Draft} {goal : Except Fault Catalog} (h : Entered k id)
    (hb : Builds k id d goal k') :
    k'.Orderly := by
  cases hb with
  | searches hs hd hg => exact h.wait _
  | loads hs hd hg => exact (h.startLoads _).wait _
  | abandons hw => exact h.giveUp _
  | fails hf => exact h.giveUp _
  | publishes hw hg hr => exact h.publish _

theorem enters {job : Job} (he : Enters k id job k') (h : Entered k id) : k'.Orderly := by
  cases he with
  | builds hj hb => exact h.builds hb
  | idles hj hp =>
    rw [leave_eq]
    exact h.finish _
  | takesOver hj hp hd =>
    exact wait (startLoads ⟨h.orderly, h.locked, h.alone, h.notQueued, h.noTurn⟩ _) _

end Entered

theorem unwantedRuns_orderly {k : Keeper} (h : k.Orderly) :
    { k with runs := k.unwantedRuns }.Orderly := by
  refine h.runs (by simp [unwantedRuns]) ?_
  intro i r hi
  rw [unwantedRuns, List.getElem?_mapIdx] at hi
  obtain ⟨r₀, hr₀, rfl⟩ := Option.map_eq_some_iff.mp hi
  exact ⟨r₀, hr₀, rfl, fun hc => hc⟩

theorem Orderly.supersede {k : Keeper} (h : k.Orderly) (id : Nat) : (k.supersede id).Orderly := by
  rw [supersede_eq]
  exact Orderly.modifyRun (unwantedRuns_orderly h) id (fun _ => rfl) (fun _ hc => hc)

/-- On the way to the lock a run changes nothing that orders the work. -/
theorem Arrives.orderly {k k' : Keeper} {id : Nat} {r : Run} (ha : Arrives k id r k')
    (h : k.Orderly) :
    k'.Orderly := by
  cases ha with
  | rebuild hp hj => exact h.supersede id
  | startUp hp hj => exact Orderly.supersede (k := k.connect) h id
  | refresh hp hj => exact h
  | wakes hp => exact h

theorem Orderly.holds_eq_false {k : Keeper} (h : k.Orderly) (hl : k.locked = false) {i : Nat}
    {r : Run} (hr : k.runs[i]? = some r) : r.point.holds = false := by
  by_contra hp
  have hlocked : k.locked = true := h.holds i r hr (by simpa using hp)
  rw [hl] at hlocked
  cases hlocked

/-- A free lock can be taken when nobody waits for it. -/
theorem Orderly.take {k : Keeper} (h : k.Orderly) {id : Nat} (hl : k.locked = false)
    (hq : k.queue = []) (hid : Turn.run id ∉ k.ready) : Entered { k with locked := true } id where
  orderly := by
    refine ⟨fun _ _ _ _ => rfl, h.alone, h.queued, h.nodup, ?_, h.once, h.awaits, h.known⟩
    intro i r hi hp hc ht
    have hhead := (h.summoned i r hi hp hc ht).2
    rw [hq] at hhead
    cases hhead
  locked := rfl
  alone := by
    intro j s hj hs
    rw [h.holds_eq_false hl hj] at hs
    cases hs
  notQueued := by
    show id ∉ k.queue
    rw [hq]
    exact List.not_mem_nil
  noTurn := hid

/-- The first run of the queue can take the lock when it has its turn. -/
theorem Orderly.admits {k : Keeper} (h : k.Orderly) {id : Nat} (hl : k.locked = false)
    (hq : k.queue.head? = some id) (hid : Turn.run id ∉ k.ready) :
    Entered { k with queue := k.queue.erase id, locked := true } id where
  orderly := by
    refine ⟨fun _ _ _ _ => rfl, h.alone, ?_, h.nodup.erase id, ?_, h.once, h.awaits, h.known⟩
    · intro i hi
      exact h.queued i (List.mem_of_mem_erase hi)
    · intro i r hi hp hc ht
      have hhead := (h.summoned i r hi hp hc ht).2
      rw [hq] at hhead
      cases hhead
      exact absurd ht hid
  locked := rfl
  alone := by
    intro j s hj hs
    rw [h.holds_eq_false hl hj] at hs
    cases hs
  notQueued := h.nodup.not_mem_erase
  noTurn := hid

/-- A run that waits at a point where it holds nothing may go to another such point. -/
theorem Orderly.rest {k : Keeper} (h : k.Orderly) {id : Nat} {r : Run} (hr : k.runs[id]? = some r)
    (hid : Turn.run id ∉ k.ready) (hq : r.point ≠ .queued) {p : Point} (hp : p.holds = false) :
    (k.wait id p).Orderly :=
  h.wait (fun hmem => absurd hmem (h.not_mem_queue hr hq)) (fun hh => by rw [hp] at hh; cases hh)
    (fun ht => absurd ht hid)

theorem Orderly.enqueue {k : Keeper} (h : k.Orderly) {id : Nat} {r : Run}
    (hr : k.runs[id]? = some r) (hp : r.point = .queued) (hn : id ∉ k.queue) :
    { k with queue := k.queue ++ [id] }.Orderly where
  holds := h.holds
  alone := h.alone
  queued := by
    intro i hi
    rcases List.mem_append.mp hi with hi | hi
    · exact h.queued i hi
    · rw [List.mem_singleton] at hi
      subst hi
      exact ⟨r, hr, hp⟩
  nodup := by
    rw [List.nodup_append]
    refine ⟨h.nodup, by simp, ?_⟩
    intro a ha b hb
    rw [List.mem_singleton] at hb
    rintro rfl
    exact hn (hb ▸ ha)
  summoned := by
    intro i s hi hpi hc ht
    obtain ⟨hl, hhead⟩ := h.summoned i s hi hpi hc ht
    refine ⟨hl, ?_⟩
    show (k.queue ++ [id]).head? = some i
    rw [List.head?_append, hhead]
    rfl
  once := h.once
  awaits := h.awaits
  known := h.known

theorem Orderly.dequeue {k : Keeper} (h : k.Orderly) {id : Nat} (hid : Turn.run id ∉ k.ready) :
    { k with queue := k.queue.erase id }.Orderly where
  holds := h.holds
  alone := h.alone
  queued := fun i hi => h.queued i (List.mem_of_mem_erase hi)
  nodup := h.nodup.erase id
  summoned := by
    intro i r hi hp hc ht
    obtain ⟨hl, hhead⟩ := h.summoned i r hi hp hc ht
    refine ⟨hl, ?_⟩
    show (k.queue.erase id).head? = some i
    have hne : i ≠ id := by
      rintro rfl
      exact hid ht
    cases hq : k.queue with
    | nil => rw [hq] at hhead; cases hhead
    | cons j rest =>
      rw [hq] at hhead
      cases hhead
      rw [List.erase_cons_tail (by simpa using hne)]
      rfl
  once := h.once
  awaits := h.awaits
  known := h.known

/-- A run takes its turn.  A run of the queue that was not told to stop has its turn only when the
lock is free for it. -/
theorem TakesRun.orderly {k k' : Keeper} {id : Nat} {r : Run} (ht : TakesRun k id r k')
    (h : k.Orderly) (hr : k.runs[id]? = some r) (hid : Turn.run id ∉ k.ready)
    (hcall : r.point = .queued → r.canceled = false → k.locked = false ∧ k.queue.head? = some id) :
    k'.Orderly := by
  cases ht with
  | rests hp => exact h
  | stops hp hc =>
    refine h.rest hr hid ?_ rfl
    rcases hp with hp | ⟨time, hp⟩
    · rw [hp]; simp
    · rw [hp]; simp
  | sleeps hp hj hc =>
    have hw : (k.wait id (.sleeping (k.clock + k.delay))).Orderly :=
      h.rest hr hid (by rw [hp]; simp) rfl
    by_cases hd : k.delay = 0
    · rw [if_pos hd]
      exact hw.ready_run (runs_wait_self hr _) hid (fun he => by cases he) (fun g hg => by cases hg)
    · rw [if_neg hd]
      exact hw
  | queues hc ha hl =>
    obtain ⟨superseded, hr₀⟩ := ha.run hr
    have h₀ := ha.orderly h
    have hn : id ∉ k.queue := h.not_mem_queue hr ha.point_ne_queued
    rw [← ha.queue] at hn
    have hw : (Keeper.wait _ id .queued).Orderly :=
      h₀.wait (fun _ => rfl) (fun hh => by cases hh) (fun ht => absurd (ha.ready ▸ ht) hid)
    exact hw.enqueue (runs_wait_self hr₀ _) rfl hn
  | enters hc ha hl hq he =>
    have htake : Entered _ id :=
      (ha.orderly h).take (ha.locked.trans hl) (ha.queue.trans hq) (by rw [ha.ready]; exact hid)
    exact Entered.enters he htake
  | quits hp hc =>
    have hd : { k with queue := k.queue.erase id }.Orderly := h.dequeue hid
    have hw : ({ k with queue := k.queue.erase id }.finish id (.error .canceled)).Orderly :=
      hd.wait (fun hmem => absurd hmem h.nodup.not_mem_erase) (fun hh => by cases hh)
        (fun ht => absurd ht hid)
    by_cases hl : k.locked = true
    · rw [if_pos hl]
      exact hw
    · rw [if_neg hl]
      have hl' : k.locked = false := by simpa using hl
      have hu := hw.unlock fun i s hi => by
        by_contra hs
        exact hl (hw.holds i s hi (by simpa using hs))
      show OrderlyParts k.locked _ _ _
      rw [hl']
      exact hu
  | admitted hp hc he =>
    obtain ⟨hl, hq⟩ := hcall hp hc
    exact Entered.enters he (h.admits hl hq hid)
  | resumes hp hc hb => exact (h.entered hr hid (by rw [hp]; rfl)).builds hb
  | @yields d g rest hp hc hg hs =>
    have hw : (k.wait id (.yielding (k.enterLoads d g) rest)).Orderly :=
      (h.entered hr hid (by rw [hp]; rfl)).wait _
    exact hw.ready_run (runs_wait_self hr _) hid (fun he => by cases he) (fun g hg => by cases hg)
  | continues hp hc hb => exact (h.entered hr hid (by rw [hp]; rfl)).builds hb
  | givesUp hp hg => exact (h.entered hr hid (Point.holds_of_draft? hp)).giveUp _
  | leaves hp hl => exact (h.entered hr hid (by rw [hp]; rfl)).leave _
  | breaks hp hc hg hd hre =>
    rw [leave_eq]
    exact (h.entered hr hid (by rw [hp]; rfl)).finish _
  | applies hp hc hg hd hre => exact (h.entered hr hid (by rw [hp]; rfl)).finish _

theorem TakesReport.orderly {k k' : Keeper} {id : Nat} {l : Load} (ht : TakesReport k id l k')
    (h : k.Orderly) :
    k'.Orderly := by
  cases ht with
  | rests => exact h
  | @delivers r g result hl hr hg hd ha =>
    have hent := h.entered_of_group hr hg hd
    have hno := hent.noTurn
    have hw : (k.wait l.owner (r.point.withGroup (g.report id result))).Orderly := hent.wait _
    by_cases hdone : (g.report id result).isDone = true
    · rw [if_pos hdone]
      refine hw.ready_run (runs_wait_self hr _) hno ?_ ?_
      · intro he
        have hgr := Point.group?_withGroup hg (g.report id result)
        rw [show r.point.withGroup (g.report id result) = .queued from he] at hgr
        cases hgr
      · intro g' hg'
        have hgr := Point.group?_withGroup hg (g.report id result)
        rw [show (r.point.withGroup (g.report id result)).group? = some g' from hg'] at hgr
        cases hgr
        exact hdone
    · rw [if_neg hdone]
      exact hw

theorem TakesLoad.orderly {k k' : Keeper} {id : Nat} {l : Load} (ht : TakesLoad k id l k')
    (h : k.Orderly) :
    k'.Orderly := by
  cases ht with
  | rests hp => exact h
  | waits hp hg => exact h
  | ends hp he => exact h.ready_append [.report id] (by simp)

theorem Orderly.erase {k : Keeper} (h : k.Orderly) (t : Turn) :
    { k with ready := k.ready.erase t }.Orderly where
  holds := h.holds
  alone := h.alone
  queued := h.queued
  nodup := h.nodup
  summoned := fun i r hi hp hc ht => h.summoned i r hi hp hc (List.mem_of_mem_erase ht)
  once := fun i => Nat.le_trans (List.erase_sublist.count_le _) (h.once i)
  awaits := fun i r g hi hg ht => h.awaits i r g hi hg (List.mem_of_mem_erase ht)
  known := fun i ht => h.known i (List.mem_of_mem_erase ht)

theorem Orderly.not_mem_erase {k : Keeper} (h : k.Orderly) (id : Nat) :
    Turn.run id ∉ k.ready.erase (.run id) := by
  intro hmem
  have hcount := h.once id
  have hpos : 0 < (k.ready.erase (.run id)).count (.run id) := List.count_pos_iff.mpr hmem
  rw [List.count_erase_self] at hpos
  omega

theorem next_turn_orderly {k : Keeper} (h : k.Orderly) (t : Turn) : (k.next (.turn t)).Orderly := by
  rcases next_turn k t with he | ⟨hmem, htake⟩
  · rw [he]
    exact h
  · have hrest := h.erase t
    generalize k.next (.turn t) = k' at htake
    cases htake with
    | run hr hrun =>
      exact hrun.orderly hrest hr (h.not_mem_erase _) fun hp hc => h.summoned _ _ hr hp hc hmem
    | load hl hload => exact hload.orderly hrest
    | report hl hreport => exact hreport.orderly hrest
    | alarm hr hp =>
      exact hrest.addTurn_run hr (fun hq => by rw [hp] at hq; cases hq)
        (fun g hg => by rw [hp] at hg; cases hg)
    | idle => exact hrest

/-! ## Calls -/

theorem StopsLoads.orderly {k k' : Keeper} (hs : StopsLoads k k') (h : k.Orderly) : k'.Orderly := by
  obtain ⟨loads, ts, rfl, -, hts⟩ := hs
  refine h.ready_append ts ?_
  intro i hi
  obtain ⟨j, hj⟩ := hts _ hi
  cases hj

theorem CancelsRun.orderly {k k' : Keeper} {id : Nat} (hc : CancelsRun k id k') (h : k.Orderly) :
    k'.Orderly := by
  cases hc with
  | rests hp => exact h
  | flags hr hp => exact h.modifyRun id (fun _ => rfl) (fun _ _ => rfl)
  | @wakes r hr hp =>
    have hgroup : r.point.group? = none := Point.group?_of_isInterruptible hp
    have hflag :=
      h.modifyRun id (f := fun r => { r with canceled := true }) (fun _ => rfl) (fun _ _ => rfl)
    have hr' : (k.modifyRun id fun r => { r with canceled := true }).runs[id]? =
        some { r with canceled := true } := by
      simp [Keeper.modifyRun, hr]
    refine hflag.addTurn_run hr' (fun _ hcan => by cases hcan) ?_
    intro g hg
    rw [show r.point.group? = some g from hg] at hgroup
    cases hgroup
  | @stops r g k₁ hr hg hd hs =>
    have h₁ := hs.orderly h
    have hr₁ : k₁.runs[id]? = some r := by
      obtain ⟨loads, ts, rfl, -, -⟩ := hs
      exact hr
    exact (h₁.entered_of_group hr₁ hg hd).wait _

theorem Cancels.orderly {k k' : Keeper} (hc : Cancels k k') (h : k.Orderly) : k'.Orderly :=
  hc.induction (fun _ _ _ hk hcan => hcan.orderly hk) h

theorem Orderly.start {k : Keeper} (h : k.Orderly) (job : Job) : (k.start job).1.Orderly := by
  have happ : { k with runs := k.runs ++ [newRun job] }.Orderly := by
    refine ⟨?_, ?_, ?_, h.nodup, ?_, h.once, ?_, ?_⟩
    · intro i r hi hp
      rcases of_runs_start hi with ⟨-, rfl⟩ | hi
      · cases hp
      · exact h.holds i r hi hp
    · intro i j r s hi hj hri hsj
      rcases of_runs_start hi with ⟨-, rfl⟩ | hi
      · cases hri
      · rcases of_runs_start hj with ⟨-, rfl⟩ | hj
        · cases hsj
        · exact h.alone i j r s hi hj hri hsj
    · intro i hi
      obtain ⟨r, hr, hp⟩ := h.queued i hi
      exact ⟨r, runs_start_of_some hr job, hp⟩
    · intro i r hi hp hc ht
      rcases of_runs_start hi with ⟨-, rfl⟩ | hi
      · cases hp
      · exact h.summoned i r hi hp hc ht
    · intro i r g hi hg ht
      rcases of_runs_start hi with ⟨-, rfl⟩ | hi
      · cases hg
      · exact h.awaits i r g hi hg ht
    · intro i ht
      have hlt := h.known i ht
      simp only [List.length_append]
      omega
  have hno : Turn.run k.runs.length ∉ k.ready := fun ht => Nat.lt_irrefl _ (h.known _ ht)
  exact happ.ready_run (runs_start_self k job) hno (fun hp => by cases hp) (fun g hg => by cases hg)

theorem notify_orderly {k : Keeper} (h : k.Orderly) (p : Path) (c : Change) :
    (k.notify p c).Orderly := by
  unfold notify
  split
  · exact h
  · exact ((cancelTimer_cancels { k with pending := k.pending.set p c }).orderly h).start
      .delayedRefresh

theorem dispose_orderly {k : Keeper} (h : k.Orderly) : k.dispose.Orderly := by
  obtain ⟨k₁, k₂, provider, connected, changed, h₁, h₂, -, he⟩ := dispose_eq k
  have ho₁ : k₁.Orderly := h₁.orderly (unwantedRuns_orderly h)
  have ho₂ : k₂.Orderly := h₂.orderly ho₁
  rw [he]
  exact ho₂

theorem Reconfigures.orderly {k k' : Keeper} (hc : Reconfigures k k') (h : k.Orderly) :
    k'.Orderly := by
  induction hc with
  | sets => exact h
  | starts => exact Orderly.start h .rebuild
  | trans _ _ ih ih' => exact ih' (ih h)

theorem Orderly.addTurns {k : Keeper} (h : k.Orderly) {ts : List Turn}
    (hts : ∀ i, Turn.run i ∈ ts →
      ∃ r d found pattern rest, k.runs[i]? = some r ∧ r.point = .searching d found pattern rest) :
    { k with ready := ts.foldl addTurn k.ready }.Orderly := by
  induction ts generalizing k with
  | nil => exact h
  | cons t ts ih =>
    have hone : { k with ready := addTurn k.ready t }.Orderly := by
      cases t with
      | run i =>
        obtain ⟨r, d, found, pattern, rest, hr, hp⟩ := hts i List.mem_cons_self
        exact h.addTurn_run hr (fun hq => by rw [hp] at hq; cases hq)
          (fun g hg => by rw [hp] at hg; cases hg)
      | load i | report i | alarm i =>
        unfold addTurn
        split
        · exact h
        · exact h.ready_append _ (by simp)
    exact ih hone fun i hi => hts i (List.mem_cons_of_mem _ hi)

/-! ## Courses -/

theorem next_orderly {k : Keeper} (h : k.Orderly) (m : Move) : (k.next m).Orderly := by
  cases m with
  | rebuild => exact h.start .rebuild
  | startUp => exact h.start .startUp
  | refresh => exact h.start .refresh
  | notify p c => exact notify_orderly h p c
  | switchMode mode => exact (switchMode_reconfigures k mode).orderly h
  | changeSettings changes => exact (changeSettings_reconfigures k changes).orderly h
  | listen l => exact h
  | dispose => exact dispose_orderly h
  | turn t => exact next_turn_orderly h t
  | ring => exact h.ready_append _ (by simp)
  | pass ms => exact h
  | hold g =>
    obtain ⟨held, he⟩ := next_hold k g
    rw [he]
    exact h
  | release g =>
    obtain ⟨held, ts, he, hts⟩ := next_release k g
    rw [he]
    exact h.addTurns hts
  | edit w => exact h

theorem new_orderly (w : Workspace) (provider : Provider Unit) (groupSize : Nat) (limit : Int)
    (delay : Nat) (watchable : Bool) :
    (new w provider groupSize limit delay watchable).Orderly := by
  constructor <;> simp [new]

end Keeper
end StepAtlas
