import StepAtlas.Proofs.Keeper.Order
import StepAtlas.Proofs.Keeper.Runs

/-
Nothing waits in vain.  A run that waits has a turn of its own, or what it waits for does: a load
that has to end or to report, the run that holds the lock, or something that the workspace holds
back.  So when no turn is left and nothing is held back, every run has ended, except those that wait
for the clock.
-/

namespace StepAtlas

/-- A load that is waited for has a turn, or its file is held back. -/
def Load.Live (held : List Gate) (ready : List Turn) (j : Nat) (l : Load) : Prop :=
  match l.point with
  | .created => Turn.load j ∈ ready
  | .held => Turn.load j ∈ ready ∨ Gate.file l.path ∈ held
  | .finished _ => Turn.report j ∈ ready

/-- A run that waits for a group has its turn once the group is done, and until then every load that
is waited for will report to it. -/
structure Group.Live (held : List Gate) (loads : List Load) (ready : List Turn) (i : Nat)
    (g : Group) : Prop where
  nodup : g.awaited.Nodup
  done : g.isDone = true → Turn.run i ∈ ready
  awaits : g.isDone = false → ∀ j ∈ g.awaited, ∃ l, loads[j]? = some l ∧ l.owner = i ∧
    l.Live held ready j

/-- A run that waits at a point does not wait in vain.  The lock is not looked at here. -/
def Point.Live (held : List Gate) (loads : List Load) (ready : List Turn) (i : Nat) : Point → Prop
  | .created | .yielding _ _ => Turn.run i ∈ ready
  | .searching _ _ pattern _ => Turn.run i ∈ ready ∨ Gate.pattern pattern ∈ held
  | .loading _ g _ | .applying _ g => g.Live held loads ready i
  | .queued | .sleeping _ | .finished _ => True

theorem Group.Live.mono {held held' : List Gate} {loads loads' : List Load}
    {ready ready' : List Turn} {i : Nat} {g : Group} (h : g.Live held loads ready i)
    (hrun : Turn.run i ∈ ready → Turn.run i ∈ ready')
    (hload : ∀ j l, loads[j]? = some l → l.owner = i → j ∈ g.awaited → g.isDone = false →
      l.Live held ready j → ∃ l', loads'[j]? = some l' ∧ l'.owner = i ∧ l'.Live held' ready' j) :
    g.Live held' loads' ready' i where
  nodup := h.nodup
  done := fun hd => hrun (h.done hd)
  awaits := by
    intro hd j hj
    obtain ⟨l, hl, ho, hlive⟩ := h.awaits hd j hj
    exact hload j l hl ho hj hd hlive

theorem Point.Live.mono {held held' : List Gate} {loads loads' : List Load}
    {ready ready' : List Turn} {i : Nat} {p : Point} (h : p.Live held loads ready i)
    (hrun : Turn.run i ∈ ready → Turn.run i ∈ ready')
    (hsearch : ∀ d found pattern rest, p = .searching d found pattern rest →
      Gate.pattern pattern ∈ held → Turn.run i ∈ ready' ∨ Gate.pattern pattern ∈ held')
    (hload : ∀ j l g, loads[j]? = some l → l.owner = i → p.group? = some g → j ∈ g.awaited →
      g.isDone = false → l.Live held ready j →
      ∃ l', loads'[j]? = some l' ∧ l'.owner = i ∧ l'.Live held' ready' j) :
    p.Live held' loads' ready' i := by
  cases p with
  | created | yielding => exact hrun h
  | searching d found pattern rest =>
    rcases h with h | h
    · exact .inl (hrun h)
    · exact hsearch d found pattern rest rfl h
  | loading d g rest | applying changes g =>
    exact Group.Live.mono h hrun fun j l hl ho hj hd => hload j l g hl ho rfl hj hd
  | queued | sleeping | finished => trivial

theorem Point.Live.group {held : List Gate} {loads : List Load} {ready : List Turn} {i : Nat}
    {p : Point} {g : Group} (h : p.Live held loads ready i) (hg : p.group? = some g) :
    g.Live held loads ready i := by
  cases p with
  | loading | applying =>
    cases hg
    exact h
  | _ => cases hg

theorem Group.Live.withGroup {held : List Gate} {loads : List Load} {ready : List Turn} {i : Nat}
    {p : Point} {g g' : Group} (h : g'.Live held loads ready i) (hg : p.group? = some g) :
    (p.withGroup g').Live held loads ready i := by
  cases p with
  | loading | applying => exact h
  | _ => cases hg

/-- More turns do no harm. -/
theorem Load.Live.mono {held : List Gate} {ready ready' : List Turn} {j : Nat} {l : Load}
    (h : l.Live held ready j) (hload : Turn.load j ∈ ready → Turn.load j ∈ ready')
    (hreport : Turn.report j ∈ ready → Turn.report j ∈ ready') :
    l.Live held ready' j := by
  unfold Load.Live at h ⊢
  cases hp : l.point with
  | created =>
    rw [hp] at h
    exact hload h
  | held =>
    rw [hp] at h
    exact h.imp_left hload
  | finished result =>
    rw [hp] at h
    exact hreport h

theorem Load.Live.congr {held : List Gate} {ready : List Turn} {j : Nat} {l l' : Load}
    (h : l.Live held ready j) (hp : l'.point = l.point) (hpath : l'.path = l.path) :
    l'.Live held ready j := by
  unfold Load.Live at h ⊢
  rw [hp, hpath]
  exact h

theorem mem_erase_report {ready : List Turn} {id : Nat} {t : Turn} (hne : t ≠ .report id)
    (ht : t ∈ ready) :
    t ∈ ready.erase (.report id) :=
  (List.mem_erase_of_ne hne).mpr ht

/-- A load that has nothing to report, or another one, does not need the turn of a report. -/
theorem Load.Live.eraseReport {held : List Gate} {ready : List Turn} {j id : Nat} {l : Load}
    (h : l.Live held ready j) (hj : j ≠ id ∨ ∀ result, l.point ≠ .finished result) :
    l.Live held (ready.erase (.report id)) j := by
  rcases hj with hj | hp
  · exact h.mono (mem_erase_report (by simp)) (mem_erase_report (by simpa using hj))
  · unfold Load.Live at h ⊢
    cases hpoint : l.point with
    | created =>
      rw [hpoint] at h
      exact mem_erase_report (by simp) h
    | held =>
      rw [hpoint] at h
      exact h.imp_left (mem_erase_report (by simp))
    | finished result => exact absurd hpoint (hp result)

/-- A group that has a report no longer waits for it, and its run has a turn when it was the last
one. -/
theorem Group.Live.report {held : List Gate} {loads : List Load} {ready ready' : List Turn}
    {i id : Nat} {g : Group} {result : Except Stop Loaded} (h : g.Live held loads ready i)
    (hd : g.isDone = false) (hsub : ∀ t ∈ ready.erase (.report id), t ∈ ready')
    (hdone : (g.report id result).isDone = true → Turn.run i ∈ ready') :
    (g.report id result).Live held loads ready' i := by
  refine ⟨?_, hdone, ?_⟩
  · cases result with
    | error stop => exact h.nodup
    | ok x => exact h.nodup.erase id
  · intro hundone j hj
    cases result with
    | error stop => cases hundone
    | ok x =>
      have hne : j ≠ id := by
        rintro rfl
        exact h.nodup.not_mem_erase hj
      obtain ⟨l, hl, ho, hlive⟩ := h.awaits hd j (List.mem_of_mem_erase hj)
      exact ⟨l, hl, ho, (hlive.eraseReport (.inl hne)).mono (hsub _) (hsub _)⟩

/-! Without turns, and with nothing held back, there is nothing to wait for. -/

theorem Load.not_live_nil (j : Nat) (l : Load) : ¬ l.Live [] [] j := by
  intro h
  unfold Load.Live at h
  split at h <;> simp at h

theorem Group.not_live_nil (loads : List Load) (i : Nat) (g : Group) : ¬ g.Live [] loads [] i := by
  intro h
  cases hd : g.isDone with
  | true => cases h.done hd
  | false =>
    have hne : g.awaited ≠ [] := by
      intro he
      simp [Group.isDone, he] at hd
    obtain ⟨j, hj⟩ := List.exists_mem_of_ne_nil _ hne
    obtain ⟨l, -, -, hl⟩ := h.awaits hd j hj
    exact l.not_live_nil j hl

theorem Point.Live.cases_nil {loads : List Load} {i : Nat} {p : Point} (h : p.Live [] loads [] i) :
    p = .queued ∨ (∃ time, p = .sleeping time) ∨ ∃ result, p = .finished result := by
  cases p with
  | created | yielding => cases h
  | searching => rcases h with h | h <;> cases h
  | loading d g rest | applying changes g => exact absurd h (g.not_live_nil loads i)
  | queued => exact .inl rfl
  | sleeping time => exact .inr (.inl ⟨time, rfl⟩)
  | finished result => exact .inr (.inr ⟨result, rfl⟩)

namespace Keeper

structure LiveParts (groupSize : Nat) (held : List Gate) (locked : Bool) (queue : List Nat)
    (runs : List Run) (loads : List Load) (ready : List Turn) : Prop where
  positive : 0 < groupSize
  points : ∀ (i : Nat) (r : Run), runs[i]? = some r → r.point.Live held loads ready i
  queued : ∀ (i : Nat) (r : Run), runs[i]? = some r → r.point = .queued → i ∈ queue
  /-- Someone holds the lock. -/
  holder : locked = true → ∃ (i : Nat) (r : Run), runs[i]? = some r ∧ r.point.holds = true
  /-- The first of the queue has a look when the lock is free. -/
  summoned : locked = false → ∀ i, queue.head? = some i → Turn.run i ∈ ready

def Live (k : Keeper) : Prop := LiveParts k.groupSize k.held k.locked k.queue k.runs k.loads k.ready

/-- When no turn is left and nothing is held back, every run has ended or waits for the clock. -/
theorem Live.ended {k : Keeper} (h : k.Live) (hready : k.ready = []) (hheld : k.held = []) {i : Nat}
    {r : Run} (hr : k.runs[i]? = some r) :
    (∃ result, r.point = .finished result) ∨ ∃ time, r.point = .sleeping time := by
  have hpoints : ∀ (i : Nat) (r : Run), k.runs[i]? = some r → r.point.Live [] k.loads [] i := by
    intro i r hr
    have hlive := h.points i r hr
    rw [hready, hheld] at hlive
    exact hlive
  -- Nobody holds the lock, so nobody waits for it.
  have hunlocked : k.locked = false := by
    cases hl : k.locked with
    | false => rfl
    | true =>
      obtain ⟨j, s, hs, hh⟩ := h.holder hl
      rcases (hpoints j s hs).cases_nil with hp | ⟨time, hp⟩ | ⟨result, hp⟩ <;> rw [hp] at hh <;>
        cases hh
  rcases (hpoints i r hr).cases_nil with hp | hp | hp
  · have hmem := h.queued i r hr hp
    cases hq : k.queue with
    | nil =>
      rw [hq] at hmem
      cases hmem
    | cons j rest =>
      have hturn := h.summoned hunlocked j (by rw [hq]; rfl)
      rw [hready] at hturn
      cases hturn
  · exact .inr hp
  · exact .inl hp

/-! ## The turn of a run -/

/-- All but one run, whose turn it is, do not wait in vain. -/
structure PoisedParts (groupSize : Nat) (held : List Gate) (queue : List Nat) (runs : List Run)
    (loads : List Load) (ready : List Turn) (id : Nat) : Prop where
  positive : 0 < groupSize
  points : ∀ (i : Nat) (r : Run), i ≠ id → runs[i]? = some r → r.point.Live held loads ready i
  queued : ∀ (i : Nat) (r : Run), i ≠ id → runs[i]? = some r → r.point = .queued → i ∈ queue

def Poised (k : Keeper) (id : Nat) : Prop :=
  PoisedParts k.groupSize k.held k.queue k.runs k.loads k.ready id

theorem Live.poised {k : Keeper} (h : k.Live) (id : Nat) :
    { k with ready := k.ready.erase (.run id) }.Poised id where
  positive := h.positive
  points := by
    intro i r hi hr
    refine (h.points i r hr).mono (fun ht => ?_) (fun _ _ _ _ _ hh => .inr hh) ?_
    · exact (List.mem_erase_of_ne (by simpa using hi)).mpr ht
    · intro j l g hl ho _ _ _ hlive
      exact ⟨l, hl, ho, hlive.mono (fun ht => (List.mem_erase_of_ne (by simp)).mpr ht)
        fun ht => (List.mem_erase_of_ne (by simp)).mpr ht⟩
  queued := fun i r _ hr hp => h.queued i r hr hp

theorem mem_addTurn {t : Turn} {ready : List Turn} (h : t ∈ ready) (t' : Turn) :
    t ∈ addTurn ready t' := by
  unfold addTurn
  split
  · exact h
  · exact List.mem_append_left _ h

theorem mem_addTurn_self (ready : List Turn) (t : Turn) : t ∈ addTurn ready t := by
  unfold addTurn
  split
  · rename_i hc
    exact List.contains_iff_mem.mp hc
  · simp

theorem mem_callHead {t : Turn} {ready : List Turn} (h : t ∈ ready) (queue : List Nat) :
    t ∈ callHead ready queue := by
  cases queue with
  | nil => exact h
  | cons i rest => exact mem_addTurn h _

theorem run_mem_callHead {queue : List Nat} {i : Nat} (h : queue.head? = some i)
    (ready : List Turn) :
    Turn.run i ∈ callHead ready queue := by
  cases queue with
  | nil => cases h
  | cons j rest =>
    cases h
    exact mem_addTurn_self ready _

namespace Poised
variable {k k' : Keeper} {id : Nat} {r : Run}

/-- More turns do no harm. -/
theorem ready (h : k.Poised id) {ready : List Turn} (hsub : ∀ t ∈ k.ready, t ∈ ready) :
    { k with ready }.Poised id where
  positive := h.positive
  points := by
    intro i r hi hr
    refine (h.points i r hi hr).mono (hsub _) (fun _ _ _ _ _ hh => .inr hh) ?_
    intro j l g hl ho _ _ _ hlive
    exact ⟨l, hl, ho, hlive.mono (hsub _) (hsub _)⟩
  queued := h.queued

theorem startLoads (h : k.Poised id) (owner : Nat) (files : List (Path × FileClass × Bool)) :
    (k.startLoads owner files).1.Poised id where
  positive := h.positive
  points := by
    intro i r hi hr
    refine (h.points i r hi hr).mono (fun ht => List.mem_append_left _ ht)
      (fun _ _ _ _ _ hh => .inr hh) ?_
    intro j l g hl ho _ _ _ hlive
    refine ⟨l, ?_, ho, hlive.mono (fun ht => List.mem_append_left _ ht) fun ht =>
      List.mem_append_left _ ht⟩
    rw [startLoads_loads, List.getElem?_append_left (List.getElem?_eq_some_iff.mp hl).1]
    exact hl
  queued := h.queued

/-- The run goes on to another point. -/
theorem wait (h : k.Poised id) (hr : k.runs[id]? = some r) {p : Point}
    (hp : p.Live k.held k.loads k.ready id) (hq : p = .queued → id ∈ k.queue)
    (hl : k.locked = true → p.holds = true ∨ ∃ j s, j ≠ id ∧ k.runs[j]? = some s ∧
      s.point.holds = true)
    (hc : k.locked = false → ∀ i, k.queue.head? = some i → Turn.run i ∈ k.ready) :
    (k.wait id p).Live where
  positive := h.positive
  points := by
    intro i s hs
    rcases of_runs_wait hs with ⟨rfl, s₀, -, rfl⟩ | ⟨hne, hs⟩
    · exact hp
    · exact h.points i s hne hs
  queued := by
    intro i s hs hpoint
    rcases of_runs_wait hs with ⟨rfl, s₀, -, rfl⟩ | ⟨hne, hs⟩
    · exact hq hpoint
    · exact h.queued i s hne hs hpoint
  holder := by
    intro hlocked
    rcases hl hlocked with hh | ⟨j, s, hne, hs, hh⟩
    · exact ⟨id, _, runs_wait_self hr p, hh⟩
    · exact ⟨j, s, (runs_wait_of_ne hne p).trans hs, hh⟩
  summoned := hc

/-- The run holds the lock and keeps it. -/
theorem hold (h : k.Poised id) (hr : k.runs[id]? = some r) (hl : k.locked = true) {p : Point}
    (hh : p.holds = true) (hp : p.Live k.held k.loads k.ready id) : (k.wait id p).Live := by
  refine h.wait hr hp ?_ (fun _ => .inl hh) (fun hu => by rw [hl] at hu; cases hu)
  rintro rfl
  cases hh

/-- The run gives the lock back and ends. -/
theorem finish (h : k.Poised id) (hr : k.runs[id]? = some r) (result : Except Stop Bool) :
    ({ k with locked := false, ready := callHead k.ready k.queue }.finish id result).Live := by
  have h' : { k with ready := callHead k.ready k.queue }.Poised id :=
    h.ready fun t ht => mem_callHead ht k.queue
  have h'' : { k with locked := false, ready := callHead k.ready k.queue }.Poised id :=
    ⟨h'.positive, h'.points, h'.queued⟩
  exact h''.wait hr trivial (fun hq => by cases hq) (fun hl => by cases hl) fun _ i hi =>
    run_mem_callHead hi _

theorem giveUp (h : k.Poised id) (hr : k.runs[id]? = some r) (result : Except Stop Bool) :
    (k.giveUp id result).Live := by
  obtain ⟨subscriptions, he⟩ := giveUp_eq k id result
  rw [he]
  exact h.finish hr result

theorem leave (h : k.Poised id) (hr : k.runs[id]? = some r) (result : Except Stop Bool) :
    (k.leave id result).Live := by
  rw [leave_eq]
  exact h.finish hr result

/-- The run has ended before. -/
theorem rest (h : k.Poised id) (hr : k.runs[id]? = some r) {result : Except Stop Bool}
    (hp : r.point = .finished result)
    (hholder : k.locked = true → ∃ (i : Nat) (s : Run), k.runs[i]? = some s ∧ s.point.holds = true)
    (hsummoned : k.locked = false → ∀ i, k.queue.head? = some i → Turn.run i ∈ k.ready) :
    k.Live where
  positive := h.positive
  points := by
    intro i s hs
    by_cases hi : i = id
    · subst hi
      rw [hr] at hs
      cases hs
      rw [hp]
      trivial
    · exact h.points i s hi hs
  queued := by
    intro i s hs hq
    by_cases hi : i = id
    · subst hi
      rw [hr] at hs
      cases hs
      rw [hp] at hq
      cases hq
    · exact h.queued i s hi hs hq
  holder := hholder
  summoned := hsummoned

/-- The run joins the queue, in which it is not the first if the lock is free. -/
theorem enqueue (h : k.Poised id) (hr : k.runs[id]? = some r)
    (hother : k.locked = true → ∃ (j : Nat) (s : Run), j ≠ id ∧ k.runs[j]? = some s ∧
      s.point.holds = true) (hne : k.locked = false → k.queue ≠ [])
    (hsummoned : k.locked = false → ∀ i, k.queue.head? = some i → Turn.run i ∈ k.ready) :
    ({ k with queue := k.queue ++ [id] }.wait id .queued).Live := by
  have h' : { k with queue := k.queue ++ [id] }.Poised id :=
    ⟨h.positive, h.points, fun i s hi hs hp => List.mem_append_left _ (h.queued i s hi hs hp)⟩
  refine h'.wait hr trivial (fun _ => List.mem_append_right _ (by simp))
    (fun hl => .inr (hother hl)) ?_
  intro hl i hi
  have hi' : (k.queue ++ [id]).head? = some i := hi
  rw [List.head?_append_of_ne_nil _ (hne hl)] at hi'
  exact hsummoned hl i hi'

theorem dequeue (h : k.Poised id) : { k with queue := k.queue.erase id }.Poised id :=
  ⟨h.positive, h.points, fun i s hi hs hp => (List.mem_erase_of_ne hi).mpr (h.queued i s hi hs hp)⟩

/-- The run leaves the queue and ends, and if the lock is free the next one has a look. -/
theorem quit (h : k.Poised id) (hr : k.runs[id]? = some r)
    (hother : k.locked = true → ∃ (j : Nat) (s : Run), j ≠ id ∧ k.runs[j]? = some s ∧
      s.point.holds = true) (result : Except Stop Bool) :
    ({ k with
      queue := k.queue.erase id
      ready := if k.locked then k.ready else callHead k.ready (k.queue.erase id) }.finish id
        result).Live := by
  have hsub : ∀ t ∈ k.ready, t ∈ if k.locked then k.ready
      else callHead k.ready (k.queue.erase id) := by
    intro t ht
    split
    · exact ht
    · exact mem_callHead ht _
  refine (h.dequeue.ready hsub).wait hr trivial (fun hq => by cases hq)
    (fun hl => .inr (hother hl)) ?_
  intro hl i hi
  show Turn.run i ∈ if k.locked then k.ready else callHead k.ready (k.queue.erase id)
  rw [if_neg (by simpa using hl)]
  exact run_mem_callHead hi _

/-- The run waits for loads that it has started now. -/
theorem loads (h : k.Poised id) (hr : k.runs[id]? = some r) (hl : k.locked = true)
    {files : List (Path × FileClass × Bool)} (hne : files ≠ []) (point : Group → Point)
    (hh : ∀ g, (point g).holds = true)
    (hlive : ∀ held loads ready g, g.Live held loads ready id →
      (point g).Live held loads ready id) :
    ((k.startLoads id files).1.wait id (point (k.startLoads id files).2)).Live := by
  refine (h.startLoads id files).hold hr hl (hh _) (hlive _ _ _ _ ⟨?_, ?_, ?_⟩)
  · exact List.Pairwise.map (k.loads.length + ·) (fun a b hab he => hab (by omega)) List.nodup_range
  · intro hd
    simp [Keeper.startLoads, Group.isDone, hne] at hd
  · intro _ j hj
    obtain ⟨i, hi, rfl⟩ := List.mem_map.mp hj
    have hlt : i < files.length := List.mem_range.mp hi
    refine ⟨newLoad id files[i], ?_, rfl, ?_⟩
    · rw [startLoads_loads, List.getElem?_append_right (by omega), Nat.add_sub_cancel_left,
        List.getElem?_map, List.getElem?_eq_getElem hlt]
      rfl
    · exact List.mem_append_right _ (List.mem_map_of_mem hj)

end Poised

section
variable {k k' : Keeper} {id : Nat} {r : Run}

theorem Builds.live {d : Draft} {goal : Except Fault Catalog} (hb : Builds k id d goal k')
    (h : k.Poised id) (hr : k.runs[id]? = some r) (hl : k.locked = true) : k'.Live := by
  cases hb with
  | searches hs hd hg hh => exact h.hold hr hl rfl (.inr hh)
  | @loads d' files rest hs hd hg hn =>
    refine h.loads hr hl ?_ (fun g => .loading d' g rest) (fun _ => rfl) (fun _ _ _ _ hg => hg)
    intro he
    exact hn h.positive (List.map_eq_nil_iff.mp he)
  | abandons hw => exact h.giveUp hr _
  | fails hf => exact h.giveUp hr _
  | @publishes c hw hg hre =>
    obtain ⟨told, subscriptions, he⟩ := publish_eq k id c
    rw [he]
    exact h.finish hr _

theorem Enters.live {job : Job} (he : Enters k id job k') (h : k.Poised id)
    (hr : k.runs[id]? = some r) (hl : k.locked = true) : k'.Live := by
  cases he with
  | builds hj hb => exact hb.live h hr hl
  | idles hj hp =>
    rw [leave_eq]
    exact h.finish hr _
  | takesOver hj hp hd =>
    have h' : { k with pending := .empty }.Poised id := h
    refine h'.loads hr hl ?_ (.applying k.pending) (fun _ => rfl) (fun _ _ _ _ hg => hg)
    intro hnil
    exact hp (List.map_eq_nil_iff.mp hnil)

theorem Arrives.holds_eq_false {k₀ : Keeper} (ha : Arrives k id r k₀) : r.point.holds = false := by
  cases ha with
  | rebuild hp hj | startUp hp hj | refresh hp hj | wakes hp => rw [hp]; rfl

theorem Arrives.poised {k₀ : Keeper} (ha : Arrives k id r k₀) (h : k.Poised id) : k₀.Poised id where
  positive := by
    obtain ⟨_, _, _, _, _, rfl⟩ := ha.eq
    exact h.positive
  points := by
    intro i s hi hs
    obtain ⟨s₀, superseded, hs₀, rfl⟩ := ha.of_run hs
    have hlive := h.points i s₀ hi hs₀
    obtain ⟨_, _, _, _, _, rfl⟩ := ha.eq
    exact hlive
  queued := by
    intro i s hi hs hp
    obtain ⟨s₀, superseded, hs₀, rfl⟩ := ha.of_run hs
    rw [ha.queue]
    exact h.queued i s₀ hi hs₀ hp

theorem TakesRun.live (ht : TakesRun k id r k') (h : k.Poised id) (ho : k.Orderly)
    (hr : k.runs[id]? = some r)
    (hholder : k.locked = true → ∃ (i : Nat) (s : Run), k.runs[i]? = some s ∧ s.point.holds = true)
    (hsummoned : k.locked = false → ∀ i, k.queue.head? = some i → i ≠ id → Turn.run i ∈ k.ready) :
    k'.Live := by
  -- A run that holds nothing leaves the lock to who holds it, and the queue to who is first.
  have hother : r.point.holds = false → k.locked = true →
      ∃ (j : Nat) (s : Run), j ≠ id ∧ k.runs[j]? = some s ∧ s.point.holds = true := by
    intro hp hl
    obtain ⟨j, s, hs, hh⟩ := hholder hl
    refine ⟨j, s, ?_, hs, hh⟩
    rintro rfl
    rw [hr] at hs
    cases hs
    rw [hp] at hh
    cases hh
  have hfirst : r.point ≠ .queued → k.locked = false → ∀ i, k.queue.head? = some i →
      Turn.run i ∈ k.ready := by
    intro hp hl i hi
    refine hsummoned hl i hi ?_
    rintro rfl
    exact ho.not_mem_queue hr hp (List.mem_of_head? hi)
  have hrest : ∀ {p : Point} {ready : List Turn}, r.point.holds = false → r.point ≠ .queued →
      (∀ t ∈ k.ready, t ∈ ready) → p.Live k.held k.loads ready id → p ≠ .queued →
      ({ k with ready }.wait id p).Live := by
    intro p ready hh hq hsub hlive hp
    refine (h.ready hsub).wait hr hlive (fun he => absurd he hp) (fun hl => .inr (hother hh hl)) ?_
    exact fun hl i hi => hsub _ (hfirst hq hl i hi)
  cases ht with
  | rests hp => exact h.rest hr hp hholder (hfirst (by simp [hp]))
  | stops hp hc =>
    have hh : r.point.holds = false := by rcases hp with hp | ⟨time, hp⟩ <;> rw [hp] <;> rfl
    have hq : r.point ≠ .queued := by rcases hp with hp | ⟨time, hp⟩ <;> simp [hp]
    exact hrest hh hq (fun _ ht => ht) trivial (by simp)
  | sleeps hp hj hc =>
    refine hrest (by rw [hp]; rfl) (by simp [hp]) ?_ trivial (by simp)
    intro t ht
    split
    · exact List.mem_append_left _ ht
    · exact ht
  | @queues k₀ hc ha hl =>
    obtain ⟨superseded, hr₀⟩ := ha.run hr
    refine (ha.poised h).enqueue hr₀ ?_ ?_ ?_
    · intro hlocked
      obtain ⟨j, s, hne, hs, hhold⟩ := hother ha.holds_eq_false (ha.locked ▸ hlocked)
      obtain ⟨superseded', hs₀⟩ := ha.run hs
      exact ⟨j, _, hne, hs₀, hhold⟩
    · intro hfree
      rw [ha.queue]
      exact hl.resolve_left (by simp [← ha.locked, hfree])
    · intro hfree i hi
      rw [ha.ready]
      exact hfirst ha.point_ne_queued (ha.locked ▸ hfree) i (ha.queue ▸ hi)
  | @enters k₀ _ hc ha hl hq he =>
    obtain ⟨superseded, hr₀⟩ := ha.run hr
    exact he.live (k := { k₀ with locked := true }) (ha.poised h) hr₀ rfl
  | quits hp hc => exact h.quit hr (hother (by rw [hp]; rfl)) _
  | admitted hp hc he =>
    exact he.live (k := { k with queue := k.queue.erase id, locked := true }) h.dequeue hr rfl
  | resumes hp hc hb => exact hb.live h hr (ho.holds id r hr (by rw [hp]; rfl))
  | yields hp hc hg hs =>
    have hl := ho.holds id r hr (by rw [hp]; rfl)
    refine (h.ready fun t ht => List.mem_append_left _ ht).hold hr hl rfl ?_
    exact List.mem_append_right _ (by simp)
  | continues hp hc hb => exact hb.live h hr (ho.holds id r hr (by rw [hp]; rfl))
  | givesUp hp hg => exact h.giveUp hr _
  | leaves hp hl => exact h.leave hr _
  | breaks hp hc hg hd hre =>
    rw [leave_eq]
    exact h.finish hr _
  | applies hp hc hg hd hre => exact h.finish hr _

end

/-! ## Everything else -/

namespace Live
variable {k k' : Keeper}

/-- Loads may get on, and turns may be added. -/
theorem loads (h : k.Live) {loads : List Load} {ready : List Turn}
    (hrun : ∀ i, Turn.run i ∈ k.ready → Turn.run i ∈ ready)
    (hload : ∀ (j : Nat) (l : Load), k.loads[j]? = some l → l.Live k.held k.ready j →
      ∃ l', loads[j]? = some l' ∧ l'.owner = l.owner ∧ l'.Live k.held ready j) :
    { k with loads, ready }.Live where
  positive := h.positive
  points := by
    intro i r hr
    refine (h.points i r hr).mono (hrun i) (fun _ _ _ _ _ hh => .inr hh) ?_
    intro j l g hl ho _ _ _ hlive
    obtain ⟨l', hl', ho', hlive'⟩ := hload j l hl hlive
    exact ⟨l', hl', ho'.trans ho, hlive'⟩
  queued := h.queued
  holder := h.holder
  summoned := fun hl i hi => hrun i (h.summoned hl i hi)

/-- The turns of the clock do not matter. -/
theorem ready (h : k.Live) {ready : List Turn}
    (hsub : ∀ t ∈ k.ready, (∀ i, t ≠ .alarm i) → t ∈ ready) :
    { k with ready }.Live := by
  refine h.loads (fun _ hi => hsub _ hi (by simp)) ?_
  intro j l hl hlive
  exact ⟨l, hl, rfl, hlive.mono (fun ht => hsub _ ht (by simp)) fun ht => hsub _ ht (by simp)⟩

/-- Runs may be told something, as long as they wait where they are. -/
theorem runs (h : k.Live) {runs : List Run}
    (hruns : ∀ (i : Nat) (r : Run), runs[i]? = some r → ∃ r₀, k.runs[i]? = some r₀ ∧
      r.point = r₀.point)
    (hkept : ∀ (i : Nat) (r₀ : Run), k.runs[i]? = some r₀ → ∃ r, runs[i]? = some r ∧
      r.point = r₀.point) :
    { k with runs }.Live where
  positive := h.positive
  points := by
    intro i r hr
    obtain ⟨r₀, hr₀, hp⟩ := hruns i r hr
    rw [hp]
    exact h.points i r₀ hr₀
  queued := by
    intro i r hr hp
    obtain ⟨r₀, hr₀, hp₀⟩ := hruns i r hr
    exact h.queued i r₀ hr₀ (hp₀ ▸ hp)
  holder := by
    intro hl
    obtain ⟨i, r₀, hr₀, hh⟩ := h.holder hl
    obtain ⟨r, hr, hp⟩ := hkept i r₀ hr₀
    exact ⟨i, r, hr, hp ▸ hh⟩
  summoned := h.summoned

theorem start (h : k.Live) (job : Job) : (k.start job).1.Live where
  positive := h.positive
  points := by
    intro i r hr
    rcases of_runs_start hr with ⟨rfl, rfl⟩ | hr
    · exact List.mem_append_right _ (by simp)
    · have h' : { k with ready := k.ready ++ [Turn.run k.runs.length] }.Live :=
        h.ready fun t ht _ => List.mem_append_left _ ht
      exact h'.points i r hr
  queued := by
    intro i r hr hp
    rcases of_runs_start hr with ⟨-, rfl⟩ | hr
    · cases hp
    · exact h.queued i r hr hp
  holder := by
    intro hl
    obtain ⟨i, r, hr, hh⟩ := h.holder hl
    exact ⟨i, r, runs_start_of_some hr job, hh⟩
  summoned := fun hl i hi => List.mem_append_left _ (h.summoned hl i hi)

theorem hold (h : k.Live) (g : Gate) : (k.hold g).Live := by
  unfold Keeper.hold
  split
  · exact h
  · refine ⟨h.positive, ?_, h.queued, h.holder, h.summoned⟩
    intro i r hr
    refine (h.points i r hr).mono (fun ht => ht)
      (fun _ _ _ _ _ hh => .inr (List.mem_cons_of_mem g hh)) ?_
    intro j l gr hl ho _ _ _ hlive
    refine ⟨l, hl, ho, ?_⟩
    unfold Load.Live at hlive ⊢
    cases hp : l.point with
    | created | finished =>
      rw [hp] at hlive
      exact hlive
    | held =>
      rw [hp] at hlive
      exact hlive.imp_right (List.mem_cons_of_mem g)

/-- The run that waits for loads may wait for fewer. -/
theorem group (h : k.Live) (ho : k.Orderly) {id : Nat} {r : Run} {g g' : Group}
    (hr : k.runs[id]? = some r) (hg : r.point.group? = some g)
    (hlive : g'.Live k.held k.loads k.ready id) :
    (k.wait id (r.point.withGroup g')).Live := by
  have hh : (r.point.withGroup g').holds = true :=
    Point.holds_of_group? (Point.group?_withGroup hg g')
  have hpoised : k.Poised id :=
    ⟨h.positive, fun i s _ hs => h.points i s hs, fun i s _ hs => h.queued i s hs⟩
  exact hpoised.hold hr (ho.holds id r hr (Point.holds_of_group? hg)) hh (hlive.withGroup hg)

end Live

theorem TakesLoad.live {k k' : Keeper} {id : Nat} {l : Load} (hl : k.loads[id]? = some l)
    (ht : TakesLoad { k with ready := k.ready.erase (.load id) } id l k') (h : k.Live) :
    k'.Live := by
  have hrun : ∀ i, Turn.run i ∈ k.ready → Turn.run i ∈ k.ready.erase (.load id) :=
    fun i hi => (List.mem_erase_of_ne (by simp)).mpr hi
  have hother : ∀ (j : Nat) (l : Load), j ≠ id → l.Live k.held k.ready j →
      l.Live k.held (k.ready.erase (.load id)) j := by
    intro j l hj hlive
    refine hlive.mono ?_ ?_
    · exact fun ht => (List.mem_erase_of_ne (by simpa using hj)).mpr ht
    · exact fun ht => (List.mem_erase_of_ne (by simp)).mpr ht
  cases ht with
  | rests hp =>
    refine h.loads hrun ?_
    intro j l₁ hl₁ hlive
    refine ⟨l₁, hl₁, rfl, ?_⟩
    by_cases hj : j = id
    · subst hj
      rw [hl] at hl₁
      cases hl₁
      unfold Load.Live at hlive ⊢
      rw [hp] at hlive ⊢
      exact (List.mem_erase_of_ne (by simp)).mpr hlive
    · exact hother j l₁ hj hlive
  | waits hp hg hh =>
    refine h.loads hrun ?_
    intro j l₁ hl₁ hlive
    by_cases hj : j = id
    · subst hj
      rw [hl] at hl₁
      cases hl₁
      exact ⟨{ l with point := .held }, by simp [hl], rfl, .inr hh⟩
    · exact ⟨l₁, by simpa [Ne.symm hj] using hl₁, rfl, hother j l₁ hj hlive⟩
  | @ends es result hp he =>
    refine h.loads (fun i hi => List.mem_append_left _ (hrun i hi)) ?_
    intro j l₁ hl₁ hlive
    by_cases hj : j = id
    · subst hj
      rw [hl] at hl₁
      cases hl₁
      refine ⟨{ l with point := .finished result }, ?_, rfl, List.mem_append_right _ (by simp)⟩
      simp [finishLoad, wake, modifyLoad, hl]
    · have hl' : (k.loads.modify id fun l => { l with point := .finished result })[j]? =
          some l₁ := by
        simpa [Ne.symm hj] using hl₁
      refine ⟨l₁, hl', rfl, (hother j l₁ hj hlive).mono ?_ ?_⟩
      · exact fun ht => List.mem_append_left _ ht
      · exact fun ht => List.mem_append_left _ ht

/-- A report is either taken or not waited for. -/
theorem TakesReport.live {k k' : Keeper} {id : Nat} {l : Load} (hl : k.loads[id]? = some l)
    (ht : TakesReport { k with ready := k.ready.erase (.report id) } id l k') (h : k.Live)
    (ho : k.Orderly) :
    k'.Live := by
  -- The turn of the report is gone, and every other run still waits for what it waited for.
  have hpoint : ∀ (i : Nat) (r : Run), k.runs[i]? = some r →
      (∀ g result, l.point = .finished result → l.owner = i → r.point.group? = some g →
        g.isDone = true ∨ id ∉ g.awaited) →
          r.point.Live k.held k.loads (k.ready.erase (.report id)) i := by
    intro i r hr hnot
    refine (h.points i r hr).mono (mem_erase_report (by simp)) (fun _ _ _ _ _ hh => .inr hh) ?_
    intro j l₁ g hl₁ ho₁ hg hj hd hlive
    refine ⟨l₁, hl₁, ho₁, hlive.eraseReport ?_⟩
    by_cases hjd : j = id
    · subst hjd
      rw [hl] at hl₁
      cases hl₁
      refine .inr fun result hp => ?_
      rcases hnot g result hp ho₁ hg with hdone | hnone
      · rw [hd] at hdone
        cases hdone
      · exact hnone hj
    · exact .inl hjd
  cases ht with
  | rests hrests =>
    refine ⟨h.positive, ?_, h.queued, h.holder, fun hlk i hi =>
      mem_erase_report (by simp) (h.summoned hlk i hi)⟩
    intro i r hr
    exact hpoint i r hr fun g result hp hi hg => hrests r g result hp (hi ▸ hr) hg
  | @delivers r g result hp hr hg hd ha =>
    have hgl : g.Live k.held k.loads k.ready l.owner := (h.points _ r hr).group hg
    have hpoised : { k with ready := k.ready.erase (.report id) }.Poised l.owner := by
      refine ⟨h.positive, ?_, fun i s _ hs => h.queued i s hs⟩
      intro i s hi hs
      exact hpoint i s hs fun g result _ howner => absurd howner.symm hi
    have hsub : ∀ t ∈ k.ready.erase (.report id), t ∈ if (g.report id result).isDone then
        k.ready.erase (.report id) ++ [Turn.run l.owner] else k.ready.erase (.report id) := by
      intro t ht
      split
      · exact List.mem_append_left _ ht
      · exact ht
    have hh : (r.point.withGroup (g.report id result)).holds = true :=
      Point.holds_of_group? (Point.group?_withGroup hg _)
    refine (hpoised.ready hsub).hold hr (ho.holds _ r hr (Point.holds_of_group? hg)) hh ?_
    refine Group.Live.withGroup (hgl.report hd hsub fun hdone => ?_) hg
    rw [if_pos hdone]
    exact List.mem_append_right _ (by simp)

/-- The turn of somebody who is not there does not matter. -/
theorem Live.vacant {k : Keeper} (h : k.Live) (ho : k.Orderly) {t : Turn} (hv : k.Vacant t) :
    { k with ready := k.ready.erase t }.Live := by
  have hmem : ∀ t' : Turn, t' ≠ t → t' ∈ k.ready → t' ∈ k.ready.erase t :=
    fun t' hne ht => (List.mem_erase_of_ne hne).mpr ht
  have hrun : ∀ (i : Nat) (r : Run), k.runs[i]? = some r → Turn.run i ≠ t := by
    rintro i r hr rfl
    rw [show k.runs[i]? = none from hv] at hr
    cases hr
  have hload : ∀ (j : Nat) (l : Load), k.loads[j]? = some l → Turn.load j ≠ t ∧
      Turn.report j ≠ t := by
    intro j l hl
    constructor <;>
    · rintro rfl
      rw [show k.loads[j]? = none from hv] at hl
      cases hl
  refine ⟨h.positive, ?_, h.queued, h.holder, ?_⟩
  · intro i r hr
    refine (h.points i r hr).mono (hmem _ (hrun i r hr)) (fun _ _ _ _ _ hh => .inr hh) ?_
    intro j l g hl ho₁ _ _ _ hlive
    exact ⟨l, hl, ho₁, hlive.mono (hmem _ (hload j l hl).1) (hmem _ (hload j l hl).2)⟩
  · intro hl i hi
    obtain ⟨r, hr, -⟩ := ho.queued i (List.mem_of_head? hi)
    exact hmem _ (hrun i r hr) (h.summoned hl i hi)

theorem next_turn_live {k : Keeper} (h : k.Live) (ho : k.Orderly) (t : Turn) :
    (k.next (.turn t)).Live := by
  rcases next_turn k t with he | ⟨hmem, htake⟩
  · rw [he]
    exact h
  · generalize k.next (.turn t) = k' at htake
    cases htake with
    | @run id r _ hr hrun =>
      refine hrun.live (h.poised id) (ho.erase _) hr h.holder ?_
      exact fun hl i hi hne => (List.mem_erase_of_ne (by simpa using hne)).mpr (h.summoned hl i hi)
    | load hl hload => exact TakesLoad.live (k := k) hl hload h
    | report hl hreport => exact TakesReport.live (k := k) hl hreport h ho
    | alarm hr hp =>
      exact h.ready fun t ht hne => mem_addTurn ((List.mem_erase_of_ne (hne _)).mpr ht) _
    | idle hv => exact h.vacant ho hv

/-! ## Calls -/

theorem StopsLoads.live {k k' : Keeper} (hs : StopsLoads k k') (h : k.Live) : k'.Live := by
  have hloads := hs.loads
  obtain ⟨loads, ts, rfl, -, -⟩ := hs
  refine h.loads (fun i hi => List.mem_append_left _ hi) ?_
  intro j l hl hlive
  have hj := hloads j
  rw [hl] at hj
  obtain ⟨l', hl', he⟩ := Option.map_eq_some_iff.mp hj
  rw [Load.eq_of_uncanceled_eq he] at hl'
  exact ⟨_, hl', rfl, (Load.Live.congr hlive rfl rfl).mono (fun ht => List.mem_append_left _ ht)
    fun ht => List.mem_append_left _ ht⟩

theorem Live.modifyRun {k : Keeper} (h : k.Live) (id : Nat) {f : Run → Run}
    (hp : ∀ r, (f r).point = r.point) :
    (k.modifyRun id f).Live := by
  refine h.runs ?_ ?_
  · intro i r hr
    rw [List.getElem?_modify] at hr
    obtain ⟨r₀, hr₀, rfl⟩ := Option.map_eq_some_iff.mp hr
    refine ⟨r₀, hr₀, ?_⟩
    split
    · exact hp r₀
    · rfl
  · intro i r₀ hr₀
    refine ⟨if id = i then f r₀ else r₀, by simp [List.getElem?_modify, hr₀], ?_⟩
    split
    · exact hp r₀
    · rfl

theorem CancelsRun.live {k k' : Keeper} {id : Nat} (hc : CancelsRun k id k') (h : k.Live)
    (ho : k.Orderly) :
    k'.Live := by
  cases hc with
  | rests hp => exact h
  | flags hr hp => exact h.modifyRun id fun _ => rfl
  | wakes hr hp =>
    have hw : { k with ready := addTurn k.ready (.run id) }.Live :=
      h.ready fun t ht _ => mem_addTurn ht _
    exact hw.modifyRun id fun _ => rfl
  | @stops r g k₁ hr hg hd hs =>
    have hr₁ : k₁.runs[id]? = some r := by
      obtain ⟨loads, ts, rfl, -, -⟩ := hs
      exact hr
    have h₁ := hs.live h
    have hgl := (h₁.points id r hr₁).group hg
    exact h₁.group (hs.orderly ho) hr₁ hg ⟨hgl.nodup, hgl.done, hgl.awaits⟩

theorem Cancels.live {k k' : Keeper} (hc : Cancels k k') (h : k.Live) (ho : k.Orderly) :
    k'.Live := by
  have hboth := hc.induction (P := fun k => k.Live ∧ k.Orderly)
    (fun _ _ _ hk hcan => ⟨hcan.live hk.1 hk.2, hcan.orderly hk.2⟩) ⟨h, ho⟩
  exact hboth.1

theorem notify_live {k : Keeper} (h : k.Live) (ho : k.Orderly) (p : Path) (c : Change) :
    (k.notify p c).Live := by
  unfold notify
  split
  · exact h
  · exact ((cancelTimer_cancels { k with pending := k.pending.set p c }).live h ho).start
      .delayedRefresh

theorem unwantedRuns_live {k : Keeper} (h : k.Live) : { k with runs := k.unwantedRuns }.Live := by
  refine h.runs ?_ ?_
  · intro i r hr
    rw [unwantedRuns, List.getElem?_mapIdx] at hr
    obtain ⟨r₀, hr₀, rfl⟩ := Option.map_eq_some_iff.mp hr
    exact ⟨r₀, hr₀, rfl⟩
  · intro i r₀ hr₀
    exact ⟨{ r₀ with superseded := decide (k.current = some i) || r₀.superseded },
      by simp [unwantedRuns, List.getElem?_mapIdx, hr₀], rfl⟩

theorem dispose_live {k : Keeper} (h : k.Live) (ho : k.Orderly) : k.dispose.Live := by
  obtain ⟨k₁, k₂, provider, connected, changed, h₁, h₂, -, he⟩ := dispose_eq k
  have hl₁ : k₁.Live := h₁.live (unwantedRuns_live h) (unwantedRuns_orderly ho)
  have ho₁ : k₁.Orderly := h₁.orderly (unwantedRuns_orderly ho)
  have hl₂ : k₂.Live := h₂.live hl₁ ho₁
  rw [he]
  exact hl₂

theorem Reconfigures.live {k k' : Keeper} (hc : Reconfigures k k') (h : k.Live) : k'.Live := by
  induction hc with
  | sets => exact h
  | starts => exact Live.start h .rebuild
  | trans _ _ ih ih' => exact ih' (ih h)

theorem mem_foldl_addTurn {t : Turn} (ts : List Turn) {ready : List Turn} (h : t ∈ ready ∨ t ∈ ts) :
    t ∈ ts.foldl addTurn ready := by
  induction ts generalizing ready with
  | nil => simpa using h
  | cons t' ts ih =>
    refine ih ?_
    rcases h with h | h
    · exact .inl (mem_addTurn h t')
    · rcases List.mem_cons.mp h with rfl | h
      · exact .inl (mem_addTurn_self ready t)
      · exact .inr h

theorem isSearching_of_run {k : Keeper} {i : Nat} {r : Run} {d : Draft} {found : List Path}
    {pattern : Text} {rest : List Text} (hr : k.runs[i]? = some r)
    (hp : r.point = .searching d found pattern rest) :
    k.isSearching pattern i = true := by
  rw [isSearching, point?_of_run hr, hp]
  exact decide_eq_true rfl

theorem isHeldAt_of_load {k : Keeper} {j : Nat} {l : Load} (hl : k.loads[j]? = some l)
    (hp : l.point = .held) :
    k.isHeldAt l.path j = true := by
  cases l
  cases hp
  rw [isHeldAt, hl]
  exact decide_eq_true rfl

/-- What is handed out gives a turn to everyone who waits for it. -/
theorem next_release_live {k : Keeper} (h : k.Live) (g : Gate) : (k.next (.release g)).Live := by
  have he : k.next (.release g) = _ := foldl_wakeOnce_eq _ _
  rw [he]
  have hgate : ∀ x ∈ k.held, x = g ∨ x ∈ k.held.erase g := by
    intro x hx
    by_cases hxg : x = g
    · exact .inl hxg
    · exact .inr ((List.mem_erase_of_ne hxg).mpr hx)
  refine ⟨h.positive, ?_, h.queued, h.holder, fun hl i hi =>
    mem_foldl_addTurn _ (.inl (h.summoned hl i hi))⟩
  intro i r hr
  refine (h.points i r hr).mono (fun ht => mem_foldl_addTurn _ (.inl ht)) ?_ ?_
  · intro d found pattern rest hp hheld
    rcases hgate _ hheld with rfl | hheld'
    · refine .inl (mem_foldl_addTurn _ (.inr (List.mem_map_of_mem (List.mem_filter.mpr ⟨?_, ?_⟩))))
      · exact List.mem_range.mpr (List.getElem?_eq_some_iff.mp hr).1
      · exact isSearching_of_run hr hp
    · exact .inr hheld'
  · intro j l gr hl ho _ _ _ hlive
    refine ⟨l, hl, ho, ?_⟩
    unfold Load.Live at hlive ⊢
    cases hp : l.point with
    | created =>
      rw [hp] at hlive
      exact mem_foldl_addTurn _ (.inl hlive)
    | finished result =>
      rw [hp] at hlive
      exact mem_foldl_addTurn _ (.inl hlive)
    | held =>
      rw [hp] at hlive
      rcases hlive with hlive | hheld
      · exact .inl (mem_foldl_addTurn _ (.inl hlive))
      · rcases hgate _ hheld with rfl | hheld'
        · refine .inl
            (mem_foldl_addTurn _ (.inr (List.mem_map_of_mem (List.mem_filter.mpr ⟨?_, ?_⟩))))
          · exact List.mem_range.mpr (List.getElem?_eq_some_iff.mp hl).1
          · exact isHeldAt_of_load hl hp
        · exact .inr hheld'

/-! ## Courses -/

theorem next_live {k : Keeper} (h : k.Live) (ho : k.Orderly) (m : Move) : (k.next m).Live := by
  cases m with
  | rebuild => exact h.start .rebuild
  | startUp => exact h.start .startUp
  | refresh => exact h.start .refresh
  | notify p c => exact notify_live h ho p c
  | switchMode mode => exact (switchMode_reconfigures k mode).live h
  | changeSettings changes => exact (changeSettings_reconfigures k changes).live h
  | listen l => exact h
  | dispose => exact dispose_live h ho
  | turn t => exact next_turn_live h ho t
  | ring => exact h.ready fun t ht _ => List.mem_append_left _ ht
  | pass ms => exact h
  | hold g => exact h.hold g
  | release g => exact next_release_live h g
  | edit w => exact h

theorem new_live (w : Workspace) (provider : Provider Unit) (groupSize : Nat) (limit : Int)
    (delay : Nat) (watchable : Bool) : (new w provider groupSize limit delay watchable).Live := by
  have hpos : 0 < max 1 groupSize := by omega
  exact ⟨hpos, by simp [new], by simp [new], by simp [new], by simp [new]⟩

end Keeper
end StepAtlas
