import Mathlib.Algebra.BigOperators.Group.List.Basic
import Mathlib.Algebra.GroupWithZero.Nat
import Mathlib.Data.Prod.Lex
import StepAtlas.Proofs.Keeper.Reachable

/-
Turns run out.  Every turn of a run leads to a later stage of the run, or leaves less to do in the
present one; between two such turns the loads of a group end and report, each of them once.  So as
long as nothing is asked of a keeper, it can take finitely many turns only, in whatever order it
takes them.

A call returns, then: while a run has not ended and nothing is held back there is a turn to take,
and there are finitely many.  `Returns` says what holds when a run returns, for every order of the
turns.
-/

namespace StepAtlas

def FileClass.stage : FileClass → Nat
  | .definition => 1
  | .feature => 3

namespace Point

def stage : Point → Nat
  | .finished _ => 0
  | .applying _ _ => 1
  | .loading d _ _ | .yielding d _ => d.cls.stage
  | .searching d _ _ _ => d.cls.stage + 1
  | .queued => 5
  | .sleeping _ => 6
  | .created => 7

def left : Point → Nat
  | .searching _ _ _ rest => rest.length
  | .loading _ _ rest | .yielding _ rest => rest.length
  | _ => 0

/-- The turns that a run will take before the next group of files. -/
def pace : Point → Nat
  | .loading _ g _ | .applying _ g => if g.isDone then 1 else 2
  | _ => 0

/-- One point is nearer to the end of a run than another. -/
def Nearer (p q : Point) : Prop := p.stage < q.stage ∨ (p.stage = q.stage ∧ p.left < q.left)

theorem stage_withGroup (p : Point) (g : Group) : (p.withGroup g).stage = p.stage := by
  cases p with
  | _ => rfl

theorem left_withGroup (p : Point) (g : Group) : (p.withGroup g).left = p.left := by
  cases p with
  | _ => rfl

theorem pace_of_group? {p : Point} {g : Group} (h : p.group? = some g) :
    p.pace = if g.isDone then 1 else 2 := by
  cases p with
  | loading | applying => cases h; rfl
  | _ => cases h

theorem stage_pos_of_draft? {p : Point} {d : Draft} (h : p.draft? = some d) : 0 < p.stage := by
  have hcls : ∀ cls : FileClass, 0 < cls.stage := fun cls => by cases cls <;> decide
  cases p with
  | searching d => exact Nat.succ_pos _
  | loading d | yielding d => exact hcls d.cls
  | _ => cases h

end Point

def Load.cost (l : Load) : Nat :=
  match l.point with
  | .finished _ => 0
  | _ => 1

def Turn.weight : Turn → Nat
  | .alarm _ => 2
  | _ => 1

namespace Keeper

/-! ## The way of a run -/

def WaitsAt (k : Keeper) (id : Nat) (P : Point → Prop) : Prop := ∃ p, k.point? id = some p ∧ P p

theorem searchFrom_shorter {k : Keeper} {exclude : List Text} {found found' : List Path}
    {patterns rest : List Text} {pattern : Text}
    (h : k.searchFrom exclude found patterns = .waits found' pattern rest) :
    rest.length < patterns.length := by
  induction patterns generalizing found with
  | nil => cases h
  | cons first patterns ih =>
    rw [searchFrom] at h
    split at h
    · cases h
      exact Nat.lt_succ_self _
    · split at h
      · exact Nat.lt_succ_of_lt (ih h)
      · cases h

section
variable {k : Keeper} {id : Nat} {r : Run} (hr : k.runs[id]? = some r) {q : Point}

include hr

theorem giveUp_nearer (result : Except Stop Bool) (hq : 0 < q.stage) :
    (k.giveUp id result).WaitsAt id (·.Nearer q) :=
  ⟨_, point?_giveUp_self hr result, .inl hq⟩

theorem complete_nearer (d : Draft) (hq : 0 < q.stage) :
    (k.complete id d).WaitsAt id (·.Nearer q) := by
  unfold complete
  split
  · exact giveUp_nearer hr _ hq
  · split
    · rename_i c hc
      obtain ⟨told, subscriptions, he⟩ := publish_eq k id c
      rw [he]
      exact ⟨_, point?_finish_self (k := { k with .. }) hr _, .inl hq⟩
    · exact giveUp_nearer hr _ hq

/-- A group of files is left behind with every turn, or there is none. -/
theorem loadGroup_nearer (hpos : 0 < k.groupSize) {next : Keeper → Keeper} {d : Draft}
    {files : List Path}
    (hq : d.cls.stage < q.stage ∨ (d.cls.stage = q.stage ∧ files.length ≤ q.left))
    (hnext : (next k).WaitsAt id (·.Nearer q)) :
    (loadGroup next k id d files).WaitsAt id (·.Nearer q) := by
  have hstage : 0 < q.stage := by
    have : 0 < d.cls.stage := by cases d.cls <;> decide
    omega
  unfold loadGroup
  split
  · exact hnext
  · rename_i hne
    split
    · exact giveUp_nearer hr _ hstage
    · refine ⟨_, point?_wait_self (k := (k.startLoads id _).1) hr _, ?_⟩
      have hlen : (files.drop k.groupSize).length < files.length := by
        have := List.length_pos_of_ne_nil hne
        rw [List.length_drop]
        omega
      rcases hq with hq | ⟨hs, hl⟩
      · exact .inl hq
      · exact .inr ⟨hs, Nat.lt_of_lt_of_le hlen hl⟩

theorem searched_nearer {next : Keeper → Nat → Draft → List Path → Keeper} {d : Draft}
    {search : Search} (hq : 0 < q.stage)
    (hwaits : ∀ found pattern rest, search = .waits found pattern rest →
      (Point.searching d found pattern rest).Nearer q)
    (hnext : ∀ files, (next k id d files).WaitsAt id (·.Nearer q)) :
    (searched next k id d search).WaitsAt id (·.Nearer q) := by
  cases search with
  | waits found pattern rest => exact ⟨_, point?_wait_self hr _, hwaits found pattern rest rfl⟩
  | done files =>
    rw [searched]
    split
    · exact giveUp_nearer hr _ hq
    · exact hnext files
  | failed fault => exact giveUp_nearer hr _ hq

variable (hpos : 0 < k.groupSize)

include hpos

theorem loadDefinitions_nearer {d : Draft} {files : List Path}
    (hq : d.cls.stage < q.stage ∨ (d.cls.stage = q.stage ∧ files.length ≤ q.left)) :
    (k.loadDefinitions id d files).WaitsAt id (·.Nearer q) := by
  refine loadGroup_nearer hr hpos hq (complete_nearer hr d ?_)
  have : 0 < d.cls.stage := by cases d.cls <;> decide
  omega

theorem searchDefinitions_nearer (d : Draft) (hq : 2 < q.stage) :
    (k.searchDefinitions id d).WaitsAt id (·.Nearer q) := by
  have hone : FileClass.stage .definition < q.stage := Nat.lt_trans (by decide) hq
  exact searched_nearer hr (Nat.zero_lt_of_lt hq) (fun _ _ _ _ => .inl hq)
    fun files => loadDefinitions_nearer hr hpos (.inl hone)

theorem loadFiles_nearer {d : Draft} {files : List Path}
    (hq : d.cls.stage < q.stage ∨ (d.cls.stage = q.stage ∧ files.length ≤ q.left)) :
    (k.loadFiles id d files).WaitsAt id (·.Nearer q) := by
  unfold loadFiles
  split
  · rename_i hc
    refine loadGroup_nearer hr hpos hq (searchDefinitions_nearer hr hpos d ?_)
    have : d.cls.stage = 3 := by rw [hc]; rfl
    omega
  · exact loadDefinitions_nearer hr hpos hq

theorem resumeSearch_nearer (d : Draft) (found : List Path) (pattern : Text) (rest : List Text) :
    (k.resumeSearch id d found pattern rest).WaitsAt id
      (·.Nearer (.searching d found pattern rest)) := by
  unfold resumeSearch
  split
  · refine searched_nearer hr (Nat.succ_pos _) ?_ fun files =>
      loadFiles_nearer hr hpos (.inl (Nat.lt_succ_self _))
    intro found' pattern' rest' hs
    exact .inr ⟨rfl, searchFrom_shorter hs⟩
  · exact giveUp_nearer hr _ (Nat.succ_pos _)

end

theorem Builds.stage_le {k k' : Keeper} {id : Nat} {d : Draft} {goal : Except Fault Catalog}
    (hb : Builds k id d goal k') {s : Run} (hs : k.runs[id]? = some s) :
    k'.WaitsAt id (·.stage ≤ 4) := by
  have hcls : ∀ cls : FileClass, cls.stage ≤ 3 := fun cls => by cases cls <;> decide
  cases hb with
  | @searches d' => exact ⟨_, point?_wait_self hs _, Nat.succ_le_succ (hcls d'.cls)⟩
  | @loads d' files rest =>
    exact ⟨_, point?_wait_self (k := (k.startLoads id _).1) hs _, Nat.le_succ_of_le (hcls d'.cls)⟩
  | abandons | fails => exact ⟨_, point?_giveUp_self hs _, Nat.zero_le 4⟩
  | @publishes c =>
    obtain ⟨told, subscriptions, he⟩ := publish_eq k id c
    rw [he]
    exact ⟨_, point?_finish_self (k := { k with .. }) hs _, Nat.zero_le 4⟩

theorem Enters.stage_le {k k' : Keeper} {id : Nat} {job : Job} (he : Enters k id job k') {s : Run}
    (hs : k.runs[id]? = some s) : k'.WaitsAt id (·.stage ≤ 4) := by
  cases he with
  | builds _ hb => exact hb.stage_le hs
  | idles => exact ⟨_, point?_leave_self (k := { k with pending := .empty }) hs _, Nat.zero_le 4⟩
  | takesOver =>
    exact ⟨_, point?_wait_self (k := ({ k with pending := .empty }.startLoads id _).1) hs _,
      by simp [Point.stage]⟩

/-- What a turn of a run does to the way that is left: it makes it shorter, except that a run that
has ended rests and a group of files is entered before the next one. -/
inductive Treads (k : Keeper) (id : Nat) (r : Run) (k' : Keeper) : Prop where
  | rests (h : k' = k)
  | nearer (h : k'.WaitsAt id (·.Nearer r.point))
  | enters {d d' : Draft} {g : Group} {rest : List Path} (hp : r.point = .loading d g rest)
      (hd : d'.cls = d.cls)
      (h : k' = { k with ready := k.ready ++ [Turn.run id] }.wait id (.yielding d' rest))

theorem Arrives.le_stage {k k₀ : Keeper} {id : Nat} {r : Run} (ha : Arrives k id r k₀) :
    6 ≤ r.point.stage := by
  cases ha with
  | rebuild hp | startUp hp | refresh hp => rw [hp]; decide
  | wakes hp => rw [hp]; exact Nat.le_refl 6

theorem takeRun_treads {k : Keeper} (hpos : 0 < k.groupSize) {id : Nat} {r : Run}
    (hr : k.runs[id]? = some r) :
    Treads k id r (k.takeRun id r) := by
  have ht := takeRun_takesRun k id r
  generalize hk' : k.takeRun id r = k' at ht ⊢
  -- Whoever takes the lock has been at stage five at least, and holding it is below that.
  have henters : ∀ {k₁ : Keeper} {s : Run}, Enters k₁ id r.job k' → k₁.runs[id]? = some s →
      5 ≤ r.point.stage → Treads k id r k' := by
    intro k₁ s he hs hstage
    obtain ⟨p, hp, hle⟩ := he.stage_le hs
    exact .nearer ⟨p, hp, .inl (by omega)⟩
  cases ht with
  | rests => exact .rests rfl
  | stops hp =>
    refine .nearer ⟨_, point?_wait_self hr _, .inl ?_⟩
    rcases hp with hp | ⟨time, hp⟩ <;> rw [hp] <;> exact Nat.succ_pos _
  | sleeps hp =>
    refine .nearer ⟨_, point?_wait_self (k := { k with ready := _ }) hr _, .inl ?_⟩
    rw [hp]
    exact Nat.lt_succ_self 6
  | @queues k₀ hc ha hl =>
    obtain ⟨superseded, hr₀⟩ := ha.run hr
    exact .nearer ⟨_, point?_wait_self (k := { k₀ with queue := _ }) hr₀ _, .inl ha.le_stage⟩
  | enters hc ha hl hq he =>
    obtain ⟨superseded, hr₀⟩ := ha.run hr
    exact henters he hr₀ (Nat.le_of_succ_le ha.le_stage)
  | quits hp =>
    refine .nearer ⟨_, point?_wait_self (k := { k with queue := _, ready := _ }) hr _, .inl ?_⟩
    rw [hp]
    exact Nat.succ_pos 4
  | admitted hp hc he => exact henters he hr (by rw [hp]; exact Nat.le_refl 5)
  | @resumes d found pattern rest _ hp hc =>
    have hresume : k.takeRun id r = k.resumeSearch id d found pattern rest := by
      simp [takeRun, hp, hc]
    rw [← hk', hresume]
    exact .nearer (hp ▸ resumeSearch_nearer hr hpos d found pattern rest)
  | yields hp =>
    refine .enters hp ?_ rfl
    rfl
  | @continues d rest _ hp hc =>
    have hload : k.takeRun id r = k.loadFiles id d rest := by simp [takeRun, hp, hc]
    rw [← hk', hload]
    exact .nearer (hp ▸ loadFiles_nearer hr hpos (.inr ⟨rfl, Nat.le_refl _⟩))
  | givesUp hp => exact .nearer (giveUp_nearer hr _ (Point.stage_pos_of_draft? hp))
  | leaves hp => exact .nearer ⟨_, point?_leave_self hr _, .inl (by rw [hp]; exact Nat.one_pos)⟩
  | @breaks changes g c fault hp =>
    exact .nearer ⟨_, point?_leave_self (k := { k with catalog := c }) hr _,
      .inl (by rw [hp]; exact Nat.one_pos)⟩
  | applies hp =>
    exact .nearer ⟨_, point?_wait_self (k := { k with .. }) hr _,
      .inl (by rw [hp]; exact Nat.one_pos)⟩

/-! ## What is left to do -/

def total (k : Keeper) (f : Point → Nat) : Nat := (k.runs.map fun r => f r.point).sum

def chores (k : Keeper) : Nat :=
  k.total Point.pace + (k.loads.map Load.cost).sum + (k.ready.map Turn.weight).sum

def toil (k : Keeper) : Nat ×ₗ Nat ×ₗ Nat :=
  toLex (k.total Point.stage, toLex (k.total Point.left, k.chores))

theorem toil_lt_iff {k k' : Keeper} :
    k'.toil < k.toil ↔ k'.total Point.stage < k.total Point.stage ∨
    (k'.total Point.stage = k.total Point.stage ∧ (k'.total Point.left < k.total Point.left ∨
      (k'.total Point.left = k.total Point.left ∧ k'.chores < k.chores))) := by
  rw [toil, toil, Prod.Lex.toLex_lt_toLex]
  simp only [Prod.Lex.toLex_lt_toLex]

/-- A sum that changes in one place. -/
theorem sum_add_of_forall_ne {xs ys : List Nat} {i a b : Nat} (hlen : ys.length = xs.length)
    (ha : xs[i]? = some a) (hb : ys[i]? = some b) (h : ∀ j, j ≠ i → ys[j]? = xs[j]?) :
    ys.sum + a = xs.sum + b := by
  induction xs generalizing ys i with
  | nil => cases ha
  | cons x xs ih =>
    cases ys with
    | nil => cases hlen
    | cons y ys =>
      rw [List.sum_cons, List.sum_cons]
      cases i with
      | zero =>
        obtain rfl : ys = xs := List.ext_getElem? fun j => h (j + 1) (by omega)
        have hx : x = a := by simpa using ha
        have hy : y = b := by simpa using hb
        omega
      | succ i =>
        have hxy : y = x := by simpa using h 0 (by omega)
        have := ih (Nat.succ.inj hlen) ha hb fun j hj => h (j + 1) (by omega)
        omega

theorem total_add {k k' : Keeper} (hlen : k'.runs.length = k.runs.length) {i : Nat} {p p' : Point}
    (hp : k.point? i = some p) (hp' : k'.point? i = some p')
    (h : ∀ j, j ≠ i → k'.point? j = k.point? j) (f : Point → Nat) :
    k'.total f + f p = k.total f + f p' := by
  have hget : ∀ (k : Keeper) (j : Nat), (k.runs.map fun r => f r.point)[j]? =
      (k.point? j).map f := by
    intro k j
    rw [List.getElem?_map, point?, Option.map_map]
    rfl
  refine sum_add_of_forall_ne (i := i) (by simp [hlen]) ?_ ?_ ?_
  · rw [hget, hp]; rfl
  · rw [hget, hp']; rfl
  · intro j hj
    rw [hget, hget, h j hj]

theorem weight_pos (t : Turn) : 0 < t.weight := by
  cases t with
  | alarm => exact Nat.succ_pos 1
  | _ => exact Nat.one_pos

theorem weight_erase {ready : List Turn} {t : Turn} (h : t ∈ ready) :
    t.weight + ((ready.erase t).map Turn.weight).sum = (ready.map Turn.weight).sum :=
  List.sum_map_erase Turn.weight h

theorem weight_addTurn (ready : List Turn) (id : Nat) :
    ((addTurn ready (.run id)).map Turn.weight).sum ≤ (ready.map Turn.weight).sum + 1 := by
  unfold addTurn
  split
  · omega
  · simp [Turn.weight]

/-- The turn of a run makes less of what is left to do. -/
theorem Treads.toil_lt {k k' : Keeper} {id : Nat} {r : Run} (ht : Turn.run id ∈ k.ready)
    (hr : k.runs[id]? = some r) (h : Treads { k with ready := k.ready.erase (.run id) } id r k')
    (hf : Frame id { k with ready := k.ready.erase (.run id) }.core k'.core) : k'.toil <
    k.toil := by
  have hweight := weight_erase ht
  have hone : Turn.weight (.run id) = 1 := rfl
  rw [toil_lt_iff]
  cases h with
  | rests h =>
    subst h
    refine .inr ⟨rfl, .inr ⟨rfl, ?_⟩⟩
    show k.total Point.pace + (k.loads.map Load.cost).sum +
      ((k.ready.erase (.run id)).map Turn.weight).sum < k.chores
    rw [chores]
    omega
  | nearer h =>
    obtain ⟨p, hp, hnear⟩ := h
    have htotal := total_add (k := k) hf.length (point?_of_run hr) hp fun j hj => hf.point? hj
    have hstage := htotal Point.stage
    have hleft := htotal Point.left
    rcases hnear with hnear | ⟨hsame, hnear⟩
    · exact .inl (by omega)
    · exact .inr ⟨by omega, .inl (by omega)⟩
  | @enters d d' g rest hp hd h =>
    have hpoint : k'.point? id = some (.yielding d' rest) := by
      rw [h]
      exact point?_wait_self (k := { k with ready := _ }) hr _
    have htotal := total_add (k := k) hf.length (point?_of_run hr) hpoint fun j hj => hf.point? hj
    have hstage := htotal Point.stage
    have hleft := htotal Point.left
    have hpace := htotal Point.pace
    rw [hp] at hstage hleft hpace
    have hs : (Point.yielding d' rest).stage = (Point.loading d g rest).stage :=
      congrArg FileClass.stage hd
    have hl : (Point.yielding d' rest).left = (Point.loading d g rest).left := rfl
    have hp₀ : (Point.yielding d' rest).pace < (Point.loading d g rest).pace := by
      show 0 < if g.isDone then 1 else 2
      split <;> omega
    -- Neither the stage nor the files left tell the two points apart.  The pace does, and one turn
    -- replaces another.
    refine .inr ⟨by omega, .inr ⟨by omega, ?_⟩⟩
    have hloads : k'.loads = k.loads := by rw [h]; rfl
    have hready : (k'.ready.map Turn.weight).sum =
        ((k.ready.erase (.run id)).map Turn.weight).sum + 1 := by
      rw [h]
      simp [wait, modifyRun, Turn.weight]
    rw [chores, chores, hloads, hready]
    omega

/-- A turn that is taken without effect is one less. -/
theorem toil_erase_lt {k : Keeper} {t : Turn} (ht : t ∈ k.ready) :
    { k with ready := k.ready.erase t }.toil < k.toil := by
  refine toil_lt_iff.mpr (.inr ⟨rfl, .inr ⟨rfl, ?_⟩⟩)
  have hweight := weight_erase ht
  have hpos := weight_pos t
  show k.total Point.pace + (k.loads.map Load.cost).sum + ((k.ready.erase t).map Turn.weight).sum <
    k.total Point.pace + (k.loads.map Load.cost).sum + (k.ready.map Turn.weight).sum
  omega

theorem cost_modify {loads : List Load} {id : Nat} {l : Load} (hl : loads[id]? = some l)
    (f : Load → Load) :
    ((loads.modify id f).map Load.cost).sum + l.cost = (loads.map Load.cost).sum + (f l).cost := by
  refine sum_add_of_forall_ne (i := id) (by simp) (by simp [hl]) (by simp [hl]) ?_
  intro j hj
  simp [hj.symm]

theorem TakesLoad.toil_lt {k k' : Keeper} {id : Nat} {l : Load} (ht : Turn.load id ∈ k.ready)
    (hl : k.loads[id]? = some l)
    (h : TakesLoad { k with ready := k.ready.erase (.load id) } id l k') :
    k'.toil < k.toil := by
  have hweight := weight_erase ht
  have hone : Turn.weight (.load id) = 1 := rfl
  cases h with
  | rests hp => exact toil_erase_lt ht
  | waits hp =>
    have hcost := cost_modify hl fun l => { l with point := .held }
    have hbefore : l.cost = 1 := by rw [Load.cost, hp]
    have hafter : { l with point := .held }.cost = 1 := rfl
    refine toil_lt_iff.mpr (.inr ⟨rfl, .inr ⟨rfl, ?_⟩⟩)
    show k.total Point.pace +
      ((k.loads.modify id fun l => { l with point := .held }).map Load.cost).sum +
      ((k.ready.erase (.load id)).map Turn.weight).sum < k.chores
    rw [chores]
    omega
  | @ends es result hp =>
    have hcost := cost_modify hl fun l => { l with point := .finished result }
    have hbefore : l.cost = 1 := by
      unfold Load.cost
      split
      · rename_i result' hp'
        exact absurd hp' (hp result')
      · rfl
    have hafter : { l with point := .finished result }.cost = 0 := rfl
    have hreport : ([Turn.report id].map Turn.weight).sum = 1 := rfl
    refine toil_lt_iff.mpr (.inr ⟨rfl, .inr ⟨rfl, ?_⟩⟩)
    show k.total Point.pace +
      ((k.loads.modify id fun l => { l with point := .finished result }).map Load.cost).sum +
      (((k.ready.erase (.load id)) ++ [Turn.report id]).map Turn.weight).sum < k.chores
    rw [chores, List.map_append, List.sum_append]
    omega

theorem TakesReport.toil_lt {k k' : Keeper} {id : Nat} {l : Load} (ht : Turn.report id ∈ k.ready)
    (h : TakesReport { k with ready := k.ready.erase (.report id) } id l k') :
    k'.toil < k.toil := by
  have hweight := weight_erase ht
  have hone : Turn.weight (.report id) = 1 := rfl
  cases h with
  | rests => exact toil_erase_lt ht
  | @delivers r g result hl hr hg hd ha =>
    generalize hready : (if (g.report id result).isDone = true then _ else _) = ready
    have hlen :
        ({ k with ready }.wait l.owner (r.point.withGroup (g.report id result))).runs.length =
          k.runs.length := by
      simp [wait, modifyRun]
    have htotal := total_add hlen (point?_of_run hr) (point?_wait_self (k := { k with ready }) hr _)
      fun j hj => point?_wait_of_ne (k := { k with ready }) hj _
    have hstage := htotal Point.stage
    have hleft := htotal Point.left
    have hpace := htotal Point.pace
    rw [Point.stage_withGroup] at hstage
    rw [Point.left_withGroup] at hleft
    rw [Point.pace_of_group? hg, Point.pace_of_group? (Point.group?_withGroup hg _), hd] at hpace
    refine toil_lt_iff.mpr
      (.inr ⟨Nat.add_right_cancel hstage, .inr ⟨Nat.add_right_cancel hleft, ?_⟩⟩)
    have hturns : (ready.map Turn.weight).sum = ((k.ready.erase (.report id)).map Turn.weight).sum +
        if (g.report id result).isDone then 1 else 0 := by
      rw [← hready]
      split
      · simp [Turn.weight]
      · rfl
    show ({ k with ready }.wait l.owner (r.point.withGroup (g.report id result))).total Point.pace +
      (k.loads.map Load.cost).sum + (ready.map Turn.weight).sum < k.chores
    rw [chores]
    cases hdone : (g.report id result).isDone with
    | true =>
      simp only [hdone, if_true, Bool.false_eq_true, if_false] at hpace hturns
      omega
    | false =>
      simp only [hdone, Bool.false_eq_true, if_false] at hpace hturns
      omega

/-- Every turn that is taken makes less of what is left to do. -/
theorem next_turn_toil_lt {k : Keeper} (hpos : 0 < k.groupSize) {t : Turn} (ht : t ∈ k.ready) :
    (k.next (.turn t)).toil < k.toil := by
  have he : k.next (.turn t) = { k with ready := k.ready.erase t }.take t := if_pos ht
  have htakes := take_takes { k with ready := k.ready.erase t } t
  rw [← he] at htakes
  generalize hk' : k.next (.turn t) = k' at htakes ⊢
  cases htakes with
  | @run id r _ hr hrun =>
    have htreads := takeRun_treads (k := { k with ready := k.ready.erase (.run id) }) hpos hr
    rw [← next_eq_takeRun (k := k) hr ht, hk'] at htreads
    exact htreads.toil_lt ht hr hrun.frame
  | load hl hload => exact hload.toil_lt ht hl
  | report hl hreport => exact hreport.toil_lt ht
  | @alarm id time r hr hp =>
    have hweight := weight_erase ht
    have hadd := weight_addTurn (k.ready.erase (.alarm id)) id
    have htwo : Turn.weight (.alarm id) = 2 := rfl
    refine toil_lt_iff.mpr (.inr ⟨rfl, .inr ⟨rfl, ?_⟩⟩)
    show k.total Point.pace + (k.loads.map Load.cost).sum +
      ((addTurn (k.ready.erase (.alarm id)) (.run id)).map Turn.weight).sum < k.chores
    rw [chores]
    omega
  | idle => exact toil_erase_lt ht

/-! ## Returning -/

/-- In whatever order turns are taken, a run returns, and `P` holds at that time. -/
inductive Returns (i : Nat) (P : Keeper → Prop) : Keeper → Prop where
  | ended {k : Keeper} {result : Except Stop Bool} (h : k.result? i = some result) (hp : P k) :
      Returns i P k
  | turns {k : Keeper} (hn : k.result? i = none) (hr : k.ready ≠ [])
      (h : ∀ t ∈ k.ready, Returns i P (k.next (.turn t))) : Returns i P k

theorem Returns.imp {i : Nat} {P Q : Keeper → Prop} (himp : ∀ k, P k → Q k) {k : Keeper}
    (h : Returns i P k) :
    Returns i Q k := by
  induction h with
  | ended h hp => exact .ended h (himp _ hp)
  | turns hn hr _ ih => exact .turns hn hr ih

/-- What holds whenever a run returns holds at some time. -/
theorem Returns.exists_and {i : Nat} {P Q : Keeper → Prop} {k : Keeper} (h : Returns i P k)
    (h' : Returns i Q k) :
    ∃ k', P k' ∧ Q k' := by
  induction h with
  | ended h hp =>
    cases h' with
    | ended _ hq => exact ⟨_, hp, hq⟩
    | turns hn => cases hn.symm.trans h
  | @turns k hn hr _ ih =>
    obtain ⟨t, ht⟩ := List.exists_mem_of_ne_nil _ hr
    cases h' with
    | ended h _ => cases hn.symm.trans h
    | turns _ _ h' => exact ih t ht (h' t ht)

def Returned (i : Nat) (P : Keeper → Prop) (k : Keeper) : Prop :=
  (∃ result, k.result? i = some result) ∧ P k

/-- A run returns if it does not sleep and nothing is held back.  What every turn keeps up to then
holds at the turn in which it returns. -/
theorem returns_of_invariant {i : Nat} {P : Keeper → Prop} (I : Keeper → Prop)
    (hstep : ∀ k t, k.Reachable → I k → t ∈ k.ready → I (k.next (.turn t)) ∨
      Returned i P (k.next (.turn t)))
    (hlive : ∀ k, I k → k.held = [] ∧ ∃ r, k.runs[i]? = some r ∧
      (∀ result, r.point ≠ .finished result) ∧ ∀ time, r.point ≠ .sleeping time) {k : Keeper}
    (hk : k.Reachable) (h : I k) : Returns i P k := by
  induction hw : k.toil using WellFoundedLT.induction generalizing k with
  | ind w ih =>
    obtain ⟨hheld, r, hr, hn, hs⟩ := hlive k h
    have hready : k.ready ≠ [] := by
      intro hready
      rcases hk.live.ended hready hheld hr with ⟨result, hp⟩ | ⟨time, hp⟩
      · exact hn result hp
      · exact hs time hp
    refine .turns ((result?_eq_none_iff hr).mpr hn) hready fun t ht => ?_
    rcases hstep k t hk h ht with hI | ⟨⟨result, hresult⟩, hP⟩
    · exact ih _ (hw ▸ next_turn_toil_lt hk.live.positive ht) (hk.next (by simp)) hI rfl
    · exact .ended hresult hP

end Keeper
end StepAtlas
