import StepAtlas.Proofs.Keeper.Runs
import StepAtlas.Proofs.Keeper.Writes

/-
Runs that build overlap.  A call makes a run, and the run opens with its first turn: from then on
the catalog of no other one is wanted.  A run that is not wanted any more need not notice that at
once: it may have to wait for the lock, for a search or for its files first.  Below, `Standing` says
whose catalog is wanted between any two moves, and `Succession` what follows from that over a whole
course: who changes the catalog, in which order, and how those end that come too late.
-/

namespace StepAtlas

/-- A run that builds, before its first turn, unless it was told to stop. -/
def Run.opens (r : Run) : Bool :=
  match r.point with
  | .created => !r.job.refreshes && !r.canceled
  | _ => false

def Run.isBuilding (r : Run) : Bool :=
  match r.point with
  | .created | .finished _ => false
  | _ => !r.job.refreshes

theorem Run.opens_iff {r : Run} :
    r.opens = true ↔ r.point = .created ∧ r.job.refreshes = false ∧ r.canceled = false := by
  unfold opens
  split
  · rename_i hp
    simp [hp]
  · rename_i hp
    simpa using fun h => absurd h hp

theorem Run.opens_eq_false_of_ne {r : Run} (h : r.point ≠ .created) : r.opens = false := by
  rw [← Bool.not_eq_true, Run.opens_iff]
  exact fun ho => h ho.1

theorem Run.isBuilding_iff {r : Run} :
    r.isBuilding = true ↔ r.job.refreshes = false ∧ r.point ≠ .created ∧
      ∀ result, r.point ≠ .finished result := by
  unfold isBuilding
  split
  · rename_i hp
    simp [hp]
  · rename_i result hp
    simp [hp]
  · rename_i hcreated hfinished
    simpa using fun _ => ⟨hcreated, hfinished⟩

theorem Run.isBuilding_of_stays {r r' : Run} (h : r'.isBuilding = true) (hj : r'.job = r.job)
    (hp : r.point.Stays r'.point) : r.isBuilding = true := by
  obtain ⟨hjob, hcreated, hfinished⟩ := Run.isBuilding_iff.mp h
  refine Run.isBuilding_iff.mpr ⟨hj ▸ hjob, ?_, ?_⟩
  · intro hr
    exact hcreated (by rw [hp.of_group?_eq_none (by rw [hr]; rfl), hr])
  · intro result hr
    exact hfinished result (by rw [hp.of_group?_eq_none (by rw [hr]; rfl), hr])

namespace Keeper

/-! ## Whose catalog is wanted -/

/-- The run that opens with a move: one that builds has its first turn. -/
def opening? (k : Keeper) : Move → Option Nat
  | .turn (.run i) =>
    if Turn.run i ∈ k.ready ∧ (k.runs[i]?).any Run.opens = true then some i else none
  | _ => none

theorem opening?_eq_some_iff {k : Keeper} {m : Move} {i : Nat} :
    k.opening? m = some i ↔ ∃ r, m = .turn (.run i) ∧ Turn.run i ∈ k.ready ∧ k.runs[i]? = some r ∧
      r.opens = true := by
  unfold opening?
  split
  · rename_i j
    by_cases hj : Turn.run j ∈ k.ready ∧ (k.runs[j]?).any Run.opens = true
    · rw [if_pos hj]
      obtain ⟨hready, hopens⟩ := hj
      obtain ⟨r, hr, ho⟩ := (Option.any_eq_true _ _).mp hopens
      constructor
      · intro h
        cases h
        exact ⟨r, rfl, hready, hr, ho⟩
      · rintro ⟨s, hm, -⟩
        cases hm
        rfl
    · rw [if_neg hj]
      constructor
      · intro h
        cases h
      · rintro ⟨s, hm, hready, hs, hopens⟩
        cases hm
        exact absurd ⟨hready, (Option.any_eq_true _ _).mpr ⟨s, hs, hopens⟩⟩ hj
  · rename_i hm
    constructor
    · intro h
      cases h
    · rintro ⟨s, rfl, -⟩
      exact absurd rfl (hm i)

def supersededBy (k : Keeper) (m : Move) (i : Nat) (r : Run) : Bool :=
  match k.opening? m with
  | some j => if i = j then k.disposed else decide (k.current = some i) || r.superseded
  | none => k.outdated m i || r.superseded

theorem isSuperseded_of_run {k : Keeper} {i : Nat} {r : Run} (hr : k.runs[i]? = some r) :
    k.isSuperseded i = r.superseded := by
  rw [isSuperseded, hr]
  rfl

theorem isSuperseded_congr {k k' : Keeper}
    (h : k'.runs.map Run.superseded = k.runs.map Run.superseded) (i : Nat) :
    k'.isSuperseded i = k.isSuperseded i := by
  have hany : ∀ k : Keeper, k.isSuperseded i = ((k.runs.map Run.superseded)[i]?).any id := by
    intro k
    rw [isSuperseded, List.getElem?_map, Option.any_map]
    rfl
  rw [hany, hany, h]

/-- What the turn of a run leaves of who is wanted: a run that ends is not the one any more. -/
structure Settles (k : Keeper) (id : Nat) (k' : Keeper) : Prop where
  superseded : k'.runs.map Run.superseded = k.runs.map Run.superseded
  current : k'.current = k.current ∨
    k'.current = k.currentWithout id ∧ ∃ result, k'.point? id = some (.finished result)

theorem superseded_wait (k : Keeper) (id : Nat) (p : Point) :
    (k.wait id p).runs.map Run.superseded = k.runs.map Run.superseded := by
  apply List.ext_getElem?
  intro i
  simp only [wait, modifyRun, List.getElem?_map, List.getElem?_modify]
  cases k.runs[i]? with
  | none => rfl
  | some r => by_cases hi : id = i <;> simp [hi]

theorem Settles.wait (k : Keeper) (id : Nat) (p : Point) : Settles k id (k.wait id p) :=
  ⟨superseded_wait k id p, .inl rfl⟩

theorem Settles.giveUp {k : Keeper} {id : Nat} {r : Run} (hr : k.runs[id]? = some r)
    (result : Except Stop Bool) :
    Settles k id (k.giveUp id result) := by
  have hp := point?_giveUp_self hr result
  obtain ⟨subscriptions, he⟩ := giveUp_eq k id result
  rw [he] at hp ⊢
  exact ⟨superseded_wait k id _, .inr ⟨rfl, result, hp⟩⟩

theorem Builds.settles {k k' : Keeper} {id : Nat} {d : Draft} {goal : Except Fault Catalog}
    (hb : Builds k id d goal k') {r : Run} (hr : k.runs[id]? = some r) : Settles k id k' := by
  cases hb with
  | searches hs hd hg => exact .wait k id _
  | loads hs hd hg => exact ⟨superseded_wait k id _, .inl rfl⟩
  | abandons hw => exact .giveUp hr _
  | fails hf => exact .giveUp hr _
  | publishes hw hg hre =>
    obtain ⟨told, subscriptions, he⟩ := publish_eq k id _
    rw [he]
    exact ⟨superseded_wait k id _, .inr ⟨rfl, _, point?_wait_self (k := { k with .. }) hr _⟩⟩

theorem Enters.settles {k k' : Keeper} {id : Nat} {job : Job} (he : Enters k id job k') {r : Run}
    (hr : k.runs[id]? = some r) : Settles k id k' := by
  cases he with
  | builds hj hb => exact hb.settles hr
  | idles hj hp =>
    rw [leave_eq]
    exact ⟨superseded_wait k id _, .inl rfl⟩
  | takesOver hj hp hd => exact ⟨superseded_wait k id _, .inl rfl⟩

/-- Who is wanted once a run has come to the lock. -/
structure Opens (k : Keeper) (id : Nat) (r : Run) (k₀ : Keeper) : Prop where
  runs : k₀.runs = if r.opens then k.supersededRuns id else k.runs
  current : k₀.current = if r.opens then some id else k.current

theorem Opens.of_eq_false {k : Keeper} {id : Nat} {r : Run} (h : r.opens = false) :
    Opens k id r k := by
  constructor
  · rw [h]
    rfl
  · rw [h]
    rfl

theorem Arrives.opens {k k₀ : Keeper} {id : Nat} {r : Run} (ha : Arrives k id r k₀)
    (hc : r.canceled = false) :
    Opens k id r k₀ := by
  have hopens : r.point = .created → r.job.refreshes = false → r.opens = true :=
    fun hp hj => Run.opens_iff.mpr ⟨hp, hj, hc⟩
  cases ha with
  | rebuild hp hj =>
    rw [supersede_eq]
    constructor
    · rw [if_pos (hopens hp (by rw [hj]; rfl))]
    · rw [if_pos (hopens hp (by rw [hj]; rfl))]
  | startUp hp hj =>
    rw [supersede_eq]
    constructor
    · rw [if_pos (hopens hp (by rw [hj]; rfl))]
      rfl
    · rw [if_pos (hopens hp (by rw [hj]; rfl))]
  | refresh hp hj =>
    refine .of_eq_false ?_
    rw [← Bool.not_eq_true, Run.opens_iff, hj]
    simp [Job.refreshes]
  | wakes hp =>
    have h : Opens k id r k := .of_eq_false (Run.opens_eq_false_of_ne (by rw [hp]; simp))
    exact ⟨h.runs, h.current⟩

/-- The turn of a run first calls it, if it is its first one, and then settles who is wanted. -/
theorem TakesRun.settles {k k' : Keeper} {id : Nat} {r : Run} (ht : TakesRun k id r k')
    (hr : k.runs[id]? = some r) :
    ∃ k₀, Opens k id r k₀ ∧ Settles k₀ id k' := by
  have hopened : ∀ p, r.point = p → p ≠ .created → Opens k id r k := by
    intro p hp hne
    exact .of_eq_false (Run.opens_eq_false_of_ne (hp ▸ hne))
  cases ht with
  | rests hp => exact ⟨k, hopened _ hp (by simp), rfl, .inl rfl⟩
  | stops hp hc =>
    refine ⟨k, .of_eq_false ?_, .wait k id _⟩
    rw [← Bool.not_eq_true, Run.opens_iff, hc]
    simp
  | sleeps hp hj hc =>
    refine ⟨k, .of_eq_false ?_, superseded_wait k id _, .inl rfl⟩
    rw [← Bool.not_eq_true, Run.opens_iff, hj]
    simp [Job.refreshes]
  | @queues k₀ hc ha hl => exact ⟨k₀, ha.opens hc, superseded_wait k₀ id _, .inl rfl⟩
  | @enters k₀ _ hc ha hl hq he =>
    obtain ⟨superseded, hr₀⟩ := ha.run hr
    obtain ⟨hs, hcur⟩ := he.settles hr₀
    exact ⟨k₀, ha.opens hc, hs, hcur⟩
  | quits hp hc => exact ⟨k, hopened _ hp (by simp), superseded_wait k id _, .inl rfl⟩
  | admitted hp hc he =>
    obtain ⟨hs, hcur⟩ := he.settles hr
    exact ⟨k, hopened _ hp (by simp), hs, hcur⟩
  | resumes hp hc hb => exact ⟨k, hopened _ hp (by simp), hb.settles hr⟩
  | yields hp hc hg hs => exact ⟨k, hopened _ hp (by simp), superseded_wait k id _, .inl rfl⟩
  | continues hp hc hb => exact ⟨k, hopened _ hp (by simp), hb.settles hr⟩
  | givesUp hp hg =>
    refine ⟨k, .of_eq_false (Run.opens_eq_false_of_ne ?_), .giveUp hr _⟩
    intro h
    rw [h] at hp
    cases hp
  | leaves hp hl =>
    rw [leave_eq]
    exact ⟨k, hopened _ hp (by simp), superseded_wait k id _, .inl rfl⟩
  | breaks hp hc hg hd hre =>
    rw [leave_eq]
    exact ⟨k, hopened _ hp (by simp), superseded_wait k id _, .inl rfl⟩
  | applies hp hc hg hd hre => exact ⟨k, hopened _ hp (by simp), superseded_wait k id _, .inl rfl⟩

theorem Opens.isSuperseded {k k₀ : Keeper} {id : Nat} {r : Run} (h : Opens k id r k₀) {i : Nat}
    {s : Run} (hs : k.runs[i]? = some s) :
    k₀.isSuperseded i = if r.opens then
      (if i = id then k.disposed else decide (k.current = some i) || s.superseded)
      else s.superseded := by
  rw [Keeper.isSuperseded, h.runs]
  split
  · simp only [supersededRuns, unwantedRuns, List.getElem?_modify, List.getElem?_mapIdx, hs]
    by_cases hi : i = id
    · simp [hi]
    · simp [hi, Ne.symm hi]
  · rw [hs]
    rfl

theorem opening?_turn {k : Keeper} {i : Nat} {r : Run} (hr : k.runs[i]? = some r)
    (ht : Turn.run i ∈ k.ready) :
    k.opening? (.turn (.run i)) = if r.opens then some i else none := by
  simp [opening?, hr, ht]

theorem opening?_of_ne {k : Keeper} {m : Move} (hm : ∀ i, m ≠ .turn (.run i)) :
    k.opening? m = none := by
  rw [Option.eq_none_iff_forall_ne_some]
  intro i hi
  obtain ⟨r, hturn, -⟩ := opening?_eq_some_iff.mp hi
  exact hm i hturn

/-- The turn of a run that is ready, or nothing to speak of. -/
theorem next_turn_run (k : Keeper) (i : Nat) :
    (k.opening? (.turn (.run i)) = none ∧ ∃ ready, k.next (.turn (.run i)) = { k with ready }) ∨
      ∃ r, k.runs[i]? = some r ∧ Goes k (.turn (.run i)) i r := by
  by_cases ht : Turn.run i ∈ k.ready
  · cases hr : k.runs[i]? with
    | some r => exact .inr ⟨r, rfl, goes_of_ready hr ht⟩
    | none =>
      refine .inl ⟨by simp [opening?, hr], k.ready.erase (.run i), ?_⟩
      have he : k.next (.turn (.run i)) =
          { k with ready := k.ready.erase (.run i) }.take (.run i) := if_pos ht
      rw [he, take]
      simp only [hr]
      rfl
  · exact .inl ⟨by simp [opening?, ht], k.ready, if_neg ht⟩

/-- Whether a run is wanted changes only when a run opens, or with the end of the keeper. -/
theorem next_isSuperseded {k : Keeper} {i : Nat} {r : Run} (hr : k.runs[i]? = some r) (m : Move) :
    (k.next m).isSuperseded i = k.supersededBy m i r := by
  by_cases hm : ∃ j, m = .turn (.run j)
  · obtain ⟨j, rfl⟩ := hm
    rcases next_turn_run k j with ⟨hnone, ready, he⟩ | ⟨s, hs, hgoes⟩
    · rw [he, supersededBy, hnone]
      exact isSuperseded_of_run hr
    · obtain ⟨k₀, hopens₀, hsettles⟩ := hgoes.takes.settles hs
      rw [isSuperseded_congr hsettles.superseded, hopens₀.isSuperseded hr, supersededBy,
        opening?_turn hs hgoes.ready]
      by_cases ho : s.opens = true
      · simp [ho]
      · simp [ho, outdated]
  · have hne : ∀ j, m ≠ .turn (.run j) := fun j hj => hm ⟨j, hj⟩
    obtain ⟨r', hr', -, hs, -⟩ := (next_keepsRuns k hne).kept i r hr
    rw [isSuperseded_of_run hr', hs, supersededBy, opening?_of_ne hne]

theorem CancelsRun.current {k k' : Keeper} {id : Nat} (hc : CancelsRun k id k') :
    k'.current = k.current ∧ k'.disposed = k.disposed := by
  cases hc with
  | rests hp => exact ⟨rfl, rfl⟩
  | flags hr hp => exact ⟨rfl, rfl⟩
  | wakes hr hp => exact ⟨rfl, rfl⟩
  | stops hr hg hd hs =>
    obtain ⟨loads, ts, rfl, -, -⟩ := hs
    exact ⟨rfl, rfl⟩

theorem Cancels.current {k k' : Keeper} (hc : Cancels k k') :
    k'.current = k.current ∧ k'.disposed = k.disposed :=
  hc.induction (P := fun k' => k'.current = k.current ∧ k'.disposed = k.disposed)
    (fun _ _ _ hk hcan => ⟨hcan.current.1.trans hk.1, hcan.current.2.trans hk.2⟩) ⟨rfl, rfl⟩

theorem Reconfigures.current {k k' : Keeper} (hc : Reconfigures k k') :
    k'.current = k.current ∧ k'.disposed = k.disposed := by
  induction hc with
  | sets => exact ⟨rfl, rfl⟩
  | starts => exact ⟨rfl, rfl⟩
  | trans _ _ ih ih' => exact ⟨ih'.1.trans ih.1, ih'.2.trans ih.2⟩

theorem notify_current (k : Keeper) (p : Path) (c : Change) :
    (k.notify p c).current = k.current ∧ (k.notify p c).disposed = k.disposed := by
  unfold notify
  split
  · exact ⟨rfl, rfl⟩
  · exact (cancelTimer_cancels { k with pending := k.pending.set p c }).current

theorem dispose_current (k : Keeper) :
    k.dispose.current = k.current ∧ k.dispose.disposed = true := by
  obtain ⟨k₁, k₂, provider, connected, changed, h₁, h₂, -, he⟩ := dispose_eq k
  rw [he]
  exact ⟨h₂.current.1.trans h₁.current.1, h₂.current.2.trans h₁.current.2⟩

/-- Only the turn of a run changes who is wanted. -/
theorem next_current_of_ne (k : Keeper) {m : Move} (hm : ∀ i, m ≠ .turn (.run i)) :
    (k.next m).current = k.current := by
  have h := next_moves k m
  generalize k.next m = k' at h ⊢
  cases h with
  | notify p c => exact (notify_current k p c).1
  | switchMode mode => exact (switchMode_reconfigures k mode).current.1
  | changeSettings changes => exact (changeSettings_reconfigures k changes).current.1
  | dispose => exact (dispose_current k).1
  | run => exact absurd rfl (hm _)
  | starts | listen | edit | works | waits => rfl

/-- A keeper ends once and for all. -/
theorem next_disposed (k : Keeper) (m : Move) :
    (k.next m).disposed = true ↔ m = .dispose ∨ k.disposed = true := by
  have hsame : m ≠ .dispose → (k.next m).disposed = k.disposed := by
    intro hm
    have h := next_moves k m
    generalize k.next m = k' at h ⊢
    cases h with
    | notify p c => exact (notify_current k p c).2
    | switchMode mode => exact (switchMode_reconfigures k mode).current.2
    | changeSettings changes => exact (changeSettings_reconfigures k changes).current.2
    | dispose => exact absurd rfl hm
    | run hready hr hrun => exact hrun.frame.disposed
    | starts | listen | edit | works | waits => rfl
  by_cases hm : m = .dispose
  · subst hm
    exact ⟨fun _ => .inl rfl, fun _ => (dispose_current k).2⟩
  · simp [hsame hm, hm]

theorem next_disposed_eq_false {k : Keeper} {m : Move} :
    (k.next m).disposed = false ↔ m ≠ .dispose ∧ k.disposed = false := by
  rw [← Bool.not_eq_true, next_disposed, not_or, Bool.not_eq_true]

/-- A run that opens is wanted from then on. -/
theorem next_opening {k : Keeper} {m : Move} {i : Nat} (hc : k.opening? m = some i) :
    (k.next m).current = some i ∨ ∃ result, (k.next m).point? i = some (.finished result) := by
  obtain ⟨r, rfl, hready, hr, ho⟩ := opening?_eq_some_iff.mp hc
  obtain ⟨k₀, hopens₀, hsettles⟩ := (goes_of_ready hr hready).takes.settles hr
  rcases hsettles.current with hcur | ⟨-, hfinished⟩
  · rw [hcur, hopens₀.current, if_pos ho]
    exact .inl rfl
  · exact .inr hfinished

/-- A run that is wanted stays so until it ends or another opens. -/
theorem next_current {k : Keeper} {m : Move} {i : Nat} (h : k.current = some i)
    (hc : k.opening? m = none) :
    (k.next m).current = some i ∨ ∃ result, (k.next m).point? i = some (.finished result) := by
  by_cases hm : ∃ j, m = .turn (.run j)
  · obtain ⟨j, rfl⟩ := hm
    rcases next_turn_run k j with ⟨-, ready, he⟩ | ⟨r, hr, hgoes⟩
    · rw [he]
      exact .inl h
    · have ho : ¬ r.opens = true := by
        rw [opening?_turn hr hgoes.ready] at hc
        exact fun ho => by simp [ho] at hc
      obtain ⟨k₀, hopens₀, hsettles⟩ := hgoes.takes.settles hr
      have hk₀ : k₀.current = some i := by
        rw [hopens₀.current, if_neg ho]
        exact h
      rcases hsettles.current with hcur | ⟨hcur, hfinished⟩
      · exact .inl (hcur.trans hk₀)
      · by_cases hj : i = j
        · exact .inr (hj ▸ hfinished)
        · refine .inl ?_
          rw [hcur, currentWithout, hk₀, if_neg (fun he => hj (Option.some.inj he))]
  · rw [next_current_of_ne k fun j hj => hm ⟨j, hj⟩]
    exact .inl h

theorem takeRun_of_canceled {k : Keeper} {id : Nat} {r : Run} (hr : k.runs[id]? = some r)
    (hc : r.canceled = true) (hn : ∀ result, r.point ≠ .finished result) :
    (k.takeRun id r).point? id = some (.finished (.error .canceled)) := by
  unfold takeRun
  cases hp : r.point with
  | finished result => exact absurd hp (hn result)
  | created | sleeping =>
    simp only [hc, if_true]
    exact point?_finish_self hr _
  | queued =>
    simp only [hc, if_true, wakeQueue_eq]
    split
    · exact point?_finish_self (k := { k with queue := k.queue.erase id }) hr _
    · exact point?_finish_self (k := { k with queue := k.queue.erase id, ready := _ }) hr _
  | searching | loading | yielding =>
    simp only [hc, if_true]
    exact point?_giveUp_self hr _
  | applying =>
    simp only [hc, if_true]
    exact point?_leave_self hr _

/-- A run that is under way after its turn was so before, unless this was its first one. -/
theorem Goes.isBuilding {k : Keeper} {m : Move} {i : Nat} {r r' : Run} (hg : Goes k m i r)
    (hr : k.runs[i]? = some r) (ho : r.opens = false) (hr' : (k.next m).runs[i]? = some r')
    (hj : r'.job = r.job) (hb : r'.isBuilding = true) :
    r.isBuilding = true := by
  obtain ⟨hjob, -, hfinished⟩ := Run.isBuilding_iff.mp hb
  rw [hj] at hjob
  refine Run.isBuilding_iff.mpr ⟨hjob, ?_, ?_⟩
  · intro hp
    -- A run that has not begun and does not open now was told to stop, and ends with this turn.
    have hcan : r.canceled = true := by
      by_contra hcan
      exact absurd (Run.opens_iff.mpr ⟨hp, hjob, by simpa using hcan⟩) (by simp [ho])
    have hstops : (k.next m).point? i = some (.finished (.error .canceled)) := by
      rw [hg.move, next_eq_takeRun hr hg.ready]
      exact takeRun_of_canceled hr hcan (by simp [hp])
    rw [point?_of_run hr'] at hstops
    exact hfinished _ (Option.some.inj hstops)
  · intro result hp
    have hends := next_finished (point?_of_run hr |>.trans (congrArg some hp)) m
    rw [point?_of_run hr'] at hends
    exact hfinished _ (Option.some.inj hends)

structure Standing (k : Keeper) : Prop where
  /-- At most one run under way is wanted, and the keeper knows which. -/
  wanted : ∀ (i : Nat) (r : Run), k.runs[i]? = some r → r.isBuilding = true → r.superseded = false →
    k.current = some i
  /-- After the end of the keeper none is. -/
  spent : k.disposed = true → ∀ (i : Nat) (r : Run), k.runs[i]? = some r → r.isBuilding = true →
    r.superseded = true

/-- A run that is under way after a move was so before, unless it opens now. -/
theorem isBuilding_of_next {k : Keeper} {m : Move} {i : Nat} {r' : Run}
    (hr' : (k.next m).runs[i]? = some r') (hb : r'.isBuilding = true) (hc : k.opening? m ≠ some i) :
    ∃ r, k.runs[i]? = some r ∧ r.isBuilding = true ∧ r'.superseded = k.supersededBy m i r := by
  cases hr : k.runs[i]? with
  | none => exact absurd (next_fresh hr hr') (Run.isBuilding_iff.mp hb).2.1
  | some r =>
    obtain ⟨s, hs, hj, hp⟩ := next_run hr m
    rw [hr'] at hs
    cases hs
    refine ⟨r, rfl, ?_, (isSuperseded_of_run hr').symm.trans (next_isSuperseded hr m)⟩
    rcases hp with hstays | hgoes
    · exact Run.isBuilding_of_stays hb hj hstays
    · refine hgoes.isBuilding hr ?_ hr' hj hb
      rw [hgoes.move, opening?_turn hr hgoes.ready] at hc
      by_contra ho
      exact hc (by simp [ho])

/-- Only a call of its own makes a run wanted again. -/
theorem supersededBy_of_superseded {k : Keeper} {m : Move} {i : Nat} {r : Run}
    (hc : k.opening? m ≠ some i) (h : r.superseded = true) : k.supersededBy m i r = true := by
  unfold supersededBy
  split
  · rename_i j hcm
    have hne : i ≠ j := by
      rintro rfl
      exact hc hcm
    simp [hne, h]
  · simp [h]

theorem next_standing {k : Keeper} (h : k.Standing) (m : Move) : (k.next m).Standing := by
  have hunfinished : ∀ (i : Nat) (r' : Run), (k.next m).runs[i]? = some r' → r'.isBuilding = true →
      ¬ ∃ result, (k.next m).point? i = some (.finished result) := by
    rintro i r' hr' hb ⟨result, hp⟩
    rw [point?_of_run hr'] at hp
    exact (Run.isBuilding_iff.mp hb).2.2 result (Option.some.inj hp)
  constructor
  · intro i r' hr' hb hw
    by_cases hc : k.opening? m = some i
    · exact (next_opening hc).resolve_right (hunfinished i r' hr' hb)
    · obtain ⟨r, hr, hbefore, hs⟩ := isBuilding_of_next hr' hb hc
      rw [hw] at hs
      have hkeeps : r.superseded = false := by
        cases hsup : r.superseded with
        | false => rfl
        | true =>
          rw [supersededBy_of_superseded hc hsup] at hs
          cases hs
      have hcur := h.wanted i r hr hbefore hkeeps
      cases hcm : k.opening? m with
      | none => exact (next_current hcur hcm).resolve_right (hunfinished i r' hr' hb)
      | some j =>
        have hne : i ≠ j := by
          rintro rfl
          exact hc hcm
        simp [supersededBy, hcm, hne, hcur] at hs
  · intro hd i r' hr' hb
    by_cases hc : k.opening? m = some i
    · have hk : k.disposed = true := by
        refine ((next_disposed k m).mp hd).resolve_left ?_
        rintro rfl
        cases hc
      obtain ⟨r, -, -, hr, -⟩ := opening?_eq_some_iff.mp hc
      rw [← isSuperseded_of_run hr', next_isSuperseded hr, supersededBy, hc]
      simpa using hk
    · obtain ⟨r, hr, hbefore, hs⟩ := isBuilding_of_next hr' hb hc
      rw [hs]
      rcases (next_disposed k m).mp hd with rfl | hk
      · by_cases hsup : r.superseded = true
        · exact supersededBy_of_superseded hc hsup
        · have hcur := h.wanted i r hr hbefore (by simpa using hsup)
          simp [supersededBy, opening?, outdated, hcur]
      · exact supersededBy_of_superseded hc (h.spent hk i r hr hbefore)

theorem new_standing (w : Workspace) (provider : Provider Unit) (groupSize : Nat) (limit : Int)
    (delay : Nat) (watchable : Bool) :
    (new w provider groupSize limit delay watchable).Standing where
  wanted := by
    intro i r hr
    cases hr
  spent := by
    intro hd
    cases hd

/-! ## How a run that builds ends -/

def searchFault? (w : Workspace) (held : List Gate) (exclude : List Text) : List Text → Option Fault
  | [] => none
  | pattern :: rest =>
    if held.contains (.pattern pattern) then none
    else match w.find pattern exclude with
      | .ok _ => searchFault? w held exclude rest
      | .error fault => some fault

/-- What makes a run raise at its turn although its catalog is not wanted any more: it was told to
stop, one of its loads failed or was told to stop, or the search fails that it makes before it
notices. -/
def hindrance? (k : Keeper) (r : Run) : Option Stop :=
  if r.canceled then some .canceled
  else match r.point with
    | .searching d _ pattern rest =>
      match k.workspace.find pattern d.settings.excludeGlobs with
      | .ok _ => (searchFault? k.workspace k.held d.settings.excludeGlobs rest).map .failed
      | .error fault => some (.failed fault)
    | .loading _ g _ => g.stop
    | .yielding d [] =>
      match d.cls with
      | .feature =>
        (searchFault? k.workspace k.held d.settings.excludeGlobs d.settings.definitionGlobs).map
          .failed
      | .definition => none
    | _ => none

def lateResult : Option Stop → Except Stop Bool
  | some stop => .error stop
  | none => .ok false

theorem eq_of_point?_finished {k : Keeper} {id : Nat} {result result' : Except Stop Bool}
    (h : k.point? id = some (.finished result)) (h' : k.point? id = some (.finished result')) :
    result = result' := by
  rw [h] at h'
  cases h'
  rfl

/-- What a run comes to that is not wanted: it ends, unless it has to wait for a pattern. -/
def Drops (k : Keeper) (id : Nat) (result : Except Stop Bool) (k' : Keeper) : Prop :=
  k' = k.giveUp id result ∨ ∃ d found pattern rest, k' = k.wait id (.searching d found pattern rest)

theorem Drops.result {k k' : Keeper} {id : Nat} {result result' : Except Stop Bool}
    (h : Drops k id result k') {r : Run} (hr : k.runs[id]? = some r)
    (hf : k'.point? id = some (.finished result')) : result' = result := by
  rcases h with rfl | ⟨d, found, pattern, rest, rfl⟩
  · exact eq_of_point?_finished hf (point?_giveUp_self hr result)
  · rw [point?_wait_self hr] at hf
    cases hf

section
variable {k : Keeper} {id : Nat} (h : k.isSuperseded id = true)

include h

theorem searched_drops {next : Keeper → Nat → Draft → List Path → Keeper} (d : Draft)
    (exclude : List Text) (found : List Path) (patterns : List Text) :
    Drops k id (lateResult ((searchFault? k.workspace k.held exclude patterns).map .failed))
      (searched next k id d (k.searchFrom exclude found patterns)) := by
  induction patterns generalizing found with
  | nil => exact .inl (if_pos h)
  | cons pattern rest ih =>
    rw [searchFrom, searchFault?]
    by_cases hheld : k.held.contains (.pattern pattern) = true
    · rw [if_pos hheld, if_pos hheld]
      exact .inr ⟨d, found, pattern, rest, rfl⟩
    · rw [if_neg hheld, if_neg hheld]
      cases k.workspace.find pattern exclude with
      | ok new => exact ih _
      | error fault => exact .inl rfl

theorem loadDefinitions_drops (d : Draft) (files : List Path) :
    Drops k id (lateResult none) (k.loadDefinitions id d files) := by
  unfold loadDefinitions loadGroup
  by_cases hf : files = []
  · rw [if_pos hf]
    exact .inl (if_pos h)
  · rw [if_neg hf, if_pos h]
    exact .inl rfl

theorem loadFiles_drops {d : Draft} {rest : List Path} {r : Run} (hp : r.point = .yielding d rest)
    (hc : r.canceled = false) :
    Drops k id (lateResult (k.hindrance? r)) (k.loadFiles id d rest) := by
  cases rest with
  | cons p rest =>
    have hlate : k.hindrance? r = none := by
      rw [hindrance?, hc, hp]
      rfl
    rw [hlate, loadFiles]
    cases d.cls with
    | feature => exact .inl (if_pos h)
    | definition => exact loadDefinitions_drops h d (p :: rest)
  | nil =>
    cases hcls : d.cls with
    | feature =>
      have hlate : k.hindrance? r =
          (searchFault? k.workspace k.held d.settings.excludeGlobs d.settings.definitionGlobs).map
            .failed := by
        simp [hindrance?, hc, hp, hcls]
      simp only [hlate, loadFiles, hcls]
      exact searched_drops h _ _ _ _
    | definition =>
      have hlate : k.hindrance? r = none := by simp [hindrance?, hc, hp, hcls]
      simp only [hlate, loadFiles, hcls]
      exact loadDefinitions_drops h d []

theorem resumeSearch_drops {d : Draft} {found : List Path} {pattern : Text} {rest : List Text}
    {r : Run} (hp : r.point = .searching d found pattern rest) (hc : r.canceled = false) :
    Drops k id (lateResult (k.hindrance? r)) (k.resumeSearch id d found pattern rest) := by
  have hlate : k.hindrance? r = match k.workspace.find pattern d.settings.excludeGlobs with
      | .ok _ => (searchFault? k.workspace k.held d.settings.excludeGlobs rest).map .failed
      | .error fault => some (.failed fault) := by
    rw [hindrance?, hc, hp]
    rfl
  rw [hlate]
  unfold resumeSearch
  cases k.workspace.find pattern d.settings.excludeGlobs with
  | ok new => exact searched_drops h _ _ _ _
  | error fault => exact .inl rfl

theorem enterGroup_drops {d : Draft} {g : Group} {rest : List Path} {r : Run}
    (hp : r.point = .loading d g rest) (hc : r.canceled = false) :
    Drops k id (lateResult (k.hindrance? r)) (k.enterGroup id d g rest) := by
  have hlate : k.hindrance? r = g.stop := by
    rw [hindrance?, hc, hp]
    rfl
  rw [hlate]
  unfold enterGroup
  cases g.stop with
  | some stop => exact .inl rfl
  | none => exact .inl (if_pos h)

theorem enter_drops {job : Job} (hj : job.refreshes = false) :
    Drops k id (.ok false) (k.enter id job) := by
  cases job with
  | rebuild | startUp => exact .inl (if_pos h)
  | refresh | delayedRefresh => cases hj

end

theorem enter_result {k : Keeper} {id : Nat} {r : Run} (hr : k.runs[id]? = some r) {job : Job}
    (hj : job.refreshes = false) (hs : (k.enter id job).isSuperseded id = true)
    {result : Except Stop Bool} (hf : (k.enter id job).point? id = some (.finished result)) :
    result = .ok false := by
  rw [isSuperseded_congr ((enter_enters k id job).settles hr).superseded] at hs
  exact (enter_drops hs hj).result hr hf

theorem lockFor_result {k : Keeper} {id : Nat} {r : Run} (hr : k.runs[id]? = some r) {job : Job}
    (hj : job.refreshes = false) (hs : (k.lockFor id job).isSuperseded id = true)
    {result : Except Stop Bool} (hf : (k.lockFor id job).point? id = some (.finished result)) :
    result = .ok false := by
  unfold lockFor at hs hf
  by_cases hfree : (!k.locked && k.queue = []) = true
  · rw [if_pos hfree] at hs hf
    exact enter_result (k := { k with locked := true }) hr hj hs hf
  · rw [if_neg hfree, point?_wait_self (k := { k with queue := k.queue ++ [id] }) hr] at hf
    cases hf

theorem begin_result {k : Keeper} {id : Nat} {r : Run} (hr : k.runs[id]? = some r)
    (hp : r.point = .created) (hj : r.job.refreshes = false)
    (hs : (k.begin id r.job).isSuperseded id = true) {result : Except Stop Bool}
    (hf : (k.begin id r.job).point? id = some (.finished result)) : result = .ok false := by
  rcases begin_cases k id hp with ⟨k₀, ha, he⟩ | ⟨hjob, -⟩
  · obtain ⟨superseded, hr₀⟩ := ha.run hr
    rw [he] at hs hf
    exact lockFor_result hr₀ hj hs hf
  · rw [hjob] at hj
    cases hj

/-- A run that builds and ends although its catalog is not wanted returns that, unless something
hinders it. -/
theorem takeRun_result {k : Keeper} {id : Nat} {r : Run} (hr : k.runs[id]? = some r)
    (hj : r.job.refreshes = false) (hsuited : RunSuited r)
    (hn : ∀ result, r.point ≠ .finished result)
    (hs : r.canceled = false → (k.takeRun id r).isSuperseded id = true) {result : Except Stop Bool}
    (hf : (k.takeRun id r).point? id = some (.finished result)) :
    result = lateResult (k.hindrance? r) := by
  cases hc : r.canceled with
  | true =>
    rw [eq_of_point?_finished hf (takeRun_of_canceled hr hc hn), hindrance?, hc]
    rfl
  | false =>
    have hs := hs hc
    have hbefore : r.point ≠ .created → k.isSuperseded id = true := by
      intro hp
      obtain ⟨k₀, hopens₀, hsettles⟩ := (takeRun_takesRun k id r).settles hr
      rw [isSuperseded_congr hsettles.superseded, hopens₀.isSuperseded hr,
        Run.opens_eq_false_of_ne hp] at hs
      rw [isSuperseded_of_run hr]
      simpa using hs
    -- Where a run has no draft yet, nothing can hinder it.
    have hearly : r.point.draft? = none → lateResult (k.hindrance? r) = .ok false := by
      intro hd
      rw [hindrance?, hc]
      cases hp : r.point with
      | searching | loading | yielding => rw [hp] at hd; cases hd
      | _ => rfl
    cases hp : r.point with
    | finished result => exact absurd hp (hn result)
    | applying changes g =>
      rw [hsuited.applying changes g hp] at hj
      cases hj
    | searching d found pattern rest =>
      have hdrops := resumeSearch_drops (hbefore (by rw [hp]; simp)) hp hc
      simp only [takeRun, hp, hc] at hf
      exact hdrops.result hr hf
    | loading d g rest =>
      have hdrops := enterGroup_drops (hbefore (by rw [hp]; simp)) hp hc
      simp only [takeRun, hp, hc] at hf
      exact hdrops.result hr hf
    | yielding d rest =>
      have hdrops := loadFiles_drops (hbefore (by rw [hp]; simp)) hp hc
      simp only [takeRun, hp, hc] at hf
      exact hdrops.result hr hf
    | queued =>
      simp only [takeRun, hp, hc] at hf hs
      rw [hearly (by rw [hp]; rfl)]
      exact enter_result (k := { k with queue := k.queue.erase id, locked := true }) hr hj hs hf
    | sleeping time =>
      simp only [takeRun, hp, hc] at hf hs
      rw [hearly (by rw [hp]; rfl)]
      exact lockFor_result (k := { k with timer := none }) hr hj hs hf
    | created =>
      simp only [takeRun, hp, hc] at hf hs
      rw [hearly (by rw [hp]; rfl)]
      exact begin_result hr hp hj hs hf

theorem Goes.result {k : Keeper} {m : Move} {i : Nat} {r : Run} (hg : Goes k m i r)
    (hr : k.runs[i]? = some r) (hj : r.job.refreshes = false) (hsuited : RunSuited r)
    (hn : ∀ result, r.point ≠ .finished result)
    (hs : r.canceled = false → (k.next m).isSuperseded i = true) {result : Except Stop Bool}
    (hf : (k.next m).point? i = some (.finished result)) :
    result = lateResult (k.hindrance? r) := by
  rw [hg.move, next_eq_takeRun hr hg.ready] at hs hf
  exact takeRun_result (k := { k with ready := k.ready.erase (.run i) }) hr hj hsuited hn hs hf

section
variable {k k' : Keeper} {id : Nat} {r : Run}

theorem Builds.isSuperseded_of_false {d : Draft} {goal : Except Fault Catalog}
    (hb : Builds k id d goal k') (hr : k.runs[id]? = some r)
    (hf : k'.point? id = some (.finished (.ok false))) : k'.isSuperseded id = true := by
  rw [isSuperseded_congr (hb.settles hr).superseded]
  cases hb with
  | abandons h => exact h
  | searches hs hd hg =>
    rw [point?_wait_self hr] at hf
    cases hf
  | @loads d' files rest hs hd hg =>
    have hr' : (k.startLoads id (files.map fun p => (p, d'.cls, false))).1.runs[id]? = some r := hr
    rw [point?_wait_self hr'] at hf
    cases hf
  | fails h => cases eq_of_point?_finished hf (point?_giveUp_self hr _)
  | @publishes c hw hg hre =>
    obtain ⟨told, subscriptions, he⟩ := publish_eq k id c
    rw [he] at hf
    have hfalse := eq_of_point?_finished hf (point?_finish_self (k := { k with .. }) hr _)
    rcases toldResult_cases k.announce.2 with h | ⟨fault, h⟩ <;> cases hfalse.trans h

/-- Only a run whose catalog is not wanted returns that it has not published. -/
theorem TakesRun.isSuperseded_of_false (ht : TakesRun k id r k') (hr : k.runs[id]? = some r)
    (hj : r.job.refreshes = false) (hsuited : RunSuited r)
    (hn : ∀ result, r.point ≠ .finished result) (hf : k'.point? id = some (.finished (.ok false))) :
    k'.isSuperseded id = true := by
  have henters : ∀ {k₁ : Keeper} {s : Run}, Enters k₁ id r.job k' → k₁.runs[id]? = some s →
      k'.isSuperseded id = true := by
    intro k₁ s he hs
    cases he with
    | builds _ hb => exact hb.isSuperseded_of_false hs hf
    | idles hj' hp | takesOver hj' hp hd => rw [hj] at hj'; cases hj'
  cases ht with
  | rests hp => exact absurd hp (hn _)
  | stops hp hc => cases eq_of_point?_finished hf (point?_finish_self hr _)
  | sleeps hp hj' hc =>
    rw [hj'] at hj
    cases hj
  | @queues k₀ hc ha hl =>
    obtain ⟨superseded, hr₀⟩ := ha.run hr
    rw [point?_wait_self (k := { k₀ with queue := k₀.queue ++ [id] }) hr₀] at hf
    cases hf
  | enters hc ha hl hq he =>
    obtain ⟨superseded, hr₀⟩ := ha.run hr
    exact henters he hr₀
  | quits hp hc =>
    cases eq_of_point?_finished hf
      (point?_finish_self (k := { k with queue := _, ready := _ }) hr _)
  | admitted hp hc he => exact henters he hr
  | resumes hp hc hb | continues hp hc hb => exact hb.isSuperseded_of_false hr hf
  | yields hp hc hg hs =>
    rw [point?_wait_self (k := { k with ready := k.ready ++ [Turn.run id] }) hr] at hf
    cases hf
  | givesUp hp hg =>
    rw [isSuperseded_congr (Settles.giveUp hr _).superseded]
    obtain rfl := eq_of_point?_finished hf (point?_giveUp_self hr _)
    cases hg with
    | superseded h => exact h
  | leaves hp hl => rw [hsuited.applying _ _ hp] at hj; cases hj
  | breaks hp hc hg hd hre => rw [hsuited.applying _ _ hp] at hj; cases hj
  | applies hp hc hg hd hre => rw [hsuited.applying _ _ hp] at hj; cases hj

end

/-- The listeners are called in their order, each once.  Only a listener whose failure cannot be
logged keeps the others from being called. -/
theorem announce_told (k : Keeper) : ∃ n,
    k.announce.1 =
      { k with
        events := k.events ++ (k.changed.listeners.take n).map fun l => Event.called l.name } ∧
      (k.announce.2 = none → k.changed.listeners.length ≤ n) := by
  unfold announce
  generalize k.changed.listeners = ls
  induction ls generalizing k with
  | nil => exact ⟨0, by simp [Signal.callAll], by simp⟩
  | cons l ls ih =>
    obtain ⟨n, hk, hall⟩ := ih (k.note (.called l.name))
    have hrest : ∃ n,
        (Signal.callAll (fun l k => (k.note (.called l.name), l.fault)) ls
            (k.note (.called l.name))).1 =
          { k with events := k.events ++ ((l :: ls).take n).map fun l => Event.called l.name } ∧
        ((Signal.callAll (fun l k => (k.note (.called l.name), l.fault)) ls
          (k.note (.called l.name))).2 = none → (l :: ls).length ≤ n) := by
      refine ⟨n + 1, ?_, fun h => Nat.succ_le_succ (hall h)⟩
      rw [hk]
      simp [note]
    rw [Signal.callAll]
    cases l.fault with
    | none => exact hrest
    | some f =>
      dsimp only
      cases log (warning ++ "change listener failed: " ++ f.message) with
      | error fault => exact ⟨1, by simp [note], fun h => by cases h⟩
      | ok u => exact hrest

/-- A run puts what it has staged in place of the catalog, at once, and tells that. -/
structure Publishes (k : Keeper) (i : Nat) (k' : Keeper) : Prop where
  staged : ∃ r c, k.runs[i]? = some r ∧ r.job.refreshes = false ∧ r.canceled = false ∧
    r.staged.rematch k.matcher = .ok c ∧ k'.catalog = c.published
  /-- Every listener is called once, up to the first whose failure cannot be logged. -/
  told : ∃ n, k'.events = k.events ++
    ((k.changed.listeners.take n).map fun l => Event.called l.name) ∧
    (k'.result? i = some (.ok true) → k.changed.listeners.length ≤ n)
  unfinished : k.result? i = none
  wanted : k'.isSuperseded i = false
  ended : ∃ result, k'.result? i = some result ∧
    (result = .ok true ∨ ∃ fault, result = .error (.failed fault))

theorem result?_eq_some_iff {k : Keeper} {i : Nat} {result : Except Stop Bool} :
    k.result? i = some result ↔ k.point? i = some (.finished result) := by
  unfold result?
  split
  · rename_i result' hp
    simp [hp]
  · rename_i hp
    simpa using hp result

theorem result?_eq_none_iff {k : Keeper} {i : Nat} {r : Run} (hr : k.runs[i]? = some r) :
    k.result? i = none ↔ ∀ result, r.point ≠ .finished result := by
  rw [Option.eq_none_iff_forall_ne_some]
  refine forall_congr' fun result => ?_
  rw [Ne, result?_eq_some_iff, point?_of_run hr, Option.some.injEq]

theorem publish_told {k : Keeper} {id : Nat} {r : Run} (hr : k.runs[id]? = some r) (c : Catalog) :
    ∃ n, (k.publish id c).events = k.events ++
        ((k.changed.listeners.take n).map fun l => Event.called l.name) ∧
      ((k.publish id c).result? id = some (.ok true) → k.changed.listeners.length ≤ n) := by
  simp only [publish, dropCurrent_eq, unlock_eq]
  obtain ⟨n, hk, hall⟩ := announce_told { k with
    current := k.currentWithout id, catalog := c.published, locked := false
    ready := callHead k.ready k.queue }
  refine ⟨n, ?_⟩
  generalize Keeper.announce _ = told at hk hall
  obtain ⟨k₁, fault⟩ := told
  obtain rfl : k₁ = _ := hk
  cases fault with
  | none =>
    obtain ⟨subscriptions, he⟩ := finishBuild_eq { k with
      current := k.currentWithout id, catalog := c.published, locked := false
      ready := callHead k.ready k.queue
      events := k.events ++ (k.changed.listeners.take n).map fun l => Event.called l.name } id
        (.ok true)
    exact ⟨congrArg Keeper.events he, fun _ => hall rfl⟩
  | some fault =>
    obtain ⟨subscriptions, he⟩ := finishBuild_eq { k with
      current := k.currentWithout id, catalog := c.published, locked := false
      ready := callHead k.ready k.queue
      events := k.events ++ (k.changed.listeners.take n).map fun l => Event.called l.name } id
        (.error (.failed fault))
    refine ⟨congrArg Keeper.events he, fun h => ?_⟩
    have hp :=
      (congrArg (Keeper.point? · id) he).trans (point?_finish_self (k := { k with .. }) hr _)
    rw [result?_eq_some_iff] at h
    cases eq_of_point?_finished h hp

/-- A run that has come to the lock and matched what it has staged publishes it. -/
theorem Publishes.of_publish {k k₁ : Keeper} {id : Nat} {r s : Run} {c : Catalog}
    (hr : k.runs[id]? = some r) (hj : r.job.refreshes = false) (hc : r.canceled = false)
    (hn : ∀ result, r.point ≠ .finished result) (hk : Approaches k k₁) (hs : k₁.runs[id]? = some s)
    (hw : k₁.isSuperseded id = false) (hre : r.staged.rematch k.matcher = .ok c) :
    Publishes k id (k₁.publish id c) := by
  obtain ⟨told, subscriptions, he⟩ := publish_eq k₁ id c
  have hp : (k₁.publish id c).point? id = some (.finished (toldResult k₁.announce.2)) := by
    rw [he]
    exact point?_finish_self (k := { k₁ with .. }) hs _
  have hsup : (k₁.publish id c).runs.map Run.superseded = k₁.runs.map Run.superseded := by
    rw [he]
    exact superseded_wait k₁ id _
  obtain ⟨n, hevents, hall⟩ := publish_told hs c
  have hstaged : (k₁.publish id c).catalog = c.published := by rw [he]; rfl
  refine ⟨⟨r, c, hr, hj, hc, hre, hstaged⟩, ⟨n, ?_⟩, ?_, ?_, _, result?_eq_some_iff.mpr hp,
    toldResult_cases _⟩
  · cases hk with
    | intro hset connected current runs timer locked queue => exact ⟨hevents, hall⟩
  · exact (result?_eq_none_iff hr).mpr hn
  · rw [isSuperseded_congr hsup]
    exact hw

/-- A turn of a run that builds publishes all that the run has staged, or nothing. -/
theorem TakesRun.publishes_or_same {k k' : Keeper} {id : Nat} {r : Run} (ht : TakesRun k id r k')
    (hr : k.runs[id]? = some r) (hj : r.job.refreshes = false) (hsuited : RunSuited r) :
    Publishes k id k' ∨ (k'.catalog = k.catalog ∧ k'.events = k.events) := by
  by_cases hn : ∃ result, r.point = .finished result
  · obtain ⟨result, hp⟩ := hn
    rw [ht.eq_of_finished hp]
    exact .inr ⟨rfl, rfl⟩
  · have hlen : k'.runs.length = k.runs.length := ht.frame.length
    cases ht.writes with
    | nothing hc he => exact .inr ⟨hc, he⟩
    | @publishes k₁ c hjob hc hk hw hre =>
      have hlen₁ : k₁.runs.length = k.runs.length := by
        obtain ⟨told, subscriptions, he⟩ := publish_eq k₁ id c
        rw [← hlen, he]
        simp [finish, wait, modifyRun]
      have hlt : id < k₁.runs.length := hlen₁ ▸ (List.getElem?_eq_some_iff.mp hr).1
      exact .inl
        (.of_publish hr hj hc (fun result hp => hn ⟨result, hp⟩) hk (List.getElem?_eq_getElem hlt)
          hw hre)
    | breaks hp => rw [hsuited.applying _ _ hp] at hj; cases hj
    | applies hp => rw [hsuited.applying _ _ hp] at hj; cases hj

end Keeper
end StepAtlas
