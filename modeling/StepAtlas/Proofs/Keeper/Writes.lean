import StepAtlas.Proofs.Keeper.Frame

/-
What a turn of a run does to the catalog.  Most turns leave it alone and tell nobody anything.  A
run that builds puts its draft in its place, all at once, in the turn in which it ends; a run that
applies changes does so in the turn in which it ends, and only this one can fail half way.
-/

namespace StepAtlas

def Run.staged (r : Run) : Catalog := (r.point.draft?.map Draft.staged).getD .empty

theorem Run.staged_of_draft? {r : Run} {d : Draft} (h : r.point.draft? = some d) :
    r.staged = d.staged := by
  rw [staged, h]
  rfl

theorem Run.staged_of_draft?_eq_none {r : Run} (h : r.point.draft? = none) : r.staged = .empty := by
  rw [staged, h]
  rfl

namespace Keeper

/-- From one keeper to the next a run has come to the lock at most. -/
inductive Approaches (k : Keeper) : Keeper → Prop where
  | intro {provider : Provider Unit} (hp : provider.settings = k.provider.settings)
      (connected : Bool) (current : Option Nat) (runs : List Run) (timer : Option Nat)
      (locked : Bool) (queue : List Nat) :
      Approaches k { k with provider, connected, current, runs, timer, locked, queue }

theorem Approaches.refl (k : Keeper) : Approaches k k :=
  .intro rfl k.connected k.current k.runs k.timer k.locked k.queue

theorem Arrives.approaches {k k₀ : Keeper} {id : Nat} {r : Run} (ha : Arrives k id r k₀) :
    Approaches k { k₀ with locked := true } := by
  cases ha with
  | rebuild hp hj =>
    rw [supersede_eq]
    exact .intro rfl _ _ _ _ _ _
  | startUp hp hj =>
    rw [supersede_eq]
    have hp : k.connect.provider.settings = k.provider.settings := rfl
    exact .intro hp _ _ _ _ _ _
  | refresh hp hj => exact .intro rfl _ _ _ _ _ _
  | wakes hp => exact .intro rfl _ _ _ _ _ _

inductive Writes (k : Keeper) (id : Nat) (r : Run) : Keeper → Prop where
  | nothing {k' : Keeper} (hc : k'.catalog = k.catalog) (he : k'.events = k.events) :
      Writes k id r k'
  /-- What the run has staged takes the place of the catalog. -/
  | publishes {k₁ : Keeper} {c : Catalog} (hj : r.job.refreshes = true →
      r.point.draft?.isSome = true)
      (hc : r.canceled = false) (hk : Approaches k k₁) (hw : k₁.isSuperseded id = false)
      (h : r.staged.rematch k.matcher = .ok c) : Writes k id r (k₁.publish id c)
  /-- Changes are entered, but matching their steps fails. -/
  | breaks {changes : PathMap Change} {g : Group} {c : Catalog} {fault : Fault}
      (hp : r.point = .applying changes g) (hc : r.canceled = false) (hg : g.stop = none)
      (hd : k.disposed = false) (h : k.catalog.refresh k.matcher (k.loadedChanges changes g) =
        (c, some fault)) :
      Writes k id r ({ k with catalog := c }.leave id (.error (.failed fault)))
  | applies {k' : Keeper} {changes : PathMap Change} {g : Group} {c : Catalog}
      (hp : r.point = .applying changes g) (hc : r.canceled = false) (hg : g.stop = none)
      (hd : k.disposed = false) (h : k.catalog.refresh k.matcher (k.loadedChanges changes g) =
        (c, none)) (hk : k'.catalog = c) : Writes k id r k'

theorem Writes.giveUp {k k₁ : Keeper} {id : Nat} {r : Run} (hk : Approaches k k₁)
    (result : Except Stop Bool) :
    Writes k id r (k₁.giveUp id result) := by
  obtain ⟨subscriptions, he⟩ := giveUp_eq k₁ id result
  rw [he]
  cases hk with
  | intro hp connected current runs timer locked queue => exact .nothing rfl rfl

theorem Builds.writes {k k₁ k' : Keeper} {id : Nat} {r : Run} {d : Draft}
    {goal : Except Fault Catalog} (hb : Builds k₁ id d goal k')
    (hj : r.job.refreshes = true → r.point.draft?.isSome = true) (hc : r.canceled = false)
    (hk : Approaches k k₁) (hd : r.staged = d.staged) : Writes k id r k' := by
  cases hb with
  | searches hs hst hg =>
    cases hk with
    | intro hp connected current runs timer locked queue => exact .nothing rfl rfl
  | loads hs hst hg =>
    cases hk with
    | intro hp connected current runs timer locked queue => exact .nothing rfl rfl
  | abandons hw => exact .giveUp hk _
  | fails hf => exact .giveUp hk _
  | publishes hw hg hr =>
    have hm : k₁.matcher = k.matcher := by
      cases hk with
      | intro hp connected current runs timer locked queue => rfl
    rw [← hd, hm] at hr
    exact .publishes hj hc hk hw hr

theorem Enters.writes {k k₁ k' : Keeper} {id : Nat} {r : Run} (he : Enters k₁ id r.job k')
    (hc : r.canceled = false) (hk : Approaches k k₁) (hd : r.point.draft? = none) :
    Writes k id r k' := by
  cases he with
  | builds hj hb =>
    refine hb.writes (fun hj' => ?_) hc hk (Run.staged_of_draft?_eq_none hd)
    rw [hj] at hj'
    cases hj'
  | idles hj hp =>
    rw [leave_eq]
    cases hk with
    | intro hp connected current runs timer locked queue => exact .nothing rfl rfl
  | takesOver hj hp hdis =>
    cases hk with
    | intro hp connected current runs timer locked queue => exact .nothing rfl rfl

theorem Arrives.draft? {k k₀ : Keeper} {id : Nat} {r : Run} (ha : Arrives k id r k₀) :
    r.point.draft? = none := by
  cases ha with
  | rebuild hp hj | startUp hp hj | refresh hp hj => rw [hp]; rfl
  | wakes hp => rw [hp]; rfl

theorem TakesRun.writes {k k' : Keeper} {id : Nat} {r : Run} (ht : TakesRun k id r k') :
    Writes k id r k' := by
  have hbuilds : ∀ {d : Draft} {goal : Except Fault Catalog}, r.point.draft? = some d →
      r.canceled = false → Builds k id d goal k' → Writes k id r k' := by
    intro d goal hd hc hb
    exact hb.writes (fun _ => by rw [hd]; rfl) hc (.refl k) (Run.staged_of_draft? hd)
  cases ht with
  | rests hp => exact .nothing rfl rfl
  | stops hp hc => exact .nothing rfl rfl
  | sleeps hp hj hc => exact .nothing rfl rfl
  | queues hc ha hl =>
    obtain ⟨_, _, _, _, _, rfl⟩ := ha.eq
    exact .nothing rfl rfl
  | enters hc ha hl hq he => exact he.writes hc ha.approaches ha.draft?
  | quits hp hc => exact .nothing rfl rfl
  | admitted hp hc he => exact he.writes hc (.intro rfl _ _ _ _ _ _) (by rw [hp]; rfl)
  | resumes hp hc hb => exact hbuilds (by rw [hp]; rfl) hc hb
  | yields hp hc hg hs => exact .nothing rfl rfl
  | continues hp hc hb => exact hbuilds (by rw [hp]; rfl) hc hb
  | givesUp hp hg => exact .giveUp (.refl k) _
  | leaves hp hl =>
    rw [leave_eq]
    exact .nothing rfl rfl
  | breaks hp hc hg hd hre => exact .breaks hp hc hg hd hre
  | applies hp hc hg hd hre => exact .applies hp hc hg hd hre rfl

/-- A run that nothing has stopped enters its changes as soon as it has its turn. -/
theorem TakesRun.entersChanges {k k' : Keeper} {id : Nat} {r : Run} (ht : TakesRun k id r k')
    {changes : PathMap Change} {g : Group} (hp : r.point = .applying changes g)
    (hc : r.canceled = false) (hg : g.stop = none) (hd : k.disposed = false) :
    ∃ c fault, k.catalog.refresh k.matcher (k.loadedChanges changes g) = (c, fault) ∧
      k'.catalog = c := by
  cases ht with
  | leaves hp' hl =>
    rw [hp] at hp'
    cases hp'
    cases hl with
    | canceled h => rw [hc] at h; cases h
    | stopped h => rw [hg] at h; cases h
    | disposed h => rw [hd] at h; cases h
  | breaks hp' hc' hg' hd' hre =>
    rw [hp] at hp'
    cases hp'
    rw [leave_eq]
    exact ⟨_, _, hre, rfl⟩
  | applies hp' hc' hg' hd' hre =>
    rw [hp] at hp'
    cases hp'
    exact ⟨_, _, hre, rfl⟩
  | stops hp' hc' => rw [hp] at hp'; rcases hp' with hp' | ⟨time, hp'⟩ <;> cases hp'
  | queues hc' ha hl | enters hc' ha hl hq he =>
    cases ha with
    | rebuild hp' hj | startUp hp' hj | refresh hp' hj => rw [hp] at hp'; cases hp'
    | wakes hp' => rw [hp] at hp'; cases hp'
  | givesUp hp' hgu => rw [hp] at hp'; cases hp'
  | rests hp' | sleeps hp' | quits hp' | admitted hp' | resumes hp' | yields hp' | continues hp' =>
    rw [hp] at hp'
    cases hp'

end Keeper
end StepAtlas
