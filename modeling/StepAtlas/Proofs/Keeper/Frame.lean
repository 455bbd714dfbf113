import StepAtlas.Proofs.Keeper.Turns

/-
What a turn leaves alone.  The turn of a run touches the run itself, adds loads of its own, and may
tell other runs whether their catalogs are wanted; files, settings and mode stay as they are.  Only
two kinds of turns touch the pending changes or the timer, and they are singled out here.
-/

namespace StepAtlas
namespace Keeper

/-- The parts of a keeper that the turns of its runs hardly touch. -/
structure Core where
  workspace : Workspace
  sizeLimit : Int
  settings : Settings
  matcher : Matcher
  disposed : Bool
  runs : List Run
  loads : List Load

def core (k : Keeper) : Core :=
  { workspace := k.workspace, sizeLimit := k.sizeLimit, settings := k.settings,
    matcher := k.matcher, disposed := k.disposed
    runs := k.runs, loads := k.loads }

/-- Everything is the same but one run, its new loads, and what is wanted. -/
structure Frame (id : Nat) (k k' : Core) : Prop where
  workspace : k'.workspace = k.workspace
  sizeLimit : k'.sizeLimit = k.sizeLimit
  settings : k'.settings = k.settings
  matcher : k'.matcher = k.matcher
  disposed : k'.disposed = k.disposed
  runs : ∀ (i : Nat) (s : Run), k.runs[i]? = some s →
    ∃ p superseded, k'.runs[i]? = some { s with point := p, superseded } ∧ (i ≠ id → p = s.point)
  length : k'.runs.length = k.runs.length
  loads : ∃ files : List (Path × FileClass × Bool), k'.loads = k.loads ++ files.map (newLoad id)

theorem Frame.refl (id : Nat) (k : Core) : Frame id k k :=
  ⟨rfl, rfl, rfl, rfl, rfl, fun _ s hs => ⟨s.point, s.superseded, hs, fun _ => rfl⟩, rfl, [],
    by simp⟩

theorem Frame.trans {id : Nat} {k₁ k₂ k₃ : Core} (h : Frame id k₁ k₂) (h' : Frame id k₂ k₃) :
    Frame id k₁ k₃ where
  workspace := h'.workspace.trans h.workspace
  sizeLimit := h'.sizeLimit.trans h.sizeLimit
  settings := h'.settings.trans h.settings
  matcher := h'.matcher.trans h.matcher
  disposed := h'.disposed.trans h.disposed
  runs := by
    intro i s hs
    obtain ⟨p, superseded, hs₂, hp⟩ := h.runs i s hs
    obtain ⟨p', superseded', hs₃, hp'⟩ := h'.runs i _ hs₂
    exact ⟨p', superseded', hs₃, fun hne => (hp' hne).trans (hp hne)⟩
  length := h'.length.trans h.length
  loads := by
    obtain ⟨files, hl⟩ := h.loads
    obtain ⟨files', hl'⟩ := h'.loads
    exact ⟨files ++ files', by rw [hl', hl, List.map_append, List.append_assoc]⟩

theorem Frame.wait (k : Keeper) (id : Nat) (p : Point) : Frame id k.core (k.wait id p).core := by
  refine ⟨rfl, rfl, rfl, rfl, rfl, ?_, by simp [core, Keeper.wait, modifyRun], [],
    by simp [core, Keeper.wait, modifyRun]⟩
  intro i s hs
  by_cases hi : i = id
  · subst hi
    exact ⟨p, s.superseded, runs_wait_self hs p, fun hne => absurd rfl hne⟩
  · exact ⟨s.point, s.superseded, (runs_wait_of_ne hi p).trans hs, fun _ => rfl⟩

theorem Frame.startLoads (k : Keeper) (id : Nat) (files : List (Path × FileClass × Bool)) :
    Frame id k.core (k.startLoads id files).1.core :=
  ⟨rfl, rfl, rfl, rfl, rfl, fun _ s hs => ⟨s.point, s.superseded, hs, fun _ => rfl⟩, rfl, files,
    rfl⟩

theorem Frame.giveUp (k : Keeper) (id : Nat) (result : Except Stop Bool) :
    Frame id k.core (k.giveUp id result).core := by
  obtain ⟨subscriptions, he⟩ := giveUp_eq k id result
  rw [he]
  exact Frame.wait k id _

theorem Frame.leave (k : Keeper) (id : Nat) (result : Except Stop Bool) :
    Frame id k.core (k.leave id result).core := by
  rw [leave_eq]
  exact Frame.wait k id _

theorem Builds.frame {k k' : Keeper} {id : Nat} {d : Draft} {goal : Except Fault Catalog}
    (hb : Builds k id d goal k') : Frame id k.core k'.core := by
  cases hb with
  | searches hs hd hg => exact Frame.wait k id _
  | loads hs hd hg => exact (Frame.startLoads k id _).trans (Frame.wait _ id _)
  | abandons hw => exact Frame.giveUp k id _
  | fails hf => exact Frame.giveUp k id _
  | publishes hw hg hr =>
    obtain ⟨told, subscriptions, he⟩ := publish_eq k id _
    rw [he]
    exact Frame.wait k id _

theorem Builds.pending {k k' : Keeper} {id : Nat} {d : Draft} {goal : Except Fault Catalog}
    (hb : Builds k id d goal k') : k'.pending = k.pending ∧ k'.timer = k.timer := by
  cases hb with
  | searches hs hd hg => exact ⟨rfl, rfl⟩
  | loads hs hd hg => exact ⟨rfl, rfl⟩
  | abandons hw =>
    obtain ⟨subscriptions, he⟩ := giveUp_eq k id (.ok false)
    rw [he]
    exact ⟨rfl, rfl⟩
  | @fails fault hf =>
    obtain ⟨subscriptions, he⟩ := giveUp_eq k id (.error (.failed fault))
    rw [he]
    exact ⟨rfl, rfl⟩
  | publishes hw hg hr =>
    obtain ⟨told, subscriptions, he⟩ := publish_eq k id _
    rw [he]
    exact ⟨rfl, rfl⟩

theorem Enters.frame {k k' : Keeper} {id : Nat} {job : Job} (he : Enters k id job k') :
    Frame id k.core k'.core := by
  cases he with
  | builds hj hb => exact hb.frame
  | idles hj hp => exact Frame.leave { k with pending := .empty } id _
  | takesOver hj hp hd =>
    exact (Frame.startLoads { k with pending := .empty } id _).trans (Frame.wait _ id _)

theorem Arrives.frame {k k' : Keeper} {id : Nat} {r : Run} (ha : Arrives k id r k') :
    Frame id k.core k'.core := by
  have hrun : ∀ (i : Nat) (s : Run), k.runs[i]? = some s →
      ∃ p superseded, k'.runs[i]? = some { s with point := p, superseded } ∧
      (i ≠ id → p = s.point) := by
    intro i s hs
    obtain ⟨superseded, hs'⟩ := ha.run hs
    exact ⟨s.point, superseded, hs', fun _ => rfl⟩
  cases ha with
  | rebuild hp hj =>
    simp only [supersede_eq] at hrun ⊢
    exact ⟨rfl, rfl, rfl, rfl, rfl, hrun,
      by simp [core, supersededRuns, unwantedRuns], [], by simp [core]⟩
  | startUp hp hj =>
    simp only [supersede_eq] at hrun ⊢
    exact ⟨rfl, rfl, rfl, rfl, rfl, hrun, by simp [core, supersededRuns, unwantedRuns, connect], [],
      by simp [core, connect]⟩
  | refresh hp hj => exact .refl id _
  | wakes hp => exact .refl id _

theorem TakesRun.frame {k k' : Keeper} {id : Nat} {r : Run} (ht : TakesRun k id r k') :
    Frame id k.core k'.core := by
  cases ht with
  | rests hp => exact .refl id _
  | stops hp hc => exact Frame.wait k id _
  | sleeps hp hj hc => exact Frame.wait k id _
  | @queues k₀ hc ha hl => exact ha.frame.trans (Frame.wait k₀ id _)
  | enters hc ha hl hq he => exact ha.frame.trans he.frame
  | quits hp hc => exact Frame.wait k id _
  | admitted hp hc he => exact he.frame
  | resumes hp hc hb => exact hb.frame
  | yields hp hc hg hs => exact Frame.wait k id _
  | continues hp hc hb => exact hb.frame
  | givesUp hp hg => exact Frame.giveUp k id _
  | leaves hp hl => exact Frame.leave k id _
  | breaks hp hc hg hd hre =>
    rw [leave_eq]
    exact Frame.wait k id _
  | applies hp hc hg hd hre => exact Frame.wait k id _

end Keeper
end StepAtlas
