import StepAtlas.Proofs.Keeper.Built
import StepAtlas.Proofs.Keeper.Reachable

/-
What stays the same while a run holds the lock.  Calls do not touch the entries of the catalog, and
among the turns only those of the run that holds the lock do.  Loads bring what their files hold.
So whatever else goes on, a run finds the entries and its loads as it left them.
-/

namespace StepAtlas
namespace Keeper

theorem sameEntries_refl (c : Catalog) : c.SameEntries c := ⟨rfl, rfl⟩

theorem switchMode_sameEntries (k : Keeper) (mode : MatchMode) :
    k.catalog.SameEntries (k.switchMode mode).1.catalog := by
  obtain ⟨c, told, fault, hr, he⟩ | ⟨fault, hr, he⟩ := switchMode_eq k mode
  · rw [he]
    obtain ⟨hf, hd⟩ := Catalog.features_of_rematch hr
    exact ⟨hf, hd⟩
  · rw [he]
    exact sameEntries_refl _

theorem settingsChanged_sameEntries (k : Keeper) :
    k.catalog.SameEntries k.settingsChanged.1.catalog := by
  unfold settingsChanged
  dsimp only
  split
  · unfold spawnRebuild
    split
    · exact sameEntries_refl _
    · exact sameEntries_refl _
  · split
    · exact switchMode_sameEntries { k with settings := k.provider.settings } _
    · exact sameEntries_refl _

theorem changeSettings_sameEntries (k : Keeper) (changes : List (Text × Value)) :
    k.catalog.SameEntries (k.changeSettings changes).1.catalog := by
  unfold changeSettings
  split
  · exact sameEntries_refl _
  · exact sameEntries_refl _
  · rename_i provider hu
    have hcall :=
      callAll_induction (P := fun k' => k.catalog.SameEntries k'.catalog)
        (fun () k => k.settingsChanged)
      (fun _ k' hk => ⟨(settingsChanged_sameEntries k').features.trans hk.features,
        (settingsChanged_sameEntries k').definitions.trans hk.definitions⟩)
      provider.changed.listeners { k with provider } (sameEntries_refl _)
    split
    · rename_i k' hc
      rw [hc] at hcall
      exact hcall
    · rename_i k' fault hc
      rw [hc] at hcall
      exact hcall

theorem Reconfigures.files {k k' : Keeper} (hc : Reconfigures k k') :
    k'.workspace = k.workspace ∧ k'.sizeLimit = k.sizeLimit := by
  induction hc with
  | sets | starts => exact ⟨rfl, rfl⟩
  | trans _ _ ih ih' => exact ⟨ih'.1.trans ih.1, ih'.2.trans ih.2⟩

section
variable {k : Keeper} (h : k.Undisturbed) {m : Move} (hm : m ≠ .dispose)

include h hm

/-- A call may match anew, but it does not touch the entries. -/
theorem next_sameEntries (ht : ∀ t, m ≠ .turn t) : k.catalog.SameEntries (k.next m).catalog := by
  have h' := next_moves k m
  generalize k.next m = k' at h' ⊢
  cases h' with
  | notify p c =>
    obtain ⟨ready, he⟩ := h.notify_eq p c
    rw [he]
    exact sameEntries_refl _
  | switchMode mode => exact switchMode_sameEntries k mode
  | changeSettings changes => exact changeSettings_sameEntries k changes
  | dispose => exact absurd rfl hm
  | run => exact absurd rfl (ht _)
  | starts | listen | edit | works | waits => exact sameEntries_refl _

theorem next_files (he : ∀ w, m ≠ .edit w) :
    (k.next m).workspace = k.workspace ∧ (k.next m).sizeLimit = k.sizeLimit := by
  have h' := next_moves k m
  generalize k.next m = k' at h' ⊢
  cases h' with
  | notify p c =>
    obtain ⟨ready, hn⟩ := h.notify_eq p c
    rw [hn]
    exact ⟨rfl, rfl⟩
  | switchMode mode => exact (switchMode_reconfigures k mode).files
  | changeSettings changes => exact (changeSettings_reconfigures k changes).files
  | dispose => exact absurd rfl hm
  | run hready hr hrun => exact ⟨hrun.frame.workspace, hrun.frame.sizeLimit⟩
  | edit w => exact absurd rfl (he w)
  | starts | listen | works | waits => exact ⟨rfl, rfl⟩

theorem next_brings_of_files (he : ∀ w, m ≠ .edit w) {cls : FileClass} {p : Path} {j : Nat}
    (hb : k.Brings cls p j) :
    (k.next m).Brings cls p j := by
  obtain ⟨hw, hl⟩ := next_files h hm he
  refine next_brings h hm ?_ hb
  show (k.next m).workspace.load (k.next m).sizeLimit cls p = k.workspace.load k.sizeLimit cls p
  rw [hw, hl]

end

/-- A run that does not hold the lock cannot write while another one does. -/
theorem TakesRun.catalog_of_locked {k k' : Keeper} {id : Nat} {r : Run} (ht : TakesRun k id r k')
    (hl : k.locked = true) (hh : r.point.holds = false)
    (hq : r.point = .queued → r.canceled = true) :
    k'.catalog = k.catalog := by
  have hno : r.point.holds ≠ true := by simp [hh]
  cases ht with
  | rests | stops | sleeps | quits => rfl
  | queues hc ha hl' =>
    obtain ⟨_, _, _, _, _, rfl⟩ := ha.eq
    rfl
  | enters hc ha hfree =>
    rw [hl] at hfree
    cases hfree
  | admitted hp hc =>
    rw [hq hp] at hc
    cases hc
  | givesUp hp hg => exact absurd (Point.holds_of_draft? hp) hno
  | resumes hp | yields hp | continues hp | leaves hp | breaks hp | applies hp =>
    exact absurd (by rw [hp]; rfl) hno

/-- While a run holds the lock, the catalog is not touched by the turns of others. -/
theorem next_turn_catalog_of_holds {k : Keeper} (ho : k.Orderly) {i : Nat} {r : Run}
    (hr : k.runs[i]? = some r) (hh : r.point.holds = true) {t : Turn} (hi : t ≠ .run i) :
    (k.next (.turn t)).catalog = k.catalog := by
  have hlocked : k.locked = true := ho.holds i r hr hh
  rcases next_turn k t with he | ⟨hmem, htake⟩
  · rw [he]
  · generalize k.next (.turn t) = k' at htake ⊢
    cases htake with
    | @run j s _ hs hrun =>
      have hfree : s.point.holds = false := by
        by_contra hsh
        have hji : j = i := ho.alone j i s r hs hr (by simpa using hsh) hh
        exact hi (by rw [hji])
      have hq : s.point = .queued → s.canceled = true := by
        intro hp
        by_contra hc
        have hunlocked := (ho.summoned j s hs hp (by simpa using hc) hmem).1
        rw [hlocked] at hunlocked
        cases hunlocked
      exact hrun.catalog_of_locked hlocked hfree hq
    | load hl hload => exact hload.catalog
    | report hl hreport => exact hreport.catalog
    | alarm hrun hp => rfl
    | idle => rfl

/-- While a run holds the lock, the entries of the catalog change by its own turns alone. -/
theorem next_sameEntries_of_holds {k : Keeper} (h : k.Undisturbed) (ho : k.Orderly) {m : Move}
    (hm : m ≠ .dispose) {i : Nat} {r : Run} (hr : k.runs[i]? = some r) (hh : r.point.holds = true)
    (hi : m ≠ .turn (.run i)) :
    k.catalog.SameEntries (k.next m).catalog := by
  cases m with
  | turn t =>
    rw [next_turn_catalog_of_holds ho hr hh (by simpa using hi)]
    exact sameEntries_refl _
  | _ => exact next_sameEntries h hm (by simp)

/-! ## What turns leave alone -/

theorem Builds.surroundings {k k' : Keeper} {id : Nat} {d : Draft} {goal : Except Fault Catalog}
    (hb : Builds k id d goal k') : k'.held = k.held ∧ k'.changed = k.changed := by
  cases hb with
  | searches | loads => exact ⟨rfl, rfl⟩
  | abandons | fails =>
    obtain ⟨subscriptions, he⟩ := giveUp_eq k id _
    rw [he]
    exact ⟨rfl, rfl⟩
  | @publishes c =>
    obtain ⟨told, subscriptions, he⟩ := publish_eq k id c
    rw [he]
    exact ⟨rfl, rfl⟩

theorem Enters.surroundings {k k' : Keeper} {id : Nat} {job : Job} (he : Enters k id job k') :
    k'.held = k.held ∧ k'.changed = k.changed := by
  cases he with
  | builds _ hb => exact hb.surroundings
  | idles =>
    rw [leave_eq]
    exact ⟨rfl, rfl⟩
  | takesOver => exact ⟨rfl, rfl⟩

theorem TakesRun.surroundings {k k' : Keeper} {id : Nat} {r : Run} (ht : TakesRun k id r k') :
    k'.held = k.held ∧ k'.changed = k.changed := by
  cases ht with
  | rests | stops | sleeps | quits | yields | applies => exact ⟨rfl, rfl⟩
  | queues _ ha =>
    obtain ⟨_, _, _, _, _, rfl⟩ := ha.eq
    exact ⟨rfl, rfl⟩
  | enters _ ha _ _ he =>
    obtain ⟨_, _, _, _, _, rfl⟩ := ha.eq
    exact he.surroundings
  | admitted _ _ he => exact he.surroundings
  | resumes _ _ hb | continues _ _ hb => exact hb.surroundings
  | givesUp =>
    obtain ⟨subscriptions, he⟩ := giveUp_eq k id _
    rw [he]
    exact ⟨rfl, rfl⟩
  | leaves | breaks =>
    rw [leave_eq]
    exact ⟨rfl, rfl⟩

/-- What is not up to turns: what is held back, who listens, how steps are matched, and which runs
there are. -/
structure SameSurroundings (k k' : Keeper) : Prop where
  held : k'.held = k.held
  changed : k'.changed = k.changed
  matcher : k'.matcher = k.matcher
  length : k'.runs.length = k.runs.length

theorem next_turn_surroundings (k : Keeper) (t : Turn) : SameSurroundings k (k.next (.turn t)) := by
  rcases next_turn k t with he | ⟨-, htake⟩
  · rw [he]
    exact ⟨rfl, rfl, rfl, rfl⟩
  · generalize k.next (.turn t) = k' at htake ⊢
    cases htake with
    | run hr hrun =>
      exact ⟨hrun.surroundings.1, hrun.surroundings.2, hrun.frame.matcher, hrun.frame.length⟩
    | load hl hload =>
      cases hload with
      | rests | waits | ends => exact ⟨rfl, rfl, rfl, rfl⟩
    | report hl hreport =>
      cases hreport with
      | rests => exact ⟨rfl, rfl, rfl, rfl⟩
      | delivers => exact ⟨rfl, rfl, rfl, by simp [wait, modifyRun]⟩
    | alarm hr hp => exact ⟨rfl, rfl, rfl, rfl⟩
    | idle => exact ⟨rfl, rfl, rfl, rfl⟩

end Keeper
end StepAtlas
