import StepAtlas.Proofs.Keeper.Liveness
import StepAtlas.Proofs.Keeper.Loads
import StepAtlas.Proofs.Keeper.Stamps
import StepAtlas.Proofs.Keeper.Supersession

/-
The keepers that can come to be.  What every move keeps holds of all of them, and what every move
but the end of the keeper keeps holds of all that are not ended.
-/

namespace StepAtlas
namespace Keeper

/-- A keeper that can come to be: it began with some catalog and some number of files to load
together, and since then anything may have happened to it, as long as whoever understands the files
stamps their features. -/
inductive Reachable : Keeper → Prop where
  | new {w : Workspace} (hw : w.Stamps) (provider : Provider Unit) (size limit : Int) (delay : Nat)
      (watchable : Bool) {c : Catalog} (hc : c.Stamped) :
      Reachable { new w provider size.toNat limit delay watchable with catalog := c }
  | next {k : Keeper} {m : Move} (h : Reachable k) (hm : ∀ w, m = .edit w → w.Stamps) :
      Reachable (k.next m)

namespace Reachable
variable {k : Keeper}

theorem after (h : Reachable k) {ms : List Move} (hms : ∀ w, Move.edit w ∈ ms → w.Stamps) :
    Reachable (k.after ms) := by
  induction ms generalizing k with
  | nil => exact h
  | cons m ms ih =>
    refine ih (h.next fun w hw => hms w ?_) fun w hw => hms w (List.mem_cons_of_mem _ hw)
    rw [hw]
    exact List.mem_cons_self

theorem stamped (h : Reachable k) : k.Stamped := by
  induction h with
  | new hw provider size limit delay watchable hc =>
    have hnew := new_stamped hw provider size.toNat limit delay watchable
    exact ⟨hw, hc, hnew.loaded, hnew.points⟩
  | next _ hm ih => exact next_stamped ih hm

theorem orderly (h : Reachable k) : k.Orderly := by
  induction h with
  | @new w hw provider size limit delay watchable c hc =>
    exact new_orderly w provider size.toNat limit delay watchable
  | next _ _ ih => exact next_orderly ih _

theorem suited (h : Reachable k) : k.Suited := by
  induction h with
  | @new w hw provider size limit delay watchable c hc =>
    exact new_suited w provider size.toNat limit delay watchable
  | next _ _ ih => exact next_suited ih _

theorem live (h : Reachable k) : k.Live := by
  induction h with
  | @new w hw provider size limit delay watchable c hc =>
    exact new_live w provider size.toNat limit delay watchable
  | next h _ ih => exact next_live ih h.orderly _

/-- What holds of a new keeper and is kept by every move but the end holds as long as the keeper is
not ended. -/
theorem induction_of_disposed {P : Keeper → Prop}
    (hnew : ∀ w provider size limit delay watchable c,
      P { Keeper.new w provider size limit delay watchable with catalog := c })
    (hnext : ∀ k m, P k → m ≠ .dispose → P (k.next m)) (h : Reachable k) (hd : k.disposed = false) :
    P k := by
  induction h with
  | new hw provider size limit delay watchable hc =>
    exact hnew _ provider size.toNat limit delay watchable _
  | @next k m _ _ ih =>
    obtain ⟨hm, hd₀⟩ := next_disposed_eq_false.mp hd
    exact hnext k m (ih hd₀) hm

theorem undisturbed (h : Reachable k) (hd : k.disposed = false) : k.Undisturbed :=
  h.induction_of_disposed (P := Undisturbed)
    (fun w provider size limit delay watchable _ =>
      new_undisturbed w provider size limit delay watchable)
    (fun _ _ hk hm => next_undisturbed hk hm) hd

theorem reported (h : Reachable k) (hd : k.disposed = false) : k.Reported := by
  have hboth := h.induction_of_disposed (P := fun k => k.Undisturbed ∧ k.Reported)
    (fun w provider size limit delay watchable _ =>
      ⟨new_undisturbed w provider size limit delay watchable, fun i p g hp _ => by cases hp⟩)
    (fun _ _ hk hm => ⟨next_undisturbed hk.1 hm, next_reported hk.1 hk.2 hm⟩) hd
  exact hboth.2

end Reachable

end Keeper
end StepAtlas
