import StepAtlas.Keeper.Basic

/-
Applying pending changes.  The changes are taken over when the run has the lock, their files are
loaded together, and then the catalog is changed at once.
-/

namespace StepAtlas
namespace Keeper

def leave (k : Keeper) (id : Nat) (result : Except Stop Bool) : Keeper := k.unlock.finish id result

/-- Take over the pending changes and load their files; the run holds the lock. -/
def beginRefresh (k : Keeper) (id : Nat) : Keeper :=
  let changes := k.pending
  let k := { k with pending := .empty }
  if changes.entries = [] || k.disposed then k.leave id (.ok false)
  else
    let (k, g) :=
      k.startLoads id (changes.entries.map fun (p, c) => (p, c.cls, decide (c.kind = .deleted)))
    k.wait id (.applying changes g)

def applyChanges (k : Keeper) (id : Nat) (changes : PathMap Change) (g : Group) : Keeper :=
  match g.stop with
  | some stop => k.leave id (.error stop)
  | none =>
    if k.disposed then k.leave id (.ok false)
    else
      let loaded := (changes.entries.zip g.loads).map fun ((p, c), load) => (p, c, k.loaded load)
      match k.catalog.refresh k.matcher loaded with
      | (catalog, some fault) => { k with catalog }.leave id (.error (.failed fault))
      | (catalog, none) =>
        match { k with catalog }.unlock.announce with
        | (k, none) => k.finish id (.ok true)
        | (k, some fault) => k.finish id (.error (.failed fault))

end Keeper
end StepAtlas
