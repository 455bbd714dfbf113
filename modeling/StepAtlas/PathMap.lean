import StepAtlas.Path

/-
Maps from paths that keep the order in which their paths came in.  A path that is set again keeps
its place; one that was removed comes in anew at the end.

A map holds the proof that no path has two entries.  So looking a path up and going through the
entries tell the same.
-/

namespace StepAtlas
namespace PathMap

variable {α : Type}

def put (p : Path) (a : α) : List (Path × α) → List (Path × α)
  | [] => [(p, a)]
  | e :: rest => if e.1 = p then (p, a) :: rest else e :: put p a rest

theorem map_fst_put (p : Path) (a : α) (es : List (Path × α)) :
    (put p a es).map Prod.fst = if p ∈ es.map Prod.fst then es.map Prod.fst
      else es.map Prod.fst ++ [p] := by
  induction es with
  | nil => simp [put]
  | cons e rest ih =>
    simp only [put]
    split
    · rename_i h
      simp [h]
    · rename_i h
      have hp : p ≠ e.1 := fun x => h x.symm
      simp only [List.map_cons, ih, List.mem_cons, hp, false_or]
      split <;> simp

theorem nodup_put (p : Path) (a : α) {es : List (Path × α)} (h : (es.map Prod.fst).Nodup) :
    ((put p a es).map Prod.fst).Nodup := by
  rw [map_fst_put]
  split
  · exact h
  · rename_i hp
    refine List.nodup_append.mpr ⟨h, by simp, ?_⟩
    intro q hq r hr
    rw [List.mem_singleton.mp hr]
    exact fun e => hp (e ▸ hq)

theorem nodup_filter (keep : Path × α → Bool) {es : List (Path × α)} (h : (es.map Prod.fst).Nodup) :
    ((es.filter keep).map Prod.fst).Nodup :=
  h.sublist (List.filter_sublist.map Prod.fst)

end PathMap

/-- Entries by path, first come first. -/
structure PathMap (α : Type) where
  entries : List (Path × α)
  /-- No path has two entries. -/
  unique : (entries.map Prod.fst).Nodup
deriving DecidableEq, Repr

namespace PathMap

variable {α : Type}

def empty : PathMap α := { entries := [], unique := .nil }

def set (m : PathMap α) (p : Path) (a : α) : PathMap α :=
  { entries := put p a m.entries, unique := nodup_put p a m.unique }

def remove (m : PathMap α) (p : Path) : PathMap α :=
  { entries := m.entries.filter (·.1 ≠ p), unique := nodup_filter _ m.unique }

def get? (m : PathMap α) (p : Path) : Option α := m.entries.lookup p

def contains (m : PathMap α) (p : Path) : Bool := (m.get? p).isSome

def values (m : PathMap α) : List α := m.entries.map (·.2)

def size (m : PathMap α) : Nat := m.entries.length

theorem lookup_put_self (p : Path) (a : α) (es : List (Path × α)) :
    (put p a es).lookup p = some a := by
  induction es with
  | nil => simp [put]
  | cons e rest ih =>
    obtain ⟨x, b⟩ := e
    simp only [put]
    split
    · simp
    · rename_i h
      have : (p == x) = false := by simpa using Ne.symm h
      simp [List.lookup_cons, this, ih]

theorem lookup_put_of_ne {p q : Path} (a : α) (h : q ≠ p) (es : List (Path × α)) :
    (put p a es).lookup q = es.lookup q := by
  have hq : (q == p) = false := by simpa using h
  induction es with
  | nil => simp [put, List.lookup_cons, hq]
  | cons e rest ih =>
    obtain ⟨x, b⟩ := e
    simp only [put]
    split
    · rename_i hx
      have hx : x = p := hx
      simp [List.lookup_cons, hx, hq]
    · simp [List.lookup_cons, ih]

/-- What was set is found. -/
theorem get?_set_self (m : PathMap α) (p : Path) (a : α) : (m.set p a).get? p = some a :=
  lookup_put_self p a m.entries

/-- Setting a path leaves the others alone. -/
theorem get?_set_of_ne (m : PathMap α) {p q : Path} (a : α) (h : q ≠ p) :
    (m.set p a).get? q = m.get? q :=
  lookup_put_of_ne a h m.entries

end PathMap
end StepAtlas
