import Mathlib.Data.List.Nodup
import Mathlib.Data.List.Perm.Basic
import StepAtlas.PathMap

/-
Laws of maps from paths.  `mem_entries_iff` is where the uniqueness of paths is used: an entry is in
the list exactly when it is found under its path.  The other laws say what setting and removing a
path do to what is found.
-/

namespace StepAtlas
namespace PathMap

variable {α : Type}

theorem eq_of_entries_eq {m n : PathMap α} (h : m.entries = n.entries) : m = n := by
  cases m
  cases n
  cases h
  rfl

theorem lookup_eq_none_of_not_mem {p : Path} {es : List (Path × α)} (h : p ∉ es.map Prod.fst) :
    es.lookup p = none := by
  induction es with
  | nil => rfl
  | cons e rest ih =>
    obtain ⟨q, a⟩ := e
    simp only [List.map_cons, List.mem_cons, not_or] at h
    have hq : (p == q) = false := by simpa using h.1
    rw [List.lookup_cons, hq]
    exact ih h.2

theorem mem_of_lookup_eq_some {p : Path} {a : α} {es : List (Path × α)} (h : es.lookup p = some a) :
    (p, a) ∈ es := by
  induction es with
  | nil => simp at h
  | cons e rest ih =>
    obtain ⟨q, b⟩ := e
    rw [List.lookup_cons] at h
    by_cases hq : p = q
    · subst hq
      simp only [beq_self_eq_true, Option.some.injEq] at h
      rw [h]
      exact List.mem_cons_self
    · have hb : (p == q) = false := by simpa using hq
      rw [hb] at h
      exact List.mem_cons_of_mem _ (ih h)

theorem lookup_eq_some_of_mem {p : Path} {a : α} {es : List (Path × α)}
    (hn : (es.map Prod.fst).Nodup) (h : (p, a) ∈ es) : es.lookup p = some a := by
  induction es with
  | nil => simp at h
  | cons e rest ih =>
    obtain ⟨q, b⟩ := e
    rw [List.map_cons, List.nodup_cons] at hn
    rw [List.lookup_cons]
    rcases List.mem_cons.mp h with h | h
    · cases h
      simp
    · have hp : p ∈ rest.map Prod.fst := List.mem_map_of_mem h
      have hne : p ≠ q := fun e => hn.1 (e ▸ hp)
      have hb : (p == q) = false := by simpa using hne
      rw [hb]
      exact ih hn.2 h

/-- An entry stands in the list exactly when it is found under its path. -/
theorem mem_entries_iff {m : PathMap α} {p : Path} {a : α} :
    (p, a) ∈ m.entries ↔ m.get? p = some a :=
  ⟨lookup_eq_some_of_mem m.unique, mem_of_lookup_eq_some⟩

@[simp] theorem get?_empty (p : Path) : (empty : PathMap α).get? p = none := rfl

theorem get?_set (m : PathMap α) (p q : Path) (a : α) :
    (m.set p a).get? q = if q = p then some a else m.get? q := by
  by_cases h : q = p
  · rw [if_pos h, h, get?_set_self]
  · rw [if_neg h, get?_set_of_ne m a h]

theorem get?_remove (m : PathMap α) (p q : Path) :
    (m.remove p).get? q = if q = p then none else m.get? q := by
  by_cases h : q = p
  · rw [if_pos h, h]
    exact lookup_eq_none_of_not_mem (by simp [remove])
  · rw [if_neg h]
    ext a
    rw [← mem_entries_iff, ← mem_entries_iff]
    simp [remove, h]

theorem contains_iff {m : PathMap α} {p : Path} : m.contains p = true ↔ ∃ a, m.get? p = some a := by
  rw [contains, Option.isSome_iff_exists]

/-- Two maps in which the same is found under each path have the same entries up to their order. -/
theorem entries_perm {m n : PathMap α} (h : ∀ p, m.get? p = n.get? p) :
    m.entries.Perm n.entries := by
  have hm : m.entries.Nodup := List.Nodup.of_map Prod.fst m.unique
  have hn : n.entries.Nodup := List.Nodup.of_map Prod.fst n.unique
  refine (List.perm_ext_iff_of_nodup hm hn).mpr ?_
  rintro ⟨p, a⟩
  rw [mem_entries_iff, mem_entries_iff, h]

theorem put_of_not_mem {p : Path} {es : List (Path × α)} (a : α) (h : p ∉ es.map Prod.fst) :
    put p a es = es ++ [(p, a)] := by
  induction es with
  | nil => rfl
  | cons e rest ih =>
    rw [List.map_cons, List.mem_cons, not_or] at h
    rw [put, if_neg (fun he => h.1 he.symm), ih h.2]
    rfl

/-- Setting paths that a map does not have puts their entries behind those it has. -/
theorem entries_foldl_set (es : List (Path × α)) (m : PathMap α)
    (h : ((m.entries ++ es).map Prod.fst).Nodup) :
    (es.foldl (fun m e => m.set e.1 e.2) m).entries = m.entries ++ es := by
  induction es generalizing m with
  | nil => simp
  | cons e rest ih =>
    have he : e.1 ∉ m.entries.map Prod.fst := by
      rw [List.map_append, List.nodup_append] at h
      exact fun hm => h.2.2 _ hm _ (by simp) rfl
    have hset : (m.set e.1 e.2).entries = m.entries ++ [e] := put_of_not_mem e.2 he
    rw [List.foldl_cons, ih (m.set e.1 e.2) (by rw [hset]; simpa using h), hset]
    simp

end PathMap
end StepAtlas
