import StepAtlas.Proofs.Script.Registering

/-
The walk with a stack, turn by turn.  A turn takes the node on top of the stack, lists it and puts
its parts on the stack, the last one first, so that the first one is on top.  What is listed,
followed by the traversals of the trees on the stack from its top down, is the same before and after
a turn, and every turn takes one node from the stack for good.

A node is told by its place, the way down to it by the numbers of the parts: two nodes may well be
equal as trees.  In preorder the places of a tree are in the order of a dictionary.
-/

namespace StepAtlas
namespace Script
namespace Tree

/-! ## Turns -/

/-- A walk under way: the nodes listed so far, and the stack with its top at the end. -/
structure Walker where
  listed : List Tree
  stack : List Tree

namespace Walker

variable {w w' : Walker}

def start (t : Tree) : Walker := { listed := [], stack := [t] }

/-- One turn of the walk.  It is over when the stack is empty. -/
def turn? (w : Walker) : Option Walker :=
  w.stack.getLast?.map fun t =>
    { listed := w.listed ++ [t], stack := w.stack.dropLast ++ t.parts.reverse }

def turns? : Nat → Walker → Option Walker
  | 0, w => some w
  | n + 1, w => w.turn?.bind (turns? n)

def due (w : Walker) : List Tree := w.listed ++ preorderAll w.stack.reverse

theorem turn?_eq_some (h : w.turn? = some w') :
    ∃ stack t, w.stack = stack ++ [t] ∧
      w' = { listed := w.listed ++ [t], stack := stack ++ t.parts.reverse } := by
  obtain ⟨t, ht, rfl⟩ := Option.map_eq_some_iff.mp h
  obtain ⟨stack, hstack⟩ := List.getLast?_eq_some_iff.mp ht
  exact ⟨stack, t, hstack, by rw [hstack, List.dropLast_concat]⟩

theorem exists_turn? (h : w.stack ≠ []) : ∃ w', w.turn? = some w' := by
  rw [turn?, List.getLast?_eq_some_getLast h]
  exact ⟨_, rfl⟩

theorem due_turn? (h : w.turn? = some w') : w'.due = w.due := by
  obtain ⟨stack, ⟨l, s, ps⟩, hstack, rfl⟩ := turn?_eq_some h
  simp only [due, hstack, parts, List.reverse_append, List.reverse_reverse, List.reverse_singleton,
    preorderAll, preorder, preorderAll_append, List.append_assoc, List.cons_append, List.nil_append]

theorem sizeAll_reverse (ts : List Tree) : sizeAll ts.reverse = sizeAll ts := by
  induction ts with
  | nil => rfl
  | cons t ts ih =>
    rw [List.reverse_cons, sizeAll_append, ih, sizeAll, sizeAll, sizeAll]
    omega

theorem sizeAll_turn? (h : w.turn? = some w') : sizeAll w.stack = sizeAll w'.stack + 1 := by
  obtain ⟨stack, ⟨l, s, ps⟩, hstack, rfl⟩ := turn?_eq_some h
  simp only [hstack, sizeAll_append, sizeAll_reverse, parts, sizeAll, size]
  omega

/-- A tree has at least one node. -/
theorem eq_nil_of_sizeAll {ts : List Tree} (h : sizeAll ts = 0) : ts = [] := by
  cases ts with
  | nil => rfl
  | cons t ts =>
    cases t
    simp [sizeAll, size] at h

/-- The walk is over after as many turns as there are nodes on the stack. -/
theorem turns?_sizeAll (w : Walker) :
    w.turns? (sizeAll w.stack) = some { listed := w.due, stack := [] } := by
  generalize hn : sizeAll w.stack = n
  induction n generalizing w with
  | zero =>
    obtain ⟨listed, stack⟩ := w
    obtain rfl := eq_nil_of_sizeAll hn
    simp [turns?, due, preorderAll]
  | succ n ih =>
    have hstack : w.stack ≠ [] := fun hnil => by simp [hnil, sizeAll] at hn
    obtain ⟨w', hw'⟩ := exists_turn? hstack
    have hsize := sizeAll_turn? hw'
    rw [turns?, hw', Option.bind_some, ih w' (by omega), due_turn? hw']

theorem turns?_start (t : Tree) :
    (start t).turns? t.size = some { listed := t.preorder, stack := [] } := by
  have h := turns?_sizeAll (start t)
  simpa [start, due, sizeAll, preorderAll] using h

end Walker

/-! ## Places -/

def at? (t : Tree) : (place : List Nat) → Option Tree
  | [] => some t
  | i :: place => t.parts[i]?.bind (at? · place)

mutual

def places : Tree → List (List Nat)
  | .node _ _ ps => [] :: placesFrom 0 ps

def placesFrom (i : Nat) : List Tree → List (List Nat)
  | [] => []
  | t :: ts => (places t).map (i :: ·) ++ placesFrom (i + 1) ts

end

theorem placesFrom_eq_flatMap (i : Nat) (ts : List Tree) :
    placesFrom i ts = (ts.zipIdx i).flatMap fun x => x.1.places.map (x.2 :: ·) := by
  induction ts generalizing i with
  | nil => rfl
  | cons t ts ih => rw [placesFrom, ih, List.zipIdx_cons, List.flatMap_cons]

theorem places_eq (t : Tree) :
    t.places = [] :: t.parts.zipIdx.flatMap fun x => x.1.places.map (x.2 :: ·) := by
  cases t with
  | node l s ps => rw [places, placesFrom_eq_flatMap, parts]

theorem mem_places_iff (t : Tree) (place : List Nat) :
    place ∈ t.places ↔ ∃ n, t.at? place = some n := by
  induction t using inductionOn generalizing place with
  | node l s ps ih =>
    rw [places_eq, List.mem_cons, List.mem_flatMap]
    cases place with
    | nil => simp [at?]
    | cons i place =>
      simp only [at?, parts, List.cons_ne_nil, false_or, List.mem_map, List.cons.injEq,
        Option.bind_eq_some_iff]
      constructor
      · rintro ⟨⟨p, j⟩, hp, _, hplace, rfl, rfl⟩
        rw [List.mem_zipIdx_iff_getElem?] at hp
        obtain ⟨n, hn⟩ := (ih p (List.mem_of_getElem? hp) _).mp hplace
        exact ⟨n, p, hp, hn⟩
      · rintro ⟨n, p, hp, hn⟩
        have hplace := (ih p (List.mem_of_getElem? hp) place).mpr ⟨n, hn⟩
        exact ⟨(p, i), List.mem_zipIdx_iff_getElem?.mpr hp, place, hplace, rfl, rfl⟩

/-- A node comes before what lies below it, and what lies in a part before what lies in the parts
behind. -/
theorem pairwise_places (t : Tree) : t.places.Pairwise (· < ·) := by
  induction t using inductionOn with
  | node l s ps ih =>
    rw [places_eq, List.pairwise_cons, List.pairwise_flatMap]
    refine ⟨fun place hplace => ?_, fun x hx => ?_, ?_⟩
    · obtain ⟨x, -, hx⟩ := List.mem_flatMap.mp hplace
      obtain ⟨place, -, rfl⟩ := List.mem_map.mp hx
      exact List.nil_lt_cons _ _
    · refine List.pairwise_map.mpr ((ih x.1 (List.fst_mem_of_mem_zipIdx hx)).imp fun hlt => ?_)
      exact List.cons_lt_cons_iff.mpr (.inr ⟨rfl, hlt⟩)
    · have hnumbers : ps.zipIdx.Pairwise fun x y => x.2 < y.2 := by
        rw [← List.pairwise_map (f := Prod.snd) (R := (· < ·)), List.zipIdx_map_snd]
        exact List.pairwise_lt_range'
      refine hnumbers.imp fun {x y} hxy place hplace place' hplace' => ?_
      obtain ⟨_, -, rfl⟩ := List.mem_map.mp hplace
      obtain ⟨_, -, rfl⟩ := List.mem_map.mp hplace'
      exact List.cons_lt_cons_iff.mpr (.inl hxy)

/-- The preorder has at each place the node that is there. -/
theorem map_at?_places (t : Tree) : t.places.map t.at? = t.preorder.map some := by
  induction t using inductionOn with
  | node l s ps ih =>
    have hpart : ∀ x ∈ ps.zipIdx, (x.1.places.map (x.2 :: ·)).map (at? (.node l s ps)) =
        x.1.preorder.map some := by
      intro x hx
      have hget : ps[x.2]? = some x.1 := List.mem_zipIdx_iff_getElem?.mp hx
      rw [List.map_map, ← ih x.1 (List.fst_mem_of_mem_zipIdx hx)]
      refine List.map_congr_left fun place _ => ?_
      rw [Function.comp_apply, at?, parts, hget, Option.bind_some]
    have hparts : ps.flatMap (fun p => p.preorder.map some) = ps.zipIdx.flatMap fun x =>
        x.1.preorder.map some := by
      conv_lhs => rw [← List.zipIdx_map_fst 0 ps, List.flatMap_map]
    rw [places_eq, preorder_eq, List.map_cons, List.map_cons, List.map_flatMap, List.map_flatMap,
      parts, hparts, List.flatMap_congr hpart]
    rfl

/-- The loop over a stack is over after as many turns as a tree has nodes, and it has listed them in
preorder.  The nodes listed are those at the places of the tree, one for each place, in the order of
a dictionary. -/
theorem walk_in_preorder (t : Tree) :
    (Walker.start t).turns? t.size = some { listed := t.walk, stack := [] } ∧ t.walk = t.preorder ∧
      ∃ places : List (List Nat), (∀ place, place ∈ places ↔ ∃ n, t.at? place = some n) ∧
        places.Pairwise (· < ·) ∧ t.walk.map some = places.map t.at? := by
  rw [walk_eq]
  exact ⟨Walker.turns?_start t, rfl, t.places, mem_places_iff t, pairwise_places t,
    (map_at?_places t).symm⟩

end Tree
end Script
end StepAtlas
