import StepAtlas.Proofs.Regex.Language

/-
The order in which a run tries things.  A node stands for the list of its ways, the places that it
can lead to from a given one with the one tried first in front, and running it in front of a
continuation finds the first way that the continuation accepts.  Ways of a sequence, a choice or a
group are put together from those of its parts.

Most nodes catch nothing.  Their ways are said by lengths alone, and which lengths occur is known
from the language that the node matches, so only the order of the lengths is left to be shown.
-/

namespace StepAtlas
namespace Regex

/-- A spot as the rest of a match sees it.  Where something was last entered is left out: failures
tell it, and no match depends on it. -/
structure Place where
  pos : Nat
  behind : Text
  ahead : Text
  caught : List (Nat × Nat × Nat)

def Spot.place (s : Spot) : Place :=
  { pos := s.pos, behind := s.behind, ahead := s.ahead, caught := s.caught }

namespace Place

/-- Pass `n` code points. -/
def skip (p : Place) (n : Nat) : Place :=
  { p with pos := p.pos + n, behind := (p.ahead.take n).reverse ++ p.behind,
           ahead := p.ahead.drop n }

def catchGroup (p : Place) (number start : Nat) : Place :=
  { p with caught := (number, start, p.pos) :: p.caught }

@[simp] theorem skip_ahead (p : Place) (n : Nat) : (p.skip n).ahead = p.ahead.drop n := rfl

@[simp] theorem skip_zero (p : Place) : p.skip 0 = p := by
  simp [skip]

theorem skip_skip (p : Place) (m n : Nat) : (p.skip m).skip n = p.skip (m + n) := by
  have hbehind : ((p.ahead.drop m).take n).reverse ++ ((p.ahead.take m).reverse ++ p.behind) =
      (p.ahead.take (m + n)).reverse ++ p.behind := by
    rw [List.take_add, List.reverse_append, List.append_assoc]
  simp only [skip, hbehind, List.drop_drop, Nat.add_assoc]

end Place

theorem Spot.place_advance {s : Spot} {c : CodePoint} {r : Text} (hs : s.ahead = c :: r) :
    s.advance.place = s.place.skip 1 := by
  simp [Spot.advance, Spot.place, Place.skip, hs]

/-! ## Continuations -/

/-- What the continuation comes to depends on the place alone. -/
def Ends (k : Continuation) (K : Place → Option Place) : Prop :=
  ∀ s, (k s).toOption.map Spot.place = K s.place

section Outcomes

variable {k : Continuation} {K : Place → Option Place}

@[simp] theorem toOption_tell (place : Nat) (x : Outcome) :
    (tell place x).toOption = x.toOption := by
  cases x <;> rfl

theorem toOption_orTry (x : Outcome) (y : Unit → Outcome) :
    (orTry x y).toOption = x.toOption.or (y ()).toOption := by
  cases x <;> rfl

theorem map_or {α β : Type} (f : α → β) (x y : Option α) :
    (x.or y).map f = (x.map f).or (y.map f) := by
  cases x <;> rfl

theorem firstOf_place (hk : Ends k K) (told : Nat) (spots : List Spot) :
    (firstOf k told spots).toOption.map Spot.place = (spots.map Spot.place).findSome? K := by
  induction spots with
  | nil => rfl
  | cons s spots ih =>
    rw [firstOf, List.map_cons, List.findSome?_cons, ← hk s]
    cases k s with
    | ok r => rfl
    | error place => exact ih

theorem toOption_of_not_isOk {x : Outcome} (h : x.isOk = false) : x.toOption = none := by
  cases x with
  | ok r => exact absurd h (by simp)
  | error place => rfl

end Outcomes

theorem findSome?_flatMap {α β γ : Type} (f : α → List β) (g : β → Option γ) (l : List α) :
    (l.flatMap f).findSome? g = l.findSome? fun a => (f a).findSome? g := by
  induction l with
  | nil => rfl
  | cons a l ih =>
    rw [List.flatMap_cons, List.findSome?_append, ih, List.findSome?_cons]
    cases (f a).findSome? g <;> rfl

namespace Node

/-- The ways of the node, in the order in which a run tries them. -/
def Goes (o : Options) (n : Node) (ways : Place → List Place) : Prop :=
  ∀ k K, Ends k K → Ends (fun s => n.run o s k) fun p => (ways p).findSome? K

/-- The ways of a node that catches nothing, by the lengths of what they pass. -/
def Strides (o : Options) (n : Node) (lengths : Text → List Nat) : Prop :=
  Goes o n fun p => (lengths p.ahead).map p.skip

variable {o : Options} {a b : Node} {f g : Place → List Place}

/-! ## Nodes in general -/

theorem Goes.seq (ha : Goes o a f) (hb : Goes o b g) :
    Goes o (.seq a b) fun p => (f p).flatMap g := by
  intro k K hk s
  exact (ha _ _ (hb k K hk) s).trans (findSome?_flatMap g K (f s.place)).symm

theorem Goes.group (h : Goes o a f) (number : Nat) :
    Goes o (.group number a) fun p => (f p).map (·.catchGroup number p.pos) := by
  intro k K hk s
  have hcaught : Ends (fun s' => k (s'.catchGroup number s.pos))
      (K ∘ (·.catchGroup number s.pos)) := fun s' => hk _
  exact (h _ _ hcaught s).trans List.findSome?_map.symm

theorem Goes.scoped (h : Goes o a f) : Goes o (.scoped [] [] a) f := by
  intro k K hk s
  show ((a.run (o.adjust [] []) s k).toOption.map Spot.place = _)
  rw [adjust_nil]
  exact h k K hk s

theorem toOption_unless_blocked (n : Node) (s : Spot) (place : Nat) (k : Continuation) :
    (if n.blocked o s then .error place else n.run o s.enter k : Outcome).toOption =
      (n.run o s.enter k).toOption := by
  have hok := isOk_unless_blocked (o := o) n s place k
  cases hblocked : n.blocked o s with
  | false => rfl
  | true =>
    rw [hblocked, if_pos rfl, isOk_error] at hok
    rw [if_pos rfl, toOption_of_not_isOk hok.symm]
    rfl

theorem Goes.alt (ha : Goes o a f) (hb : Goes o b g) : Goes o (.alt a b) fun p => f p ++ g p := by
  intro k K hk s
  have hfirst := ha k K hk s.enter
  simp only [← toOption_unless_blocked a s s.entered k] at hfirst
  refine Eq.trans ?_ List.findSome?_append.symm
  simp only [run]
  rw [show s.place = s.enter.place from rfl, ← hfirst]
  cases (if a.blocked o s then .error s.entered else a.run o s.enter k : Outcome) with
  | ok r => rfl
  | error place =>
    show ((if b.isAlt then _ else _ : Outcome).toOption.map Spot.place = _)
    split
    · exact hb k K hk { s with entered := place }
    · rw [toOption_unless_blocked]
      exact hb k K hk s.enter

/-- An optional node is tried once, and then passed over. -/
theorem Goes.optional (h : Goes o a f) :
    Goes o (.loop .greedy 0 (some 1) a) fun p => f p ++ [p] := by
  intro k K hk s
  show ((orTry
    (a.run o s.enter (greedyLoop (a.run o) 0 (some 1) k (0 + s.ahead.length + 1) 1 (some s.pos)))
    fun _ => tell s.pos (k s.enter)).toOption.map Spot.place = _)
  have hagain : Ends (greedyLoop (a.run o) 0 (some 1) k (0 + s.ahead.length + 1) 1 (some s.pos))
      K := by
    intro s'
    show ((tell s'.pos (k s')).toOption.map Spot.place = _)
    rw [toOption_tell]
    exact hk s'
  rw [toOption_orTry, toOption_tell, map_or, h _ K hagain s.enter, hk s.enter]
  refine Eq.trans ?_ List.findSome?_append.symm
  rw [List.findSome?_singleton]
  rfl

/-- The ways of a node lead behind the texts of the language that it matches. -/
theorem Goes.exists_length_iff {L : Language CodePoint} (h : Goes o a f) (hm : Matches o a L)
    (p : Place) (m : Nat) :
    (∃ w ∈ f p, w.ahead.length = m) ↔ ∃ v r, p.ahead = v ++ r ∧ v ∈ L ∧ r.length = m := by
  -- a continuation that waits for a length of the rest hears from both sides
  let k : Continuation := fun s => if s.ahead.length = m then .ok s else .error 0
  let K : Language CodePoint := {t | t.length = m}
  have hends : Ends k fun p => if p.ahead.length = m then some p else none := by
    intro s
    show (if s.ahead.length = m then Except.ok s else .error 0 : Outcome).toOption.map Spot.place =
      if s.ahead.length = m then some s.place else none
    split <;> rfl
  have htakes : Takes k K := by
    intro s
    show (if s.ahead.length = m then Except.ok s else .error 0 : Outcome).isOk = true ↔
      s.ahead.length = m
    split <;> simp_all
  let s : Spot :=
    { pos := p.pos, behind := p.behind, ahead := p.ahead, caught := p.caught, entered := 0 }
  have hok : (a.run o s k).isOk = true ↔ ∃ w ∈ f p, w.ahead.length = m := by
    have hisOk : (a.run o s k).isOk = ((a.run o s k).toOption.map Spot.place).isSome := by
      cases a.run o s k <;> rfl
    rw [hisOk, h k _ hends s, List.findSome?_isSome_iff]
    refine exists_congr fun w => and_congr_right fun _ => ?_
    split <;> simp_all
  rw [← hok, hm k K htakes s, Language.mem_mul]
  constructor
  · rintro ⟨v, hv, r, hr, heq⟩
    exact ⟨v, r, heq.symm, hv, hr⟩
  · rintro ⟨v, r, heq, hv, hr⟩
    exact ⟨v, hv, r, hr, heq.symm⟩

/-! ## Nodes that catch nothing -/

def thenLengths (f g : Text → List Nat) (t : Text) : List Nat :=
  (f t).flatMap fun n => (g (t.drop n)).map (n + ·)

/-- The numbers from `most` down to `lo`. -/
def down (lo most : Nat) : List Nat := (List.range' lo (most + 1 - lo)).reverse

theorem mem_down {lo most n : Nat} : n ∈ down lo most ↔ lo ≤ n ∧ n ≤ most := by
  rw [down, List.mem_reverse, List.mem_range'_1]
  omega

theorem pairwise_down (lo most : Nat) : (down lo most).Pairwise (· > ·) := by
  rw [down, List.pairwise_reverse]
  exact List.pairwise_lt_range' 1

theorem Strides.seq {f g : Text → List Nat} (ha : Strides o a f) (hb : Strides o b g) :
    Strides o (.seq a b) (thenLengths f g) := by
  have hways : (fun p : Place => (thenLengths f g p.ahead).map p.skip) =
      fun p => ((f p.ahead).map p.skip).flatMap fun q => (g q.ahead).map q.skip := by
    funext p
    rw [thenLengths, List.map_flatMap, List.flatMap_map]
    refine List.flatMap_congr fun n _ => ?_
    rw [List.map_map]
    exact List.map_congr_left fun m _ => (p.skip_skip n m).symm
  rw [Strides, hways]
  exact Goes.seq ha hb

theorem Strides.optional {f : Text → List Nat} (h : Strides o a f) :
    Strides o (.loop .greedy 0 (some 1) a) fun t => f t ++ [0] := by
  have hways : (fun p : Place => (f p.ahead ++ [0]).map p.skip) = fun p => (f p.ahead).map p.skip ++
      [p] := by
    funext p
    simp
  rw [Strides, hways]
  exact Goes.optional h

theorem strides_atom (o : Options) (a : Atom) :
    Strides o (.atom a) fun t => if t.head?.any (fun c => a.accepts o c) then [1] else [] := by
  intro k K hk s
  simp only [run]
  change _ = List.findSome? K (List.map s.place.skip (if s.ahead.head?.any _ then [1] else []))
  cases hs : s.ahead with
  | nil => rfl
  | cons c r =>
    rw [List.head?_cons, Option.any_some]
    cases hc : a.accepts o c with
    | false => simp [hc, Except.toOption]
    | true =>
      simp only [hc, if_true, List.map_cons, List.map_nil, List.findSome?_singleton]
      rw [hk s.advance, Spot.place_advance hs]

/-- How far a run of accepted code points goes, up to a bound. -/
def runLength (o : Options) (a : Atom) (hi : Option Nat) (t : Text) : Nat :=
  let all := (t.takeWhile fun c => a.accepts o c).length
  match hi with
  | none => all
  | some most => min most all

theorem map_place_reach (o : Options) (a : Atom) (most : Nat) (s : Spot) :
    (Spot.reach o a most s).map Spot.place =
      (List.range (runLength o a (some most) s.ahead + 1)).map s.place.skip := by
  induction most generalizing s with
  | zero => simp [Spot.reach, runLength]
  | succ most ih =>
    cases hs : s.ahead with
    | nil => simp [Spot.reach, runLength, hs]
    | cons c r =>
      cases hc : a.accepts o c with
      | false => simp [Spot.reach, runLength, hs, hc]
      | true =>
        have hnext : s.advance.ahead = r := by rw [Spot.advance, hs]
        have hrun : runLength o a (some (most + 1)) (c :: r) = runLength o a (some most) r + 1 := by
          simp [runLength, hc]
        rw [reach_step hs hc, List.map_cons, ih, hnext, hrun, Spot.place_advance hs,
          List.range_succ_eq_map (n := runLength o a (some most) r + 1), List.map_cons,
          List.map_map, Place.skip_zero]
        refine congrArg _ (List.map_congr_left fun n _ => ?_)
        rw [Place.skip_skip, Nat.add_comm]
        rfl

theorem firstOf_reach {k : Continuation} {K : Place → Option Place} (hk : Ends k K) (a : Atom)
    (lo most told : Nat) (s : Spot) :
    (firstOf k told ((Spot.reach o a most s).drop lo).reverse).toOption.map Spot.place =
      ((down lo (runLength o a (some most) s.ahead)).map s.place.skip).findSome? K := by
  rw [firstOf_place hk, List.map_reverse, List.map_drop, map_place_reach, ← List.map_drop,
    ← List.map_reverse, List.range_eq_range', List.drop_range', Nat.mul_one, Nat.zero_add, down]

/-- A greedy repetition of an atom tries the longest run first and gives it back one by one. -/
theorem strides_repeatAtom (o : Options) (a : Atom) (lo : Nat) (hi : Option Nat) :
    Strides o (.repeatAtom .greedy lo hi a) fun t => down lo (runLength o a hi t) := by
  intro k K hk s
  have hle : (s.ahead.takeWhile fun c => a.accepts o c).length ≤ s.ahead.length :=
    (List.takeWhile_prefix _).length_le
  cases hi with
  | none =>
    have hrun : runLength o a (some s.ahead.length) s.ahead = runLength o a none s.ahead := by
      simpa [runLength] using hle
    have hfirst := firstOf_reach (o := o) hk a lo s.ahead.length s.pos s.enter
    rw [show s.enter.ahead = s.ahead from rfl, hrun] at hfirst
    exact hfirst
  | some most =>
    have hrun : runLength o a (some (min most s.ahead.length)) s.ahead =
        runLength o a (some most) s.ahead := by
      simp only [runLength]
      omega
    have hfirst := firstOf_reach (o := o) hk a lo (min most s.ahead.length) s.pos s.enter
    rw [show s.enter.ahead = s.ahead from rfl, hrun] at hfirst
    exact hfirst

/-! ## Groups -/

def caughtWays (number : Nat) (lengths : Text → List Nat) (p : Place) : List Place :=
  (lengths p.ahead).map fun n => (p.skip n).catchGroup number p.pos

theorem Strides.group {f : Text → List Nat} (h : Strides o a f) (number : Nat) :
    Goes o (.group number a) (caughtWays number f) := by
  have hways : caughtWays number f = fun p =>
      ((f p.ahead).map p.skip).map (·.catchGroup number p.pos) := by
    funext p
    rw [caughtWays, List.map_map]
    rfl
  rw [hways]
  exact Goes.group h number

def Within (lengths : Text → List Nat) : Prop := ∀ t, ∀ n ∈ lengths t, n ≤ t.length

theorem Within.seq {f g : Text → List Nat} (hf : Within f) (hg : Within g) :
    Within (thenLengths f g) := by
  intro t n hn
  obtain ⟨i, hi, hn⟩ := List.mem_flatMap.mp hn
  obtain ⟨j, hj, rfl⟩ := List.mem_map.mp hn
  have hi := hf t i hi
  have hj := hg _ j hj
  rw [List.length_drop] at hj
  omega

theorem Within.optional {f : Text → List Nat} (hf : Within f) : Within fun t => f t ++ [0] := by
  intro t n hn
  rcases List.mem_append.mp hn with hn | hn
  · exact hf t n hn
  · rw [List.mem_singleton.mp hn]
    exact Nat.zero_le _

theorem runLength_le (o : Options) (a : Atom) (hi : Option Nat) (t : Text) :
    runLength o a hi t ≤ t.length := by
  have hle : (t.takeWhile fun c => a.accepts o c).length ≤ t.length :=
    (List.takeWhile_prefix _).length_le
  cases hi with
  | none => exact hle
  | some most => exact Nat.le_trans (Nat.min_le_right _ _) hle

theorem within_repeatAtom (o : Options) (a : Atom) (lo : Nat) (hi : Option Nat) :
    Within fun t => down lo (runLength o a hi t) :=
  fun t _ hn => Nat.le_trans (mem_down.mp hn).2 (runLength_le o a hi t)

/-- The lengths that a group tries are those of the texts that its node matches. -/
theorem mem_lengths_iff {f : Text → List Nat} {L : Language CodePoint} {number : Nat}
    (h : Goes o a (caughtWays number f)) (hm : Matches o a L) (hf : Within f) {t : Text} {n : Nat} :
    n ∈ f t ↔ n ≤ t.length ∧ t.take n ∈ L := by
  have hiff :=
    h.exists_length_iff hm { pos := 0, behind := [], ahead := t, caught := [] } (t.length - n)
  constructor
  · intro hn
    have hle := hf t n hn
    obtain ⟨v, r, ht, hv, hr⟩ := hiff.mp ⟨_, List.mem_map.mpr ⟨n, hn, rfl⟩, List.length_drop⟩
    have ht : t = v ++ r := ht
    have hlen : v.length = n := by
      have := congrArg List.length ht
      rw [List.length_append] at this
      omega
    exact ⟨hle, by rwa [ht, ← hlen, List.take_left]⟩
  · rintro ⟨hle, hv⟩
    obtain ⟨w, hw, hlen⟩ :=
      hiff.mpr ⟨t.take n, t.drop n, (List.take_append_drop n t).symm, hv, List.length_drop⟩
    obtain ⟨m, hm, rfl⟩ := List.mem_map.mp hw
    have hlen : (t.drop m).length = t.length - n := hlen
    have := hf t m hm
    rw [List.length_drop] at hlen
    rwa [show n = m by omega]

end Node
end Regex
end StepAtlas
