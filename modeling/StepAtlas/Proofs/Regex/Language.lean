import Mathlib.Computability.Language
import StepAtlas.Regex.Matcher

/-
What a backtracking run finds, said without the run.  A node matches a language, and running it in
front of a continuation succeeds exactly where a text of that language lies ahead with a text behind
it from which the continuation succeeds.  The order in which ways are tried plays no part in that,
nor does what the groups have caught or where something was last entered.
-/

namespace StepAtlas

theorem CodePoint.toNat_injective {p q : CodePoint} (h : p.toNat = q.toNat) : p = q := by
  have hvalid : ∀ (c : Char) (k : Fin 2048), c.toNat ≠ 0xD800 + k.val := by
    intro c k
    have hc : c.toNat < 0xD800 ∨ 0xDFFF < c.toNat ∧ c.toNat < 0x110000 := c.valid
    have hk := k.isLt
    omega
  cases p with
  | scalar c =>
    cases q with
    | scalar d => rw [Char.toNat_inj.mp h]
    | surrogate k => exact absurd h (hvalid c k)
  | surrogate k =>
    cases q with
    | scalar c => exact absurd h.symm (hvalid c k)
    | surrogate j => rw [Fin.ext (Nat.add_left_cancel h)]

namespace Regex

/-! ## Atoms -/

namespace Atom

variable {o : Options}

theorem accepts_literal (ho : o.ignoreCase = false) (p q : CodePoint) :
    (Atom.literal q.toNat).accepts o p = true ↔ p = q := by
  simp only [accepts, literalAccepts, ho, Bool.not_false, if_true, beq_iff_eq]
  exact ⟨CodePoint.toNat_injective, fun h => h ▸ rfl⟩

theorem accepts_notLiteral (ho : o.ignoreCase = false) (p q : CodePoint) :
    (Atom.notLiteral q.toNat).accepts o p = true ↔ p ≠ q := by
  rw [ne_eq, ← accepts_literal ho p q]
  simp [accepts]

theorem accepts_any (ho : o.dotAll = false) (p : CodePoint) :
    Atom.any.accepts o p = true ↔ p ≠ .scalar '\n' := by
  simp [accepts, ho]

theorem accepts_category (ho : o.ignoreCase = false) (c : Category) (negated : Bool)
    (p : CodePoint) :
    (Atom.set false [.category c negated]).accepts o p = (c.holds o.ascii p != negated) := by
  simp [accepts, ho, SetItem.holds]

end Atom

/-! ## Languages -/

def single (p : CodePoint → Prop) : Language CodePoint := {t | ∃ c, p c ∧ t = [c]}

/-- The texts of code points that pass a test, at least `lo` and at most `hi` of them. -/
def row (p : CodePoint → Prop) (lo : Nat) (hi : Option Nat) : Language CodePoint :=
  {t | (∀ c ∈ t, p c) ∧ lo ≤ t.length ∧ ∀ m ∈ hi, t.length ≤ m}

section Languages

variable {p : CodePoint → Prop} {lo : Nat} {hi : Option Nat} {t : Text} {K : Language CodePoint}

theorem mem_single : t ∈ single p ↔ ∃ c, p c ∧ t = [c] := Iff.rfl

theorem mem_row : t ∈ row p lo hi ↔ (∀ c ∈ t, p c) ∧ lo ≤ t.length ∧ ∀ m ∈ hi, t.length ≤ m :=
  Iff.rfl

theorem mem_single_mul : t ∈ single p * K ↔ ∃ c r, t = c :: r ∧ p c ∧ r ∈ K := by
  rw [Language.mem_mul]
  constructor
  · rintro ⟨-, ⟨c, hc, rfl⟩, r, hr, rfl⟩
    exact ⟨c, r, rfl, hc, hr⟩
  · rintro ⟨c, r, rfl, hc, hr⟩
    exact ⟨[c], ⟨c, hc, rfl⟩, r, hr, rfl⟩

theorem row_zero : row p lo (some 0) = if lo = 0 then 1 else 0 := by
  ext t
  rw [mem_row]
  split
  · rw [Language.mem_one]
    constructor
    · rintro ⟨-, -, h⟩
      exact List.eq_nil_of_length_eq_zero (Nat.le_zero.mp (h 0 rfl))
    · rintro rfl
      exact ⟨nofun, by omega, by simp⟩
  · refine iff_of_false ?_ (Language.notMem_zero t)
    rintro ⟨-, hlo, h⟩
    have := h 0 rfl
    omega

theorem row_succ (most : Nat) :
    row p lo (some (most + 1)) = (if lo = 0 then 1 else 0) + single p *
      row p (lo - 1) (some most) := by
  ext t
  rw [Language.mem_add, mem_single_mul, mem_row]
  cases t with
  | nil =>
    by_cases hlo : lo = 0
    · simp [hlo]
    · simp [hlo, Language.notMem_zero]
  | cons c r =>
    have hnil : c :: r ∉ (if lo = 0 then 1 else 0 : Language CodePoint) := by
      split
      · exact fun h => List.cons_ne_nil c r ((Language.mem_one _).mp h)
      · exact Language.notMem_zero _
    constructor
    · rintro ⟨hall, hlo, hhi⟩
      have hmost := hhi _ rfl
      rw [List.length_cons] at hlo hmost
      refine .inr ⟨c, r, rfl, hall c List.mem_cons_self, fun d hd =>
        hall d (List.mem_cons_of_mem c hd), by omega, ?_⟩
      simpa using hmost
    · rintro (h | ⟨c', r', he, hc, hr, hlo, hhi⟩)
      · exact absurd h hnil
      · obtain ⟨rfl, rfl⟩ := List.cons.inj he
        have hmost := hhi _ rfl
        refine ⟨List.forall_mem_cons.mpr ⟨hc, hr⟩, by rw [List.length_cons]; omega, ?_⟩
        simpa using hmost

/-- No row is longer than the text it is cut from. -/
theorem mem_row_mul : t ∈ row p lo hi * K ↔
    t ∈ row p lo (some (match hi with
      | some most => min most t.length
      | none => t.length)) * K := by
  rw [Language.mem_mul, Language.mem_mul]
  refine exists_congr fun x => ?_
  constructor
  · rintro ⟨⟨hall, hlo, hhi⟩, y, hy, rfl⟩
    refine ⟨⟨hall, hlo, ?_⟩, y, hy, rfl⟩
    cases hi with
    | none => simp
    | some most =>
      have hmost := hhi most rfl
      simpa using hmost
  · rintro ⟨⟨hall, hlo, hhi⟩, y, hy, rfl⟩
    refine ⟨⟨hall, hlo, ?_⟩, y, hy, rfl⟩
    cases hi with
    | none => exact nofun
    | some most =>
      intro m hm
      rw [← Option.mem_some_iff.mp hm]
      exact Nat.le_trans (hhi _ rfl) (Nat.min_le_left _ _)

end Languages

/-! ## Single runs -/

theorem reach_stay {o : Options} {a : Atom} {s : Spot}
    (h : s.ahead.head?.any (fun p => a.accepts o p) = false) (most : Nat) :
    Spot.reach o a most s = [s] := by
  cases most with
  | zero => rfl
  | succ most =>
    rw [Spot.reach]
    cases hs : s.ahead with
    | nil => rfl
    | cons p r =>
      rw [hs, List.head?_cons, Option.any_some] at h
      simp only [h, Bool.false_eq_true, if_false]

theorem reach_step {o : Options} {a : Atom} {s : Spot} {p : CodePoint} {r : Text}
    (hs : s.ahead = p :: r) (hp : a.accepts o p = true) (most : Nat) :
    Spot.reach o a (most + 1) s = s :: Spot.reach o a most s.advance := by
  rw [Spot.reach, hs]
  simp only [hp, if_true]

theorem exists_drop_single {s : Spot} {lo : Nat} {K : Language CodePoint} :
    (∃ s' ∈ [s].drop lo, s'.ahead ∈ K) ↔ s.ahead ∈ (if lo = 0 then 1 else 0) * K := by
  cases lo with
  | zero => simp
  | succ lo => simp [Language.notMem_zero]

theorem exists_drop_cons {s : Spot} {spots : List Spot} {lo : Nat} {K : Language CodePoint} :
    (∃ s' ∈ (s :: spots).drop lo, s'.ahead ∈ K) ↔
      s.ahead ∈ (if lo = 0 then 1 else 0) * K ∨ ∃ s' ∈ spots.drop (lo - 1), s'.ahead ∈ K := by
  cases lo with
  | zero => simp
  | succ lo => simp [Language.notMem_zero]

/-- The spots that a repetition reaches are those behind a row of code points that the atom
accepts. -/
theorem exists_reach {o : Options} {a : Atom} {most lo : Nat} {s : Spot} {K : Language CodePoint} :
    (∃ s' ∈ (Spot.reach o a most s).drop lo, s'.ahead ∈ K) ↔
      s.ahead ∈ row (fun p => a.accepts o p = true) lo (some most) * K := by
  induction most generalizing s lo with
  | zero =>
    rw [row_zero]
    exact exists_drop_single
  | succ most ih =>
    rw [row_succ, add_mul, Language.mem_add, mul_assoc, mem_single_mul]
    cases hhead : s.ahead.head?.any (fun p => a.accepts o p) with
    | false =>
      rw [reach_stay hhead, exists_drop_single]
      refine (or_iff_left ?_).symm
      rintro ⟨c, r, hs, hc, -⟩
      rw [hs, List.head?_cons, Option.any_some, hc] at hhead
      exact absurd hhead (by decide)
    | true =>
      obtain ⟨p, hp, haccepts⟩ := Option.any_eq_true _ _ |>.mp hhead
      obtain ⟨r, hs⟩ := List.head?_eq_some_iff.mp hp
      have hnext : s.advance.ahead = r := by rw [Spot.advance, hs]
      rw [reach_step hs haccepts, exists_drop_cons, ih, hnext]
      refine or_congr_right ⟨fun h => ⟨p, r, hs, haccepts, h⟩, ?_⟩
      rintro ⟨c, r', hs', -, h⟩
      rw [hs] at hs'
      rw [(List.cons.inj hs').2]
      exact h

@[simp] theorem isOk_ok (s : Spot) : (.ok s : Outcome).isOk = true := rfl

@[simp] theorem isOk_error (place : Nat) : (.error place : Outcome).isOk = false := rfl

@[simp] theorem isOk_tell (place : Nat) (x : Outcome) : (tell place x).isOk = x.isOk := by
  cases x <;> rfl

theorem isOk_orTry (x : Outcome) (y : Unit → Outcome) :
    (orTry x y).isOk = true ↔ x.isOk = true ∨ (y ()).isOk = true := by
  cases x <;> simp [orTry]

theorem isOk_firstOf (k : Continuation) (told : Nat) (spots : List Spot) :
    (firstOf k told spots).isOk = true ↔ ∃ s ∈ spots, (k s).isOk = true := by
  induction spots with
  | nil => simp [firstOf]
  | cons s spots ih =>
    rw [firstOf]
    cases h : k s with
    | ok r => simp [h]
    | error place => simp [h, ih]

/-! ## Nodes -/

/-- The continuation succeeds exactly where a text of `K` lies ahead. -/
def Takes (k : Continuation) (K : Language CodePoint) : Prop := ∀ s, (k s).isOk = true ↔ s.ahead ∈ K

namespace Node

def Matches (o : Options) (n : Node) (L : Language CodePoint) : Prop :=
  ∀ k K, Takes k K → Takes (fun s => n.run o s k) (L * K)

variable {o : Options} {a b : Node} {L M : Language CodePoint}

theorem matches_atom (o : Options) (a : Atom) :
    Matches o (.atom a) (single fun p => a.accepts o p = true) := by
  intro k K hk s
  rw [mem_single_mul]
  simp only [run]
  cases hs : s.ahead with
  | nil => simp
  | cons p r =>
    have hnext : s.advance.ahead = r := by rw [Spot.advance, hs]
    cases hp : a.accepts o p with
    | false => simp [hp]
    | true => simp [hp, hk s.advance, hnext]

theorem matches_repeatAtom (o : Options) (a : Atom) (lo : Nat) (hi : Option Nat) :
    Matches o (.repeatAtom .greedy lo hi a) (row (fun p => a.accepts o p = true) lo hi) := by
  intro k K hk s
  show ((firstOf k s.pos ((Spot.reach o a _ s.enter).drop lo).reverse).isOk = true ↔ _)
  rw [isOk_firstOf, mem_row_mul]
  simp only [List.mem_reverse, hk _]
  exact exists_reach

theorem Matches.seq (ha : Matches o a L) (hb : Matches o b M) : Matches o (.seq a b) (L * M) := by
  intro k K hk
  rw [mul_assoc]
  exact ha _ _ (hb k K hk)

theorem Matches.group (h : Matches o a L) (number : Nat) : Matches o (.group number a) L := by
  intro k K hk s
  exact h (fun s' => k (s'.catchGroup number s.pos)) K (fun s' => hk _) s

theorem adjust_nil (o : Options) : o.adjust [] [] = o := by
  simp [Options.adjust]

theorem Matches.scoped (h : Matches o a L) : Matches o (.scoped [] [] a) L := by
  intro k K hk s
  show ((a.run (o.adjust [] []) s k).isOk = true ↔ _)
  rw [adjust_nil]
  exact h k K hk s

/-- An optional node is tried once, and then passed over. -/
theorem Matches.optional (h : Matches o a L) : Matches o (.loop .greedy 0 (some 1) a) (L + 1) := by
  intro k K hk s
  show ((orTry
    (a.run o s.enter (greedyLoop (a.run o) 0 (some 1) k (0 + s.ahead.length + 1) 1 (some s.pos)))
    fun _ => tell s.pos (k s.enter)).isOk = true ↔ _)
  have hagain : Takes (greedyLoop (a.run o) 0 (some 1) k (0 + s.ahead.length + 1) 1 (some s.pos))
      K := by
    intro s'
    show ((tell s'.pos (k s')).isOk = true ↔ _)
    rw [isOk_tell]
    exact hk s'
  rw [isOk_orTry, isOk_tell, add_mul, one_mul, Language.mem_add]
  exact or_congr (h _ K hagain s.enter) (hk s.enter)

/-- A node that is seen not to match does not match. -/
theorem isOk_run_of_firstAtom {n : Node} {x : Atom} (hn : n.firstAtom? = some x) {s : Spot}
    (hs : s.ahead.head?.any (fun p => x.accepts o p) = false) (k : Continuation) :
    (n.run o s k).isOk = false := by
  fun_induction firstAtom? n generalizing k with
  | case1 => exact absurd hn nofun
  | case2 => exact absurd hn nofun
  | case3 y =>
    rw [Option.some_inj.mp hn]
    unfold run
    cases hahead : s.ahead with
    | nil => rfl
    | cons p r =>
      rw [hahead, List.head?_cons, Option.any_some] at hs
      simp [hs]
  | case4 c d ih => exact ih hn _
  | case5 body ih =>
    show (body.run (o.adjust [] []) s k).isOk = false
    rw [adjust_nil]
    exact ih hn k
  | case6 => exact absurd hn nofun

theorem isOk_unless_blocked (n : Node) (s : Spot) (place : Nat) (k : Continuation) :
    (if n.blocked o s then .error place else n.run o s.enter k : Outcome).isOk =
      (n.run o s.enter k).isOk := by
  cases hblocked : n.blocked o s with
  | false => rfl
  | true =>
    unfold blocked at hblocked
    split at hblocked
    · exact absurd hblocked Bool.false_ne_true
    · rename_i x hx
      rw [Bool.and_eq_true, Bool.not_eq_true', Bool.not_eq_true'] at hblocked
      have hrun : (n.run o s.enter k).isOk = false :=
        isOk_run_of_firstAtom (s := s.enter) hx hblocked.2 k
      rw [if_pos rfl, isOk_error, hrun]

theorem Matches.alt (ha : Matches o a L) (hb : Matches o b M) : Matches o (.alt a b) (L + M) := by
  intro k K hk s
  rw [add_mul, Language.mem_add]
  simp only [run]
  have hfirst : (if a.blocked o s then .error s.entered else a.run o s.enter k : Outcome).isOk =
      true ↔
      s.ahead ∈ L * K := by
    rw [isOk_unless_blocked]
    exact ha k K hk s.enter
  cases htry : (if a.blocked o s then .error s.entered else a.run o s.enter k : Outcome) with
  | ok r =>
    rw [htry] at hfirst
    exact iff_of_true rfl (.inl (hfirst.mp rfl))
  | error place =>
    rw [htry] at hfirst
    rw [or_iff_right (mt hfirst.mpr Bool.false_ne_true)]
    show ((if b.isAlt then _ else _ : Outcome).isOk = true ↔ _)
    split
    · exact hb k K hk { s with entered := place }
    · rw [isOk_unless_blocked]
      exact hb k K hk s.enter

end Node
end Regex
end StepAtlas
