import Mathlib.Data.List.Infix
import StepAtlas.Glob.Pattern

/-
What a pattern without braces fits.  Each piece covers some texts: a star any text, and the other
pieces one code point.  A pattern fits a text that can be cut into parts so that each piece covers
its part.

Matching goes through the pieces with the list of all rests that may be left.  Each of these is an
end of the one before it.  This is what makes it enough to look at the longest rest where a star
stands.
-/

namespace StepAtlas
namespace Glob

def Piece.Covers : Piece → Text → Prop
  | .star, _ => True
  | .any, t => ∃ p, t = [p]
  | .one p, t => t = [p]
  | .set s, t => ∃ p, t = [p] ∧ s.contains p = true

/-- Pieces fit a text if it falls into parts that they cover one by one. -/
inductive Fits : List Piece → Text → Prop where
  | nil : Fits [] []
  | cons {piece : Piece} {ps : List Piece} {s t : Text} : piece.Covers s → Fits ps t →
      Fits (piece :: ps) (s ++ t)

theorem fits_nil_iff {t : Text} : Fits [] t ↔ t = [] := by
  constructor
  · rintro ⟨⟩
    rfl
  · rintro rfl
    exact .nil

theorem fits_cons_iff {piece : Piece} {ps : List Piece} {t : Text} :
    Fits (piece :: ps) t ↔ ∃ s r, t = s ++ r ∧ piece.Covers s ∧ Fits ps r := by
  constructor
  · rintro ⟨⟩
    exact ⟨_, _, rfl, ‹_›, ‹_›⟩
  · rintro ⟨s, r, rfl, hs, hr⟩
    exact .cons hs hr

theorem fits_append_iff {ps qs : List Piece} {t : Text} :
    Fits (ps ++ qs) t ↔ ∃ s r, t = s ++ r ∧ Fits ps s ∧ Fits qs r := by
  induction ps generalizing t with
  | nil => simp [fits_nil_iff]
  | cons piece ps ih =>
    rw [List.cons_append, fits_cons_iff]
    constructor
    · rintro ⟨s, r, rfl, hs, hr⟩
      obtain ⟨s', r', rfl, hs', hr'⟩ := ih.mp hr
      exact ⟨s ++ s', r', by rw [List.append_assoc], .cons hs hs', hr'⟩
    · rintro ⟨s, r, rfl, hs, hr⟩
      obtain ⟨s', s'', rfl, hs', hs''⟩ := fits_cons_iff.mp hs
      exact ⟨s', s'' ++ r, by rw [List.append_assoc], hs', ih.mpr ⟨s'', r, rfl, hs'', hr⟩⟩

/-- Code points that stand for themselves fit their text only. -/
theorem fits_ones_iff {s t : Text} : Fits (s.map .one) t ↔ t = s := by
  induction s generalizing t with
  | nil => exact fits_nil_iff
  | cons p s ih =>
    rw [List.map_cons, fits_cons_iff]
    constructor
    · rintro ⟨-, r, rfl, rfl, hr⟩
      rw [ih.mp hr]
      rfl
    · rintro rfl
      exact ⟨[p], s, rfl, rfl, ih.mpr rfl⟩

theorem fits_star_star (t : Text) : Fits [.star, .star] t := by
  have h : Fits [.star, .star] (t ++ ([] ++ [])) := .cons trivial (.cons trivial .nil)
  simpa using h

/-! ## The rests of a text -/

theorem mem_ends {r t : Text} : r ∈ ends t ↔ r <:+ t := by
  induction t with
  | nil => simp [ends]
  | cons p t ih => rw [ends, List.mem_cons, ih, List.suffix_cons_iff]

theorem ends_pairwise (t : Text) : (ends t).Pairwise fun r r' => r' <:+ r := by
  induction t with
  | nil => simp [ends]
  | cons p t ih =>
    rw [ends, List.pairwise_cons]
    exact ⟨fun r hr => (mem_ends.mp hr).trans (List.suffix_cons p t), ih⟩

def restBehind (test : CodePoint → Bool) : Text → Option Text
  | p :: r => if test p then some r else none
  | [] => none

theorem restBehind_eq_some {test : CodePoint → Bool} {t r : Text} :
    restBehind test t = some r ↔ ∃ p, test p = true ∧ t = p :: r := by
  cases t with
  | nil => simp [restBehind]
  | cons p t =>
    rw [restBehind]
    by_cases hp : test p = true
    · rw [if_pos hp]
      constructor
      · rintro ⟨⟩
        exact ⟨p, hp, rfl⟩
      · rintro ⟨q, -, hq⟩
        cases hq
        rfl
    · rw [if_neg hp]
      constructor
      · rintro ⟨⟩
      · rintro ⟨q, hq, he⟩
        cases he
        exact absurd hq hp

def Piece.test? : Piece → Option (CodePoint → Bool)
  | .star => none
  | .any => some fun _ => true
  | .one p => some (· = p)
  | .set s => some s.contains

theorem Piece.leave_of_test? {piece : Piece} {test : CodePoint → Bool} (h : piece.test? = some test)
    (rests : List Text) : piece.leave rests = rests.filterMap (restBehind test) := by
  cases piece <;> cases h <;> rfl

theorem Piece.covers_of_test? {piece : Piece} {test : CodePoint → Bool}
    (h : piece.test? = some test) {t : Text} :
    piece.Covers t ↔ ∃ p, test p = true ∧ t = [p] := by
  cases piece <;> cases h <;> simp [Covers, and_comm]

/-- Each rest is an end of the ones before it. -/
theorem Piece.leave_pairwise (piece : Piece) {rests : List Text}
    (h : rests.Pairwise fun r r' => r' <:+ r) :
    (piece.leave rests).Pairwise fun r r' => r' <:+ r := by
  cases ht : piece.test? with
  | none =>
    cases piece <;> cases ht
    cases rests with
    | nil => exact .nil
    | cons longest rests => exact ends_pairwise longest
  | some test =>
    rw [leave_of_test? ht]
    refine h.filterMap _ ?_
    intro t t' hsuffix r hr r' hr'
    obtain ⟨p, -, rfl⟩ := restBehind_eq_some.mp hr
    obtain ⟨q, -, rfl⟩ := restBehind_eq_some.mp hr'
    rcases List.suffix_cons_iff.mp hsuffix with heq | hsuffix
    · cases heq
      exact List.suffix_rfl
    · exact (List.suffix_cons q r').trans hsuffix

theorem Piece.mem_leave (piece : Piece) {rests : List Text}
    (h : rests.Pairwise fun r r' => r' <:+ r) {r : Text} :
    r ∈ piece.leave rests ↔ ∃ t ∈ rests, ∃ s, t = s ++ r ∧ piece.Covers s := by
  cases ht : piece.test? with
  | none =>
    cases piece <;> cases ht
    cases rests with
    | nil => simp [leave]
    | cons longest rests =>
      refine mem_ends.trans ⟨?_, ?_⟩
      · rintro ⟨s, hs⟩
        exact ⟨longest, List.mem_cons_self, s, hs.symm, trivial⟩
      · rintro ⟨t, ht, s, rfl, -⟩
        -- An end of another rest is one of the longest.
        have hr : r <:+ s ++ r := List.suffix_append s r
        rcases List.mem_cons.mp ht with rfl | ht
        · exact hr
        · exact hr.trans (List.rel_of_pairwise_cons h ht)
  | some test =>
    rw [leave_of_test? ht, List.mem_filterMap]
    refine exists_congr fun t => and_congr_right fun _ => ?_
    rw [restBehind_eq_some]
    constructor
    · rintro ⟨p, hp, rfl⟩
      exact ⟨[p], rfl, (covers_of_test? ht).mpr ⟨p, hp, rfl⟩⟩
    · rintro ⟨s, rfl, hs⟩
      obtain ⟨p, hp, rfl⟩ := (covers_of_test? ht).mp hs
      exact ⟨p, hp, rfl⟩

theorem nil_mem_foldl_leave (ps : List Piece) {rests : List Text}
    (h : rests.Pairwise fun r r' => r' <:+ r) :
    [] ∈ ps.foldl (fun rests piece => piece.leave rests) rests ↔ ∃ t ∈ rests, Fits ps t := by
  induction ps generalizing rests with
  | nil => simp [fits_nil_iff]
  | cons piece ps ih =>
    rw [List.foldl_cons, ih (piece.leave_pairwise h)]
    constructor
    · rintro ⟨r, hr, hfits⟩
      obtain ⟨t, ht, s, rfl, hs⟩ := (piece.mem_leave h).mp hr
      exact ⟨s ++ r, ht, .cons hs hfits⟩
    · rintro ⟨t, ht, hfits⟩
      obtain ⟨s, r, rfl, hs, hr⟩ := fits_cons_iff.mp hfits
      exact ⟨r, (piece.mem_leave h).mpr ⟨s ++ r, ht, s, rfl, hs⟩, hr⟩

/-- Matching a pattern finds out whether its pieces fit. -/
theorem fits_iff {pattern t : Text} : fits pattern t = true ↔ Fits (pieces pattern) t := by
  rw [fits, List.contains_iff_mem, nil_mem_foldl_leave _ (List.pairwise_singleton _ t)]
  simp

/-! ## The pieces of a pattern -/

def isPlain (p : CodePoint) : Bool := p ∉ ([.scalar '*', .scalar '?', .scalar '['] : Text)

theorem pieces_star (t : Text) : pieces (.scalar '*' :: t) = .star :: pieces t := rfl

theorem pieces_append {s : Text} (h : ∀ p ∈ s, isPlain p = true) (t : Text) :
    pieces (s ++ t) = s.map .one ++ pieces t := by
  induction s with
  | nil => rfl
  | cons p s ih =>
    obtain ⟨hp, hs⟩ := List.forall_mem_cons.mp h
    have hne : p ≠ .scalar '*' ∧ p ≠ .scalar '?' ∧ p ≠ .scalar '[' := by simpa [isPlain] using hp
    rw [List.cons_append, pieces, piecesFrom, if_neg hne.1, if_neg hne.2.1, if_neg hne.2.2]
    exact congrArg _ (ih hs)

end Glob
end StepAtlas
