import Mathlib.Data.List.TakeWhile
import StepAtlas.Proofs.Pattern.Captures

/-
Which arguments an expression takes when there is a choice.  A placeholder other than a quoted or
bare word tries the texts that it stands for from the longest to the shortest, so that the first one
takes as much as the rest allows, then the second, and so on: of all ways to cut the text, the one
with the greatest lengths in lexicographic order is found.

That longer texts come first is clear for a row of code points.  It has to be shown where rows
follow each other: a minus sign is never a digit, and a point never follows a digit run that was cut
short.
-/

namespace StepAtlas
namespace Expression

open Regex Regex.Node

/-! ## Lengths in descending order -/

theorem pairwise_row (a : Atom) (lo : Nat) (hi : Option Nat) (t : Text) :
    (rowLengths a lo hi t).Pairwise (· > ·) :=
  pairwise_down lo _

theorem runLength_of_not {a : Atom} {t : Text}
    (h : t.head?.any (fun c => a.accepts options c) = false) (hi : Option Nat) :
    runLength options a hi t = 0 := by
  have htake : (t.takeWhile fun c => a.accepts options c) = [] := by
    cases t with
    | nil => rfl
    | cons c r =>
      rw [List.head?_cons, Option.any_some] at h
      rw [List.takeWhile_cons, h, if_neg Bool.false_ne_true]
  cases hi <;> simp [runLength, htake]

/-- Inside of a run stands a code point of the run. -/
theorem head_of_lt_runLength {a : Atom} {t : Text} {n : Nat} (hn : n < runLength options a none t) :
    ∃ c, (t.drop n).head? = some c ∧ a.accepts options c = true := by
  have hn : n < (t.takeWhile fun c => a.accepts options c).length := hn
  have haccepts := List.mem_takeWhile_imp (p := fun c => a.accepts options c) (List.getElem_mem hn)
  refine ⟨_, ?_, haccepts⟩
  rw [List.head?_drop]
  exact List.prefix_iff_getElem?.mp (List.takeWhile_prefix _) n hn

theorem not_accepts_digit {c : CodePoint} (hc : c ∉ asciiDigits) :
    (Atom.set false [.category .digit false]).accepts options c = false :=
  Bool.eq_false_iff.mpr (mt (accepts_digit c).mp hc)

theorem digitLengths_of_not {c : CodePoint} (hc : c ∉ asciiDigits) (r : Text) :
    digitLengths (c :: r) = [] := by
  have hrun : runLength options (.set false [.category .digit false]) none (c :: r) = 0 := by
    refine runLength_of_not ?_ none
    exact not_accepts_digit hc
  rw [digitLengths, rowLengths, hrun]
  rfl

theorem signLengths_eq (t : Text) :
    signLengths t = if t.head? = some (.scalar '-') then [1, 0] else [0] := by
  have haccepts : ∀ c, (Atom.literal '-'.toNat).accepts options c = true ↔ c = .scalar '-' :=
    fun c => Atom.accepts_literal rfl c (.scalar '-')
  split
  · rename_i hhead
    obtain ⟨r, rfl⟩ := List.head?_eq_some_iff.mp hhead
    have hrun : runLength options (.literal '-'.toNat) (some 1) (.scalar '-' :: r) = 1 := by
      rw [runLength, List.takeWhile_cons, if_pos ((haccepts _).mpr rfl), List.length_cons]
      omega
    rw [signLengths, rowLengths, hrun]
    rfl
  · rename_i hhead
    have hrun : runLength options (.literal '-'.toNat) (some 1) t = 0 := by
      refine runLength_of_not ?_ _
      cases t with
      | nil => rfl
      | cons c r => exact Bool.eq_false_iff.mpr fun hc => hhead (congrArg some ((haccepts c).mp hc))
    rw [signLengths, rowLengths, hrun]
    rfl

theorem pairwise_add {l : List Nat} (h : l.Pairwise (· > ·)) (n : Nat) :
    (l.map (n + ·)).Pairwise (· > ·) :=
  List.pairwise_map.mpr (h.imp fun hab => Nat.add_lt_add_left hab n)

/-- A sign that is there is taken first, and then it cannot be passed over. -/
theorem pairwise_signed {f : Text → List Nat} (hf : ∀ t, (f t).Pairwise (· > ·))
    (hsign : ∀ r, f (.scalar '-' :: r) = []) (t : Text) :
    (thenLengths signLengths f t).Pairwise (· > ·) := by
  rw [thenLengths, signLengths_eq]
  split
  · rename_i hhead
    obtain ⟨r, rfl⟩ := List.head?_eq_some_iff.mp hhead
    rw [List.flatMap_cons, List.flatMap_cons, List.drop_zero, hsign]
    simpa using pairwise_add (hf r) 1
  · rw [List.flatMap_singleton]
    exact pairwise_add (hf _) 0

theorem pairwise_fraction (t : Text) : (fractionLengths t).Pairwise (· > ·) := by
  have hpoint : ∀ n ∈ thenLengths (literalLengths '.') digitLengths t, 0 < n := by
    intro n hn
    obtain ⟨i, hi, hn⟩ := List.mem_flatMap.mp hn
    obtain ⟨j, -, rfl⟩ := List.mem_map.mp hn
    have := (mem_literalLengths.mp hi).1
    omega
  have hdigits : (thenLengths (literalLengths '.') digitLengths t).Pairwise (· > ·) := by
    rw [thenLengths, literalLengths]
    split
    · rw [List.flatMap_singleton]
      exact pairwise_add (pairwise_row _ _ _ _) 1
    · exact .nil
  refine List.pairwise_append.mpr ⟨hdigits, List.pairwise_singleton _ _, fun n hn m hm => ?_⟩
  rw [List.mem_singleton.mp hm]
  exact hpoint n hn

/-- Digits that are cut short have no fraction. -/
theorem fractionLengths_of_lt {t : Text} {n : Nat}
    (hn : n < runLength options (.set false [.category .digit false]) none t) :
    fractionLengths (t.drop n) = [0] := by
  obtain ⟨c, hhead, hc⟩ := head_of_lt_runLength hn
  have hpoint : literalLengths '.' (t.drop n) = [] := by
    refine List.eq_nil_iff_forall_not_mem.mpr fun m hm => ?_
    have hdot := (mem_literalLengths.mp hm).2
    rw [hhead, Option.some_inj] at hdot
    rw [hdot, accepts_digit] at hc
    exact absurd hc (by decide)
  rw [fractionLengths, thenLengths, hpoint]
  rfl

theorem pairwise_unsigned (t : Text) :
    (thenLengths digitLengths fractionLengths t).Pairwise (· > ·) := by
  refine List.pairwise_flatMap.mpr ⟨fun n _ => pairwise_add (pairwise_fraction _) n, ?_⟩
  refine (pairwise_row _ 1 none t).imp_of_mem fun {n m} hn _ hlt x hx y hy => ?_
  have hcut : m < runLength options (.set false [.category .digit false]) none t :=
    Nat.lt_of_lt_of_le hlt (mem_down.mp hn).2
  obtain ⟨i, -, rfl⟩ := List.mem_map.mp hx
  rw [fractionLengths_of_lt hcut] at hy
  obtain ⟨j, hj, rfl⟩ := List.mem_map.mp hy
  rw [List.mem_singleton.mp hj]
  omega

theorem Placeholder.pairwise_lengths (h : Placeholder) (t : Text) :
    (h.lengths t).Pairwise (· > ·) := by
  cases h with
  | int => exact pairwise_signed (pairwise_row _ _ _) (digitLengths_of_not (by decide)) t
  | float =>
    refine pairwise_signed pairwise_unsigned (fun r => ?_) t
    rw [thenLengths, digitLengths_of_not (by decide)]
    rfl
  | word => exact pairwise_row _ _ _ t
  | string => exact pairwise_row _ _ _ t
  | anything => exact pairwise_row _ _ _ t

/-! ## The longest arguments -/

section Bare

variable {h : Placeholder} (hh : h ≠ .string)

include hh

theorem Placeholder.shows_iff {u piece : Text} : h.Shows u piece ↔ h.Fits u ∧ piece = u := by
  cases h with
  | string => exact absurd rfl hh
  | _ => exact Iff.rfl

theorem Placeholder.pairwise_ways (g : Nat) (p : Place) :
    (h.ways g p).Pairwise fun w w' => w.pos > w'.pos := by
  rw [ways_eq hh]
  exact List.pairwise_map.mpr
    ((h.pairwise_lengths p.ahead).imp fun hlt => Nat.add_lt_add_left hlt p.pos)

/-- The places behind longer texts come before the way that is taken. -/
theorem Placeholder.mem_before {g : Nat} {p w : Place} {before after : List Place} {v r : Text}
    (hways : h.ways g p = before ++ w :: after) (hv : h.Fits v) (hp : p.ahead = v ++ r)
    (hlong : w.pos < p.pos + v.length) : ∃ w' ∈ before, w'.ahead = r := by
  have hmem : (p.skip v.length).catchGroup g p.pos ∈ before ++ w :: after := by
    rw [← hways, ways_eq hh]
    refine List.mem_map.mpr ⟨v.length, (mem_lengths hh).mpr ⟨?_, ?_⟩, rfl⟩
    · simp [hp]
    · rwa [hp, List.take_left]
  have hpairwise := pairwise_ways hh g p
  rw [hways] at hpairwise
  have hafter := (List.pairwise_cons.mp (List.pairwise_append.mp hpairwise).2.1).1
  rcases List.mem_append.mp hmem with hbefore | hmem
  · refine ⟨_, hbefore, ?_⟩
    show p.ahead.drop v.length = r
    rw [hp, List.drop_left]
  · rcases List.mem_cons.mp hmem with heq | hmem
    · rw [← heq] at hlong
      exact absurd hlong (Nat.lt_irrefl _)
    · exact absurd hlong (Nat.lt_asymm (hafter _ hmem))

theorem Placeholder.Catches.bare {g : Nat} {p w : Place} {u : Text} (hc : h.Catches g p u w) :
    h.Fits u ∧ Passes p u w := by
  obtain ⟨left, right, i, -, hshows, hpass, -⟩ := hc.caught
  obtain ⟨hfits, hpiece⟩ := (Placeholder.shows_iff hh).mp hshows
  rw [hpiece] at hpass
  exact ⟨hfits, hpass⟩

end Bare

theorem Finds.longest {g : Nat} {ts : List Token} {p q : Place} {us : List Text}
    (h : Finds g ts p us q) (hts : .hole .string ∉ ts) {vs : List Text}
    (hvs : Refills ts vs p.ahead) :
    vs = us ∨ vs.map List.length < us.map List.length := by
  induction h generalizing vs with
  | nil hp =>
    rw [hp] at hvs
    cases hvs
    exact .inl rfl
  | literal hpass _ _ ih =>
    rw [hpass.ahead_eq] at hvs
    cases hvs with
    | literal _ hrest => exact ih (fun hmem => hts (List.mem_cons_of_mem _ hmem)) hrest
  | @hole g h ts p w q before after u us hways hbefore hcatches _ ih =>
    have hh : h ≠ .string := fun he => hts (he ▸ List.mem_cons_self)
    obtain ⟨-, hpass⟩ := hcatches.bare hh
    generalize hp : p.ahead = t at hvs
    cases hvs with
    | @hole _ _ vs v piece r hshows hrest =>
      obtain ⟨hfits, rfl⟩ := (Placeholder.shows_iff hh).mp hshows
      rcases Nat.lt_trichotomy piece.length u.length with hlt | heq | hgt
      · exact .inr (List.cons_lt_cons_iff.mpr (.inl hlt))
      · -- the same first argument: the rest decides
        obtain ⟨rfl, rfl⟩ := List.append_inj (hp.symm.trans hpass.ahead_eq) heq
        rcases ih (fun hmem => hts (List.mem_cons_of_mem _ hmem)) hrest with rfl | hlt
        · exact .inl rfl
        · exact .inr (List.cons_lt_cons_self.mpr hlt)
      · -- a longer first argument was tried before, and the rest was not found behind it
        have hlong : w.pos < p.pos + piece.length := by
          rw [hpass.pos_eq]
          omega
        obtain ⟨w', hw', rfl⟩ := Placeholder.mem_before hh hways hfits hp hlong
        exact absurd hrest.covers (hbefore w' hw')

/-- If an expression has no quoted or bare words among its placeholders, its arguments in a text are
those whose lengths are greatest: any other way to cut the text into the literals and texts that the
placeholders stand for has a first shorter argument before any longer one. -/
theorem arguments_longest {matcher : Matcher} {d : Definition} {t : Text}
    (hmode : matcher.mode.allows .expression = true) (hkind : d.kind = .expression)
    (hholes : .hole .string ∉ tokens d.pattern) (hmatch : d.isMatch matcher t = .ok true) :
    ∃ us, d.arguments matcher t = .ok (some us) ∧ Refills (tokens d.pattern) us t ∧
      ∀ vs, Refills (tokens d.pattern) vs t → vs ≠ us →
        vs.map List.length < us.map List.length := by
  obtain ⟨us, q, hargs, hfinds⟩ := exists_arguments hmode hkind hmatch
  exact ⟨us, hargs, hfinds.refills, fun vs hvs hne => (hfinds.longest hholes hvs).resolve_left hne⟩

/-! A number that has to give back a digit to the one behind it. -/

def adjacent : Definition := ofExpression "\x7bfloat\x7d\x7bint\x7d\x7b\x7d"

theorem arguments_longest_adjacent :
    adjacent.arguments ⟨.both, .boundless⟩ "-12.345 x" = .ok (some ["-12.34", "5", " x"]) ∧
      ∀ vs, Refills (tokens adjacent.pattern) vs "-12.345 x" → vs ≠ ["-12.34", "5", " x"] →
        vs.map List.length < [6, 1, 2] := by
  have hrun : adjacent.arguments ⟨.both, .boundless⟩ "-12.345 x" =
      .ok (some ["-12.34", "5", " x"]) := by decide +kernel
  have hboth : (Matcher.mk .both .boundless).mode.allows .expression = true := rfl
  obtain ⟨us, hargs, -, hlongest⟩ :=
    arguments_longest (d := adjacent) (t := "-12.345 x") hboth rfl (by decide +kernel)
      (by decide +kernel)
  rw [hrun] at hargs
  cases hargs
  exact ⟨hrun, hlongest⟩

end Expression
end StepAtlas
