import Mathlib.Data.List.TakeWhile
import StepAtlas.Text.Blank

/-
Splitting, joining and trimming texts.  Splitting at a code point and joining with it undo each
other, as long as no piece holds the code point.  Trimming takes blanks away at both ends and
nothing else, so blanks around a text do not matter to it.
-/

namespace StepAtlas
namespace Text

theorem splitAt_append {sep : CodePoint} {t : Text} (h : sep ∉ t) (rest : Text) :
    splitAt sep (t ++ sep :: rest) = t :: splitAt sep rest := by
  induction t with
  | nil => simp [splitAt]
  | cons p t ih =>
    obtain ⟨hp, ht⟩ : sep ≠ p ∧ sep ∉ t := by simpa using h
    rw [List.cons_append, splitAt, if_neg (Ne.symm hp), ih ht]

theorem splitAt_of_not_mem {sep : CodePoint} {t : Text} (h : sep ∉ t) : splitAt sep t = [t] := by
  induction t with
  | nil => rfl
  | cons p t ih =>
    obtain ⟨hp, ht⟩ : sep ≠ p ∧ sep ∉ t := by simpa using h
    rw [splitAt, if_neg (Ne.symm hp), ih ht]

/-- Lines that are each ended come back, with nothing behind the last one. -/
theorem splitAt_flatMap {sep : CodePoint} {ts : List Text} (h : ∀ t ∈ ts, sep ∉ t) :
    splitAt sep (ts.flatMap fun t => t ++ [sep]) = ts ++ [[]] := by
  induction ts with
  | nil => rfl
  | cons t ts ih =>
    obtain ⟨ht, hts⟩ := List.forall_mem_cons.mp h
    rw [List.flatMap_cons, List.append_assoc, List.singleton_append, splitAt_append ht, ih hts,
      List.cons_append]

theorem trimLeft_of_head {p : CodePoint} (h : p.isBlank = false) (t : Text) :
    trimLeft (p :: t) = p :: t := by
  rw [trimLeft, List.dropWhile_cons_of_neg (by simp [h])]

theorem trimRight_of_last {t : Text} {p : CodePoint} (hl : t.getLast? = some p)
    (h : p.isBlank = false) :
    trimRight t = t := by
  obtain ⟨t, rfl⟩ := List.getLast?_eq_some_iff.mp hl
  rw [trimRight, List.reverse_append, List.reverse_singleton, List.singleton_append,
    List.dropWhile_cons_of_neg (by simp [h]), List.reverse_cons, List.reverse_reverse]

theorem trimRight_append_blank {p : CodePoint} (h : p.isBlank = true) (t : Text) :
    trimRight (t ++ [p]) = trimRight t := by
  rw [trimRight, List.reverse_append, List.reverse_singleton, List.singleton_append,
    List.dropWhile_cons_of_pos h]
  rfl

theorem join_cons_cons (sep t u : Text) (ts : List Text) :
    join sep (t :: u :: ts) = t ++ sep ++ join sep (u :: ts) := by
  simp [join]

theorem splitAt_ne_nil (sep : CodePoint) (t : Text) : splitAt sep t ≠ [] := by
  cases t with
  | nil => simp [splitAt]
  | cons p t =>
    rw [splitAt]
    split
    · simp
    · split <;> simp

theorem mem_of_mem_splitAt {sep : CodePoint} {t piece : Text} (h : piece ∈ splitAt sep t)
    {p : CodePoint} (hp : p ∈ piece) : p ∈ t := by
  induction t generalizing piece with
  | nil =>
    obtain rfl : piece = [] := by simpa [splitAt] using h
    exact hp
  | cons q t ih =>
    rw [splitAt] at h
    split at h
    · rcases List.mem_cons.mp h with rfl | h
      · cases hp
      · exact List.mem_cons_of_mem q (ih h hp)
    · cases hs : splitAt sep t with
      | nil => exact absurd hs (splitAt_ne_nil sep t)
      | cons first pieces =>
        rw [hs] at h ih
        rcases List.mem_cons.mp h with rfl | h
        · rcases List.mem_cons.mp hp with rfl | hp
          · exact List.mem_cons_self
          · exact List.mem_cons_of_mem q (ih List.mem_cons_self hp)
        · exact List.mem_cons_of_mem q (ih (List.mem_cons_of_mem first h) hp)

/-- The pieces of a text are those before one of the separators and those behind it. -/
theorem splitAt_append_cons (sep : CodePoint) (s t : Text) :
    splitAt sep (s ++ sep :: t) = splitAt sep s ++ splitAt sep t := by
  induction s with
  | nil => simp [splitAt]
  | cons p s ih =>
    rw [List.cons_append, splitAt, splitAt, ih]
    split
    · rfl
    · cases hs : splitAt sep s with
      | nil => exact absurd hs (splitAt_ne_nil sep s)
      | cons piece pieces => rfl

/-- Pieces without the separator come back. -/
theorem splitAt_join {sep : CodePoint} {ts : List Text} (hne : ts ≠ []) (h : ∀ t ∈ ts, sep ∉ t) :
    splitAt sep (join [sep] ts) = ts := by
  induction ts with
  | nil => exact absurd rfl hne
  | cons t ts ih =>
    obtain ⟨ht, hts⟩ := List.forall_mem_cons.mp h
    cases ts with
    | nil => simpa [join] using splitAt_of_not_mem ht
    | cons u us =>
      rw [join_cons_cons, List.append_assoc, List.singleton_append, splitAt_append ht,
        ih (by simp) hts]

theorem join_append (sep : Text) {ss ts : List Text} (hs : ss ≠ []) (ht : ts ≠ []) :
    join sep (ss ++ ts) = join sep ss ++ sep ++ join sep ts := by
  induction ss with
  | nil => exact absurd rfl hs
  | cons s ss ih =>
    cases ss with
    | nil =>
      obtain ⟨t, ts, rfl⟩ := List.exists_cons_of_ne_nil ht
      rw [List.singleton_append, join_cons_cons]
      simp [join]
    | cons u us =>
      rw [List.cons_append, List.cons_append, join_cons_cons, ← List.cons_append, ih (by simp),
        join_cons_cons]
      simp only [List.append_assoc]

/-! ## Blanks around a text -/

theorem trimRight_append {r : Text} (hr : ∀ p ∈ r, p.isBlank = true) (t : Text) :
    trimRight (t ++ r) = trimRight t := by
  rw [trimRight, List.reverse_append, List.dropWhile_append_of_pos (by simpa using hr)]
  rfl

theorem trim_append {l r : Text} (hl : ∀ p ∈ l, p.isBlank = true) (hr : ∀ p ∈ r, p.isBlank = true)
    (t : Text) :
    trim (l ++ t ++ r) = trim t := by
  have hright : trim (t ++ r) = trim t := by
    induction t with
    | nil =>
      have hnil : trimLeft r = [] := List.dropWhile_eq_nil_iff.mpr hr
      rw [List.nil_append, trim, hnil]
      rfl
    | cons p t ih =>
      cases hp : p.isBlank with
      | true =>
        rw [trim, trim, trimLeft, trimLeft, List.cons_append, List.dropWhile_cons_of_pos hp,
          List.dropWhile_cons_of_pos hp]
        exact ih
      | false =>
        rw [trim, trim, List.cons_append, trimLeft_of_head hp, trimLeft_of_head hp,
          ← List.cons_append, trimRight_append hr]
  rw [trim, trimLeft, List.append_assoc, List.dropWhile_append_of_pos hl]
  exact hright

/-- Trimming takes away nothing but blanks at both ends. -/
theorem exists_trim (t : Text) :
    ∃ l r, (∀ p ∈ l, p.isBlank = true) ∧ (∀ p ∈ r, p.isBlank = true) ∧ t = l ++ trim t ++ r := by
  refine ⟨t.takeWhile CodePoint.isBlank, ((trimLeft t).reverse.takeWhile CodePoint.isBlank).reverse,
    ?_, ?_, ?_⟩
  · exact fun p hp => List.mem_takeWhile_imp hp
  · exact fun p hp => List.mem_takeWhile_imp (List.mem_reverse.mp hp)
  · have hright :
        trimRight (trimLeft t) ++ ((trimLeft t).reverse.takeWhile CodePoint.isBlank).reverse =
          trimLeft t := by
      rw [trimRight, ← List.reverse_append, List.takeWhile_append_dropWhile, List.reverse_reverse]
    rw [List.append_assoc, trim, hright, trimLeft, List.takeWhile_append_dropWhile]

theorem trim_trim (t : Text) : trim (trim t) = trim t := by
  obtain ⟨l, r, hl, hr, ht⟩ := exists_trim t
  have htrim := trim_append hl hr (trim t)
  rw [← ht] at htrim
  exact htrim.symm

theorem after?_eq_some {s t rest : Text} (h : after? s t = some rest) : t = s ++ rest := by
  induction s generalizing t with
  | nil =>
    cases h
    rfl
  | cons a s ih =>
    cases t with
    | nil => cases h
    | cons b t =>
      rw [after?] at h
      split at h
      · rename_i hab
        rw [hab, ih h, List.cons_append]
      · cases h

theorem endsWith_iff {t ending : Text} : endsWith t ending = true ↔ ∃ s, t = s ++ ending := by
  rw [endsWith, startsWith, Option.isSome_iff_exists]
  constructor
  · rintro ⟨rest, h⟩
    refine ⟨rest.reverse, ?_⟩
    have hreverse := congrArg List.reverse (after?_eq_some h)
    simpa using hreverse
  · rintro ⟨s, rfl⟩
    exact ⟨s.reverse, by rw [List.reverse_append, after?_append]⟩

theorem mem_ofNat {n : Nat} {p : CodePoint} (h : p ∈ ofNat n) :
    ∃ c : Char, c.isDigit = true ∧ p = .scalar c := by
  rw [ofNat, Nat.toString_eq_repr, Nat.repr_eq_ofList_toDigits, ofString, String.toList_ofList] at h
  obtain ⟨c, hc, rfl⟩ := List.mem_map.mp h
  exact ⟨c, Nat.isDigit_of_mem_toDigits (by decide) (by decide) hc, rfl⟩

theorem ofNat_ne_nil (n : Nat) : ofNat n ≠ [] := by
  rw [ofNat, Nat.toString_eq_repr, Nat.repr_eq_ofList_toDigits, ofString, String.toList_ofList]
  simp

end Text
end StepAtlas
