import Mathlib.Algebra.Group.Nat.Even
import Mathlib.Data.List.DropRight
import StepAtlas.Proofs.Script.Escapes

/-
Literals that cannot be decoded.  A number in braces that is no code point is kept as it is written,
but one that does not fit into 31 bits is an error.  This is the only one: a raw text has a meaning
unless there is such an escape in it, and a backslash starts an escape if the number of backslashes
right before it is even.
-/

namespace StepAtlas
namespace Script

/-! ## Where escapes start -/

def trail (t : Text) : Nat := (t.rtakeWhile fun p => p = .scalar '\\').length

theorem trail_concat (t : Text) {p : CodePoint} (h : p ≠ .scalar '\\') : trail (t ++ [p]) = 0 := by
  rw [trail, List.rtakeWhile_concat_neg _ _ _ (by simpa using h), List.length_nil]

/-- What stands before a run of backslashes counts only by its own run at its end. -/
theorem even_trail_append {w : Text} (hw : Even (trail w)) (t : Text) :
    Even (trail (w ++ t)) ↔ Even (trail t) := by
  simp only [trail, List.rtakeWhile, List.length_reverse, List.reverse_append] at hw ⊢
  rw [List.takeWhile_append]
  split
  · next hall =>
    rw [List.length_append, ← hall, Nat.even_add, iff_true_right hw]
  · rfl

/-! ## Numbers that do not fit -/

/-- A text starts with the escape of a number that does not fit. -/
def StartsOversized (t : Text) : Prop := ∃ ds rest, t = inBraces ds ++ rest ∧ 0x80000000 ≤ number ds

/-- Somewhere in a raw text there is an escape of a number that does not fit, with a backslash that
is not escaped. -/
def Oversized (raw : Text) : Prop :=
  ∃ before t, raw = before ++ t ∧ Even (trail before) ∧ StartsOversized t

theorem StartsOversized.head? {t : Text} (h : StartsOversized t) :
    t.head? = some (.scalar '\\') := by
  obtain ⟨ds, rest, rfl, -⟩ := h
  rfl

theorem StartsOversized.oversized {t : Text} (h : StartsOversized t) : Oversized t :=
  ⟨[], t, rfl, by decide, h⟩

/-- Where no escape in a text reaches over its end, all depends on what follows. -/
theorem oversized_append_iff {w : Text} (hw : Even (trail w)) (t : Text)
    (hinside : ∀ x y, w = x ++ y → y ≠ [] → Even (trail x) → ¬ StartsOversized (y ++ t)) :
    Oversized (w ++ t) ↔ Oversized t := by
  constructor
  · rintro ⟨before, u, heq, heven, hu⟩
    obtain ⟨x, rfl, rfl⟩ | ⟨y, rfl, rfl⟩ := List.append_eq_append_iff.mp heq
    · exact ⟨x, u, rfl, (even_trail_append hw x).mp heven, hu⟩
    · by_cases hy : y = []
      · subst hy
        exact hu.oversized
      · exact absurd hu (hinside before y rfl hy heven)
  · rintro ⟨before, u, rfl, heven, hu⟩
    exact ⟨w ++ before, u, by rw [List.append_assoc], (even_trail_append hw before).mpr heven, hu⟩

theorem oversized_cons_iff {p : CodePoint} (hp : p ≠ .scalar '\\') (t : Text) :
    Oversized (p :: t) ↔ Oversized t := by
  have heven : Even (trail ([] ++ [p])) := by
    rw [trail_concat [] hp]
    decide
  refine oversized_append_iff (w := [p]) heven t fun x y hxy hy _ hs => ?_
  obtain ⟨-, rfl⟩ : x = [] ∧ y = [p] := by
    simpa [hy] using List.append_eq_singleton_iff.mp hxy.symm
  exact hp (Option.some.inj hs.head?)

/-- A backslash with what it escapes. -/
theorem oversized_escape_iff {w t : Text} (hw : w = [.scalar '\\'] ∨ w ≠ [] ∧ .scalar '\\' ∉ w)
    (hstart : ¬ StartsOversized (.scalar '\\' :: (w ++ t))) :
    Oversized (.scalar '\\' :: (w ++ t)) ↔ Oversized t := by
  have heven : Even (trail (.scalar '\\' :: w)) := by
    rcases hw with rfl | ⟨hne, hw⟩
    · decide
    · have hlast : w.getLast hne ≠ .scalar '\\' := fun he => hw (he ▸ List.getLast_mem hne)
      rw [← List.dropLast_append_getLast hne, ← List.cons_append, trail_concat _ hlast]
      decide
  refine oversized_append_iff (w := .scalar '\\' :: w) heven t fun x y hxy hy hx hs => ?_
  obtain ⟨q, y, rfl⟩ := List.exists_cons_of_ne_nil hy
  obtain rfl : q = .scalar '\\' := Option.some.inj hs.head?
  cases x with
  | nil =>
    obtain rfl : w = y := (List.cons.inj hxy).2
    exact hstart hs
  | cons a x =>
    obtain ⟨rfl, rfl⟩ : .scalar '\\' = a ∧ w = x ++ .scalar '\\' :: y := List.cons.inj hxy
    rcases hw with hw | ⟨-, hw⟩
    · obtain ⟨rfl, -⟩ | ⟨-, hnil⟩ := List.append_eq_singleton_iff.mp hw
      · exact absurd hx (by decide)
      · exact absurd hnil (List.cons_ne_nil _ _)
    · exact hw (by simp)

/-! ## Escapes with digits -/

/-- The hexadecimal digits, each in both ways to write it. -/
def allDigits : List HexDigit := (List.finRange 16).flatMap fun n => [⟨n, false⟩, ⟨n, true⟩]

theorem exists_char_eq {p : CodePoint} (h : isHexDigit p = true) : ∃ d : HexDigit, d.char = p := by
  have hall : ∀ n ≤ 102, isHexDigit (.scalar (Char.ofNat n)) = true →
      .scalar (Char.ofNat n) ∈ allDigits.map HexDigit.char := by
    decide
  cases p with
  | surrogate k => exact absurd h Bool.false_ne_true
  | scalar c =>
    have hc : (48 ≤ c.toNat ∧ c.toNat ≤ 57 ∨ 97 ≤ c.toNat ∧ c.toNat ≤ 102) ∨ 65 ≤ c.toNat ∧
        c.toNat ≤ 70 := by
      simpa [isHexDigit, CodePoint.test, Char.isDigit, Char.le_def, UInt32.le_iff_toNat_le] using h
    have hmem := hall c.toNat (by omega)
    rw [Char.ofNat_toNat] at hmem
    obtain ⟨d, -, hd⟩ := List.mem_map.mp (hmem h)
    exact ⟨d, hd⟩

theorem exists_map_char_eq {t : Text} (h : ∀ p ∈ t, isHexDigit p = true) :
    ∃ ds : List HexDigit, ds.map HexDigit.char = t := by
  induction t with
  | nil => exact ⟨[], rfl⟩
  | cons p t ih =>
    obtain ⟨hp, ht⟩ := List.forall_mem_cons.mp h
    obtain ⟨d, rfl⟩ := exists_char_eq hp
    obtain ⟨ds, rfl⟩ := ih ht
    exact ⟨d :: ds, rfl⟩

theorem not_mem_of_isHexDigit {t : Text} (h : ∀ p ∈ t, isHexDigit p = true) : .scalar '\\' ∉ t :=
  fun hmem => absurd (h _ hmem) (by decide)

theorem exists_braces {r : Text} (hne : r.takeWhile isHexDigit ≠ [])
    (hclosed : (r.drop (r.takeWhile isHexDigit).length).head? = some (.scalar '\x7d')) :
    ∃ ds t, ds ≠ [] ∧ r = ds.map HexDigit.char ++ .scalar '\x7d' :: t := by
  obtain ⟨ds, hds⟩ :=
    exists_map_char_eq fun p hp => List.mem_takeWhile_imp (p := isHexDigit) (l := r) hp
  obtain ⟨t, ht⟩ := List.head?_eq_some_iff.mp hclosed
  refine ⟨ds, t, ?_, ?_⟩
  · rintro rfl
    exact hne hds.symm
  · rw [hds, ← ht]
    exact (List.prefix_iff_eq_append.mp (List.takeWhile_prefix isHexDigit)).symm

/-- What a longer escape consists of, and when it is an error. -/
theorem longEscape?_eq_some {r : Text} {value : Except Fault Text} {n : Nat}
    (h : longEscape? r = some (value, n)) :
    ∃ w t, r = w ++ t ∧ w.length = n ∧ w ≠ [] ∧ .scalar '\\' ∉ w ∧
      ((∃ v, value = .ok v) ∨ value = .error .codePointTooLarge ∧
        StartsOversized (.scalar '\\' :: r)) := by
  have hlong := h
  rw [longEscape?.eq_def] at h
  split at h
  · next r =>
    dsimp only at h
    split at h
    · next hdigits =>
      obtain ⟨ds, t, hne, rfl⟩ := exists_braces hdigits.1 hdigits.2
      rw [longEscape?_braces hne] at hlong
      cases hlong
      refine ⟨.scalar 'u' :: .scalar '\x7b' :: (ds.map HexDigit.char ++ [.scalar '\x7d']), t,
        by simp, by simp, by simp, ?_, ?_⟩
      · have hnot : .scalar '\\' ∉ ds.map HexDigit.char :=
          not_mem_of_isHexDigit (isHexDigit_of_mem_map_char ds)
        simp [hnot]
      · by_cases hbig : 0x80000000 ≤ number ds
        · rw [if_pos hbig]
          exact .inr ⟨rfl, ds, t, by simp [inBraces], hbig⟩
        · rw [if_neg hbig]
          exact .inl ⟨_, rfl⟩
    · cases h
  · next a b c d t _ =>
    split at h
    · next hdigits =>
      cases h
      refine ⟨[.scalar 'u', a, b, c, d], t, rfl, rfl, List.cons_ne_nil _ _, ?_, .inl ⟨_, rfl⟩⟩
      have hnot := not_mem_of_isHexDigit (List.all_eq_true.mp hdigits)
      simp_all
    · cases h
  · next a b t =>
    split at h
    · next hdigits =>
      cases h
      refine ⟨[.scalar 'x', a, b], t, rfl, rfl, List.cons_ne_nil _ _, ?_, .inl ⟨_, rfl⟩⟩
      have hnot : .scalar '\\' ∉ [a, b] := not_mem_of_isHexDigit (by simpa using hdigits)
      simp_all
    · cases h
  · next t =>
    cases h
    exact ⟨[.scalar '\r', .scalar '\n'], t, rfl, rfl, List.cons_ne_nil _ _,
      by decide, .inl ⟨[], rfl⟩⟩
  · cases h

theorem StartsOversized.longEscape? {r : Text} (h : StartsOversized (.scalar '\\' :: r)) :
    ∃ n, longEscape? r = some (.error .codePointTooLarge, n) := by
  obtain ⟨ds, t, heq, hbig⟩ := h
  have hne : ds ≠ [] := by
    rintro rfl
    exact absurd hbig (by decide)
  obtain rfl : r = .scalar 'u' :: .scalar '\x7b' ::
      (ds.map HexDigit.char ++ .scalar '\x7d' :: t) := by
    simpa [inBraces] using heq
  rw [longEscape?_braces hne, if_pos hbig]
  exact ⟨_, rfl⟩

/-! ## Whole texts -/

/-- A backslash with what it escapes, and how the rest goes on. -/
theorem exists_escape {r : Text} (hne : r ≠ []) (hstart : ¬ StartsOversized (.scalar '\\' :: r)) :
    ∃ w t v, r = w ++ t ∧ (w = [.scalar '\\'] ∨ w ≠ [] ∧ .scalar '\\' ∉ w) ∧
      unescapeFrom 0 (.scalar '\\' :: r) = (v ++ ·) <$> unescapeFrom 0 t := by
  cases hlong : longEscape? r with
  | none =>
    obtain ⟨q, t, rfl⟩ := List.exists_cons_of_ne_nil hne
    refine ⟨[q], t, simpleEscape q, rfl, ?_, unescapeFrom_simple hlong⟩
    by_cases hq : q = .scalar '\\'
    · exact .inl (by rw [hq])
    · exact .inr ⟨List.cons_ne_nil _ _, fun hmem => hq (List.mem_singleton.mp hmem).symm⟩
  | some escape =>
    obtain ⟨value, n⟩ := escape
    obtain ⟨w, t, rfl, rfl, hw, hnot, ⟨v, rfl⟩ | ⟨-, hbig⟩⟩ := longEscape?_eq_some hlong
    · exact ⟨w, t, v, rfl, .inr ⟨hw, hnot⟩, unescapeFrom_of_longEscape? hlong⟩
    · exact absurd hbig hstart

theorem Oversized.one_lt_length {raw : Text} (h : Oversized raw) : 1 < raw.length := by
  obtain ⟨before, _, rfl, -, ds, rest, rfl, -⟩ := h
  simp only [List.length_append, inBraces, List.length_cons]
  omega

def Settled (raw : Text) : Prop :=
  Oversized raw ∧ unescapeFrom 0 raw = .error .codePointTooLarge ∨
    ¬ Oversized raw ∧ ∃ t, unescapeFrom 0 raw = .ok t

theorem Settled.of_rest {raw t v : Text} (h : Settled t) (hiff : Oversized raw ↔ Oversized t)
    (hrun : unescapeFrom 0 raw = (v ++ ·) <$> unescapeFrom 0 t) : Settled raw := by
  obtain ⟨hbig, herror⟩ | ⟨hsmall, u, hu⟩ := h
  · exact .inl ⟨hiff.mpr hbig, by rw [hrun, herror]; rfl⟩
  · exact .inr ⟨mt hiff.mp hsmall, v ++ u, by rw [hrun, hu]; rfl⟩

theorem settled (raw : Text) : Settled raw := by
  -- by the length, since an escape may take several code points at once
  induction hn : raw.length using Nat.strong_induction_on generalizing raw with
  | _ n ih =>
    subst hn
    cases raw with
    | nil => exact .inr ⟨fun h => absurd h.one_lt_length (by decide), [], rfl⟩
    | cons p r =>
      by_cases hp : p = .scalar '\\'
      · subst hp
        by_cases hstart : StartsOversized (.scalar '\\' :: r)
        · obtain ⟨m, hlong⟩ := hstart.longEscape?
          refine .inl ⟨hstart.oversized, ?_⟩
          rw [unescapeFrom.eq_def]
          dsimp only
          rw [if_pos rfl, hlong]
          rfl
        · by_cases hr : r = []
          · subst hr
            exact .inr ⟨fun h => absurd h.one_lt_length (by decide), _, rfl⟩
          · obtain ⟨w, t, v, rfl, hw, hrun⟩ := exists_escape hr hstart
            have hshorter : t.length < (CodePoint.scalar '\\' :: (w ++ t)).length := by
              rw [List.length_cons, List.length_append]
              omega
            exact (ih _ hshorter t rfl).of_rest (oversized_escape_iff hw hstart) hrun
      · exact (ih _ (Nat.lt_succ_self _) r rfl).of_rest (v := [p]) (oversized_cons_iff hp r)
          (unescapeFrom_of_ne hp r)

theorem unescape_of_oversized {raw : Text} (h : Oversized raw) :
    unescape raw = .error .codePointTooLarge := by
  obtain ⟨-, herror⟩ | ⟨hnot, -⟩ := settled raw
  · exact herror
  · exact absurd h hnot

/-- A raw text has a meaning unless there is an escape in it whose number does not fit. -/
theorem exists_unescape_iff {raw : Text} : (∃ t, unescape raw = .ok t) ↔ ¬ Oversized raw := by
  constructor
  · rintro ⟨t, ht⟩ hbig
    rw [unescape_of_oversized hbig] at ht
    cases ht
  · intro hnot
    obtain ⟨hbig, -⟩ | ⟨-, hmeaning⟩ := settled raw
    · exact absurd hbig hnot
    · exact hmeaning

end Script
end StepAtlas
