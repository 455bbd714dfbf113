import Mathlib.Data.Nat.Init
import StepAtlas.Pattern.Expression

/-
The text that an expression is translated into.  The placeholders are replaced one kind after the
other in text that has been escaped before, and what comes out is what reading the expression once
from left to right would give: the escaped literals with the rules in between.

A replacement can only hit a placeholder of the expression.  Its left side begins with a backslash
and a brace, a brace stands in the text only behind the backslash that escapes it, and no rule holds
one.
-/

namespace StepAtlas

namespace Text

theorem startsWith_iff {t beginning : Text} : startsWith t beginning = true ↔ beginning <+: t := by
  induction beginning generalizing t with
  | nil => simp [startsWith, after?]
  | cons a s ih =>
    cases t with
    | nil => simp [startsWith, after?]
    | cons b t =>
      by_cases h : a = b
      · have hs : startsWith (b :: t) (a :: s) = startsWith t s := by simp [startsWith, after?, h]
        rw [hs, ih, h, List.cons_prefix_cons]
        simp
      · simp [startsWith, after?, h, List.cons_prefix_cons]

theorem replaceFrom_skip (old new : Text) (n : Nat) (t : Text) :
    replaceFrom old new n t = replaceFrom old new 0 (t.drop n) := by
  induction t generalizing n with
  | nil => simp [replaceFrom]
  | cons c r ih =>
    cases n with
    | zero => rfl
    | succ n =>
      rw [replaceFrom, ih]
      rfl

theorem replace_append_of_eq {old : Text} (hold : old ≠ []) (new t : Text) :
    replace (old ++ t) old new = new ++ replace t old new := by
  cases old with
  | nil => exact absurd rfl hold
  | cons a s =>
    have hstart : startsWith (a :: (s ++ t)) (a :: s) = true :=
      startsWith_iff.mpr (List.prefix_append (a :: s) t)
    rw [replace, List.cons_append, replaceFrom]
    simp only [hstart, ne_eq, hold, not_false_eq_true, and_self, if_true]
    rw [replaceFrom_skip, List.length_cons, Nat.add_sub_cancel, List.drop_left]
    rfl

theorem replace_cons_of_not {old : Text} {c : CodePoint} {r : Text} (h : ¬ old <+: c :: r)
    (new : Text) :
    replace (c :: r) old new = c :: replace r old new := by
  have hstart : startsWith (c :: r) old = false := by
    rw [Bool.eq_false_iff, ne_eq, startsWith_iff]
    exact h
  rw [replace, replaceFrom]
  simp only [hstart, Bool.false_eq_true, and_false, if_false]
  rfl

/-- A part in which no occurrence begins is passed over. -/
theorem replace_append_of_not {old a t : Text} (h : ∀ b, b <:+ a → b ≠ [] → ¬ old <+: b ++ t)
    (new : Text) :
    replace (a ++ t) old new = a ++ replace t old new := by
  induction a with
  | nil => rfl
  | cons c r ih =>
    have hc : ¬ old <+: c :: (r ++ t) := h (c :: r) List.suffix_rfl (List.cons_ne_nil c r)
    rw [List.cons_append, replace_cons_of_not hc,
      ih (fun b hb => h b (hb.trans (List.suffix_cons c r)))]
    rfl

end Text

namespace Expression

/-! ## Tokens -/

theorem Placeholder.spelling_eq (h : Placeholder) :
    ∃ q : Text, h.spelling = .scalar '\x7b' :: q ∧ .scalar '\x7b' ∉ q := by
  cases h
  · exact ⟨"int\x7d", by decide, by decide⟩
  · exact ⟨"float\x7d", by decide, by decide⟩
  · exact ⟨"word\x7d", by decide, by decide⟩
  · exact ⟨"string\x7d", by decide, by decide⟩
  · exact ⟨"\x7d", by decide, by decide⟩

theorem Placeholder.spelling_ne_nil (h : Placeholder) : h.spelling ≠ [] := by
  obtain ⟨q, hq, -⟩ := h.spelling_eq
  rw [hq]
  exact List.cons_ne_nil _ _

section Known

variable {known : List Placeholder}

theorem Placeholder.at?_eq_some {t : Text} {h : Placeholder} (ha : at? known t = some h) :
    h.spelling <+: t := by
  have hs := List.find?_some ha
  exact Text.startsWith_iff.mp hs

theorem Placeholder.at?_of_ne {p : CodePoint} (hp : p ≠ .scalar '\x7b') (r : Text) :
    at? known (p :: r) = none := by
  refine List.find?_eq_none.mpr fun h _ => ?_
  rw [Text.startsWith_iff]
  obtain ⟨q, hq, -⟩ := h.spelling_eq
  rw [hq, List.cons_prefix_cons]
  exact fun he => hp he.1.symm

/-- One more placeholder is looked for after all the others. -/
theorem Placeholder.at?_append (h : Placeholder) (t : Text) :
    at? (known ++ [h]) t = (at? known t).or (if Text.startsWith t h.spelling then some h
      else none) := by
  rw [at?, List.find?_append, List.find?_singleton]
  rfl

theorem tokensFrom_skip (n : Nat) (t : Text) :
    tokensFrom known n t = tokensFrom known 0 (t.drop n) := by
  induction t generalizing n with
  | nil => simp [tokensFrom]
  | cons p r ih =>
    cases n with
    | zero => rfl
    | succ n =>
      rw [tokensFrom, ih]
      rfl

theorem tokensFrom_of_none {p : CodePoint} {r : Text} (ha : Placeholder.at? known (p :: r) = none) :
    tokensFrom known 0 (p :: r) = .literal p :: tokensFrom known 0 r := by
  rw [tokensFrom, ha]

theorem tokensFrom_of_some {h : Placeholder} {t : Text}
    (ha : Placeholder.at? known (h.spelling ++ t) = some h) :
    tokensFrom known 0 (h.spelling ++ t) = .hole h :: tokensFrom known 0 t := by
  obtain ⟨q, hq, -⟩ := h.spelling_eq
  rw [hq, List.cons_append] at ha ⊢
  rw [tokensFrom, ha]
  show Token.hole h :: tokensFrom known (h.spelling.length - 1) (q ++ t) = _
  rw [tokensFrom_skip, hq, List.length_cons, Nat.add_sub_cancel, List.drop_left]

theorem tokensFrom_append_of_not_mem {q : Text} (hq : .scalar '\x7b' ∉ q) (t : Text) :
    tokensFrom known 0 (q ++ t) = q.map .literal ++ tokensFrom known 0 t := by
  induction q with
  | nil => rfl
  | cons p q ih =>
    rw [List.mem_cons, not_or] at hq
    rw [List.cons_append, tokensFrom_of_none (Placeholder.at?_of_ne (Ne.symm hq.1) _), ih hq.2]
    rfl

/-- A placeholder that does not count yet is literal text: none of the others begins inside it. -/
theorem tokensFrom_spelling {h : Placeholder} {t : Text}
    (ha : Placeholder.at? known (h.spelling ++ t) = none) :
    tokensFrom known 0 (h.spelling ++ t) = h.spelling.map .literal ++ tokensFrom known 0 t := by
  obtain ⟨q, hq, hmem⟩ := h.spelling_eq
  rw [hq, List.cons_append] at ha ⊢
  rw [tokensFrom_of_none ha, tokensFrom_append_of_not_mem hmem]
  rfl

end Known

/-! ## The text of a token -/

def Token.source : Token → Text
  | .literal p => escaped [p]
  | .hole h => h.source

theorem escaped_cons (p : CodePoint) (t : Text) : escaped (p :: t) = escaped [p] ++ escaped t := by
  simp [escaped]

/-- A literal is written as it is or, if it has a meaning, behind a backslash. -/
theorem escaped_singleton (p : CodePoint) :
    (escaped [p] = [p] ∧ p.test special.contains = false) ∨
      (escaped [p] = [.scalar '\\', p] ∧ p.test special.contains = true) := by
  cases h : p.test special.contains with
  | false => exact .inl ⟨by simp [escaped, h], rfl⟩
  | true => exact .inr ⟨by simp [escaped, h], rfl⟩

theorem flatMap_source_literals (t : Text) :
    (t.map Token.literal).flatMap Token.source = escaped t := by
  induction t with
  | nil => rfl
  | cons p t ih =>
    rw [List.map_cons, List.flatMap_cons, ih, escaped_cons]
    rfl

/-- Escaping can be undone from the left: what stands for a code point stands for no other. -/
theorem prefix_escaped_cons {c p : CodePoint} {s t : Text}
    (h : escaped (c :: s) <+: escaped [p] ++ t) :
    c = p ∧ escaped s <+: t := by
  have hback : ∀ {q : CodePoint}, q.test special.contains = false → q ≠ .scalar '\\' := by
    rintro q hq rfl
    exact absurd hq (by decide)
  rw [escaped_cons] at h
  rcases escaped_singleton c with ⟨hc, hc'⟩ | ⟨hc, hc'⟩ <;>
    rcases escaped_singleton p with ⟨hp, hp'⟩ | ⟨hp, hp'⟩ <;>
    rw [hc, hp] at h <;> simp only [List.cons_append, List.nil_append, List.cons_prefix_cons] at h
  · exact h
  · exact absurd h.1 (hback hc')
  · exact absurd h.1.symm (hback hp')
  · exact h.2

theorem Placeholder.source_eq (h : Placeholder) : ∃ q : Text, h.source = .scalar '(' :: q := by
  cases h <;> exact ⟨_, rfl⟩

/-- No text of tokens begins with a brace: that of the expression stands behind a backslash. -/
theorem flatMap_source_ne (ts : List Token) (t : Text) :
    ts.flatMap Token.source ≠ .scalar '\x7b' :: t := by
  cases ts with
  | nil => simp
  | cons tok ts =>
    rw [List.flatMap_cons]
    cases tok with
    | hole h =>
      obtain ⟨q, hq⟩ := h.source_eq
      simp [Token.source, hq]
    | literal p =>
      rcases escaped_singleton p with ⟨hp, hp'⟩ | ⟨hp, -⟩
      · rintro h
        simp only [Token.source, hp, List.cons_append, List.cons.injEq] at h
        rw [h.1] at hp'
        exact absurd hp' (by decide)
      · simp [Token.source, hp]

/-- Literal text at the start of the tokens' text comes from the expression. -/
theorem prefix_of_escaped {known : List Placeholder} {s e : Text}
    (h : escaped s <+: (tokensFrom known 0 e).flatMap Token.source) : s <+: e := by
  induction s generalizing e with
  | nil => exact List.nil_prefix
  | cons c s ih =>
    cases e with
    | nil =>
      rw [escaped_cons] at h
      rcases escaped_singleton c with ⟨hc, -⟩ | ⟨hc, -⟩ <;> simp [tokensFrom, hc] at h
    | cons p r =>
      cases ha : Placeholder.at? known (p :: r) with
      | none =>
        rw [tokensFrom_of_none ha, List.flatMap_cons] at h
        obtain ⟨rfl, hs⟩ := prefix_escaped_cons h
        exact List.cons_prefix_cons.mpr ⟨rfl, ih hs⟩
      | some hole =>
        exfalso
        obtain ⟨t, ht⟩ := Placeholder.at?_eq_some ha
        obtain ⟨q, hq⟩ := hole.source_eq
        rw [← ht] at h ha
        rw [tokensFrom_of_some ha, List.flatMap_cons, Token.source, hq, escaped_cons] at h
        rcases escaped_singleton c with ⟨hc, hc'⟩ | ⟨hc, -⟩
        · rw [hc] at h
          obtain ⟨hc'', -⟩ := List.cons_prefix_cons.mp h
          rw [hc''] at hc'
          exact absurd hc' (by decide)
        · rw [hc] at h
          exact absurd (List.cons_prefix_cons.mp h).1 (by decide)

/-! ## Replacing the placeholders -/

theorem Placeholder.escaped_spelling_eq (h : Placeholder) :
    ∃ q : Text, escaped h.spelling = .scalar '\\' :: .scalar '\x7b' :: q := by
  cases h <;> exact ⟨_, rfl⟩

/-- No placeholder is found inside a rule, not even at its end. -/
theorem Placeholder.not_prefix_source {h h' : Placeholder} {b : Text} (hb : b <:+ h'.source)
    (hne : b ≠ []) (ts : List Token) : ¬ escaped h.spelling <+: b ++ ts.flatMap Token.source := by
  obtain ⟨q, hq⟩ := h.escaped_spelling_eq
  rw [hq]
  intro hpre
  match b, hb, hne with
  | [p], hb, _ =>
    obtain ⟨rfl, hrest⟩ := List.cons_prefix_cons.mp hpre
    obtain ⟨t, ht⟩ := hrest
    exact flatMap_source_ne ts _ ht.symm
  | p :: p' :: b, hb, _ =>
    obtain ⟨-, hrest⟩ := List.cons_prefix_cons.mp hpre
    obtain ⟨rfl, -⟩ := List.cons_prefix_cons.mp hrest
    have hmem : CodePoint.scalar '\x7b' ∈ h'.source := hb.subset (by simp)
    revert hmem
    cases h' <;> decide

/-- No placeholder is found at a literal where the expression has none. -/
theorem not_prefix_literal {known : List Placeholder} {h : Placeholder} {p : CodePoint} {r b : Text}
    (ha : Placeholder.at? known (p :: r) = none) (hh : ¬ h.spelling <+: p :: r)
    (hb : b <:+ escaped [p]) (hne : b ≠ []) :
    ¬ escaped h.spelling <+: b ++ (tokensFrom known 0 r).flatMap Token.source := by
  intro hpre
  by_cases hall : b = escaped [p]
  · rw [hall, ← Token.source, ← List.flatMap_cons, ← tokensFrom_of_none ha] at hpre
    exact hh (prefix_of_escaped hpre)
  · obtain ⟨q, hq⟩ := h.escaped_spelling_eq
    rcases escaped_singleton p with ⟨hp, -⟩ | ⟨hp, -⟩
    · rw [hp] at hb hall
      rcases List.suffix_cons_iff.mp hb with hb | hb
      · exact hall hb
      · exact hne (List.suffix_nil.mp hb)
    · rw [hp] at hb hall
      rcases List.suffix_cons_iff.mp hb with hb | hb
      · exact hall hb
      · rcases List.suffix_cons_iff.mp hb with rfl | hb
        · rw [hq] at hpre
          obtain ⟨-, hrest⟩ := List.cons_prefix_cons.mp hpre
          obtain ⟨t, ht⟩ := hrest
          exact flatMap_source_ne _ _ ht.symm
        · exact hne (List.suffix_nil.mp hb)

/-- Replacing one more kind of placeholder in the text of the tokens gives the text of the tokens
when that kind counts too. -/
theorem replace_flatMap_source (known : List Placeholder) (h : Placeholder) (e : Text) :
    Text.replace ((tokensFrom known 0 e).flatMap Token.source) (escaped h.spelling) h.source =
      (tokensFrom (known ++ [h]) 0 e).flatMap Token.source := by
  -- the expression is taken off from the left, a whole placeholder at a time
  induction hn : e.length using Nat.strong_induction_on generalizing e with
  | _ n ih =>
    have ih' : ∀ a t : Text, e = a ++ t → a ≠ [] →
        Text.replace ((tokensFrom known 0 t).flatMap Token.source) (escaped h.spelling) h.source =
          (tokensFrom (known ++ [h]) 0 t).flatMap Token.source := by
      rintro a t rfl hne
      have := List.length_pos_iff.mpr hne
      rw [List.length_append] at hn
      exact ih t.length (by omega) t rfl
    cases ha : Placeholder.at? known e with
    | some h' =>
      obtain ⟨t, rfl⟩ := Placeholder.at?_eq_some ha
      have ha' : Placeholder.at? (known ++ [h]) (h'.spelling ++ t) = some h' := by
        rw [Placeholder.at?_append, ha, Option.some_or]
      rw [tokensFrom_of_some ha, tokensFrom_of_some ha', List.flatMap_cons, List.flatMap_cons,
        Token.source,
        Text.replace_append_of_not (fun b hb hne => Placeholder.not_prefix_source hb hne _),
        ih' _ t rfl h'.spelling_ne_nil]
    | none =>
      by_cases hh : h.spelling <+: e
      · obtain ⟨t, rfl⟩ := hh
        have ha' : Placeholder.at? (known ++ [h]) (h.spelling ++ t) = some h := by
          rw [Placeholder.at?_append, ha, Option.none_or,
            if_pos (Text.startsWith_iff.mpr (List.prefix_append _ _))]
        have hne : escaped h.spelling ≠ [] := by
          obtain ⟨q, hq⟩ := h.escaped_spelling_eq
          rw [hq]
          exact List.cons_ne_nil _ _
        rw [tokensFrom_spelling ha, tokensFrom_of_some ha', List.flatMap_append,
          flatMap_source_literals, List.flatMap_cons, Text.replace_append_of_eq hne,
          ih' _ t rfl h.spelling_ne_nil]
        rfl
      · cases e with
        | nil => rfl
        | cons p r =>
          have ha' : Placeholder.at? (known ++ [h]) (p :: r) = none := by
            rw [Placeholder.at?_append, ha, Option.none_or, if_neg (mt Text.startsWith_iff.mp hh)]
          rw [tokensFrom_of_none ha, tokensFrom_of_none ha', List.flatMap_cons, List.flatMap_cons,
            Token.source,
            Text.replace_append_of_not (fun b hb hne => not_prefix_literal ha hh hb hne),
            ih' [p] r rfl (List.cons_ne_nil p [])]

theorem foldl_replace (hs known : List Placeholder) (e : Text) :
    hs.foldl (fun (t : Text) h => t.replace (escaped h.spelling) h.source)
        ((tokensFrom known 0 e).flatMap Token.source) =
      (tokensFrom (known ++ hs) 0 e).flatMap Token.source := by
  induction hs generalizing known with
  | nil => rw [List.append_nil, List.foldl_nil]
  | cons h hs ih =>
    rw [List.foldl_cons, replace_flatMap_source, ih, List.append_assoc, List.singleton_append]

theorem tokensFrom_nil (e : Text) : tokensFrom [] 0 e = e.map .literal := by
  induction e with
  | nil => rfl
  | cons p r ih => rw [tokensFrom_of_none rfl, ih, List.map_cons]

/-- The translation is the one that goes through the expression once. -/
theorem source_eq (e : Text) : source e = "^" ++ (tokens e).flatMap Token.source ++ "$" := by
  have h := foldl_replace Placeholder.all [] e
  rw [tokensFrom_nil, flatMap_source_literals, List.nil_append] at h
  rw [source, h, tokens]

end Expression
end StepAtlas
