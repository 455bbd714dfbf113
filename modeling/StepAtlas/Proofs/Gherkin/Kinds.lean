import StepAtlas.Gherkin.Line
import StepAtlas.Proofs.Text

/-
What a line can be.  Outside of doc strings and descriptions the beginning of a line settles what
kind of token it is: signs are told apart by their first code point, and the words of a language are
such that no line has the look of two titles, or of a title and a step.  Only a comment may name a
language as well.
-/

namespace StepAtlas
namespace Gherkin

/-- Whether a line looks like a token of some kind, inside a doc string or not. -/
def Line.Looks (w : Language) (opened : Option Mark) (l : Line) : Kind → Prop
  | .ending => False
  | .language => l.language?.isSome
  | .tags => l.tags?.isSome
  | .title b => (l.title? w b).isSome
  | .step => (l.step? w).isSome
  | .mark => (l.mark? opened).isSome
  | .row => l.cells?.isSome
  | .comment => l.isComment
  | .empty => l.isEmpty
  | .other => True

/-! ## The words of a language -/

/-- The kind of a line by the first code point of its body, with `other` for words of any kind. -/
def signOf : Option CodePoint → Kind
  | none => .empty
  | some (.scalar '#') => .comment
  | some (.scalar '@') => .tags
  | some (.scalar '|') => .row
  | some (.scalar '"') | some (.scalar '`') => .mark
  | some _ => .other

namespace Language

def titled (w : Language) : List (Block × Text) :=
  w.feature.map (.feature, ·) ++ w.rule.map (.rule, ·) ++ w.background.map (.background, ·) ++
    w.scenario.map (.scenario, ·) ++ w.examples.map (.examples, ·)

theorem mem_titled {w : Language} {b : Block} {word : Text} (h : word ∈ w.titles b) :
    (b, word) ∈ w.titled := by
  cases b <;> simp_all [titled, titles]

/-- A word that no sign starts and that has no colon in it. -/
def IsWord (t : Text) : Prop := signOf t.head? = .other ∧ .scalar ':' ∉ t

instance (t : Text) : Decidable (IsWord t) := inferInstanceAs (Decidable (_ ∧ _))

/-- The words of a language do not get mixed up. -/
structure Clear (w : Language) : Prop where
  titles : ∀ x ∈ w.titled, IsWord x.2
  steps : ∀ v ∈ w.steps, IsWord v
  apart : ∀ x ∈ w.titled, ∀ y ∈ w.titled, x.2 = y.2 → x.1 = y.1
  unlike : ∀ x ∈ w.titled, ∀ v ∈ w.steps, ¬ v <+: x.2

instance (w : Language) : Decidable w.Clear :=
  decidable_of_iff
    ((∀ x ∈ w.titled, IsWord x.2) ∧ (∀ v ∈ w.steps, IsWord v) ∧
      (∀ x ∈ w.titled, ∀ y ∈ w.titled, x.2 = y.2 → x.1 = y.1) ∧
      ∀ x ∈ w.titled, ∀ v ∈ w.steps, ¬ v <+: x.2)
    ⟨fun ⟨htitles, hsteps, hapart, hunlike⟩ => ⟨htitles, hsteps, hapart, hunlike⟩,
      fun h => ⟨h.titles, h.steps, h.apart, h.unlike⟩⟩

theorem clear_english : english.Clear := by decide +kernel

theorem clear_of_mem_table {others : List Language} (h : ∀ w ∈ others, w.Clear) :
    ∀ w ∈ table others, w.Clear :=
  List.forall_mem_cons.mpr ⟨clear_english, h⟩

theorem clear_of_mem_common : ∀ w ∈ common, w.Clear := by decide +kernel

end Language

/-! ## Beginnings -/

namespace Line

variable {w : Language} {l : Line} {opened : Option Mark}

theorem exists_append_of_title? {b : Block} (h : (l.title? w b).isSome) :
    ∃ word rest, (b, word) ∈ w.titled ∧ l.body = word ++ .scalar ':' :: rest := by
  obtain ⟨name, hname⟩ := Option.isSome_iff_exists.mp h
  obtain ⟨word, hword, hname⟩ := List.exists_of_findSome?_eq_some hname
  obtain ⟨rest, hrest, -⟩ := Option.map_eq_some_iff.mp hname
  have hbody := Text.after?_eq_some hrest
  rw [List.append_assoc] at hbody
  exact ⟨word, rest, Language.mem_titled hword, hbody⟩

theorem foldl_longer {init : Option (Text × Text)} {xs : List (Option (Text × Text))}
    {x : Text × Text} (h : xs.foldl longer init = some x) : init = some x ∨ some x ∈ xs := by
  induction xs generalizing init with
  | nil => exact .inl h
  | cons y xs ih =>
    rcases ih h with hinit | hx
    · have hone : longer init y = init ∨ longer init y = y := by
        rcases init with _ | a <;> rcases y with _ | b
        · exact .inl rfl
        · exact .inr rfl
        · exact .inl rfl
        · rw [longer]
          split
          · exact .inr rfl
          · exact .inl rfl
      rcases hone with hone | hone
      · exact .inl (hone ▸ hinit)
      · exact .inr (List.mem_cons.mpr (.inl (hinit.symm.trans hone)))
    · exact .inr (List.mem_cons_of_mem y hx)

theorem exists_append_of_step? (h : (l.step? w).isSome) :
    ∃ word rest, word ∈ w.steps ∧ l.body = word ++ rest := by
  obtain ⟨x, hx⟩ := Option.isSome_iff_exists.mp h
  rcases foldl_longer hx with hnone | hx
  · cases hnone
  · obtain ⟨word, hword, hx⟩ := List.mem_map.mp hx
    obtain ⟨rest, hrest, -⟩ := Option.map_eq_some_iff.mp hx
    exact ⟨word, rest, hword, Text.after?_eq_some hrest⟩

/-- The first code point of a line that looks like a token of some kind; a line that names a
language is a comment. -/
def signFor : Kind → Kind
  | .language => .comment
  | .title _ | .step => .other
  | k => k

theorem head?_of_startsWith {t beginning : Text} {p : CodePoint} (h : t.startsWith beginning = true)
    (hp : beginning.head? = some p) : t.head? = some p := by
  obtain ⟨rest, hrest⟩ := Option.isSome_iff_exists.mp h
  rw [Text.after?_eq_some hrest, List.head?_append, hp]
  rfl

theorem signOf_of_word {word rest : Text} (hword : Language.IsWord word) :
    signOf (word ++ rest).head? = .other := by
  cases word with
  | nil => cases hword.1
  | cons p word => exact hword.1

theorem Looks.sign {k : Kind} (hw : w.Clear) (h : l.Looks w opened k) (hk : k ≠ .other) :
    signOf l.body.head? = signFor k := by
  cases k with
  | ending => cases h
  | other => exact absurd rfl hk
  | language =>
    obtain ⟨name, hname⟩ := Option.isSome_iff_exists.mp h
    obtain ⟨rest, hrest, -⟩ := Option.bind_eq_some_iff.mp hname
    rw [Text.after?_eq_some hrest]
    rfl
  | tags =>
    have hstart : l.body.startsWith "@" = true := by
      by_contra hstart
      simp [Looks, tags?, hstart] at h
    rw [head?_of_startsWith hstart rfl]
    rfl
  | title b =>
    obtain ⟨word, rest, hword, hbody⟩ := exists_append_of_title? h
    rw [hbody]
    exact signOf_of_word (hw.titles _ hword)
  | step =>
    obtain ⟨word, rest, hword, hbody⟩ := exists_append_of_step? h
    rw [hbody]
    exact signOf_of_word (hw.steps _ hword)
  | mark =>
    obtain ⟨m, hm⟩ := Option.isSome_iff_exists.mp h
    have hstart : l.body.startsWith m.text = true := by
      unfold mark? at hm
      simpa using List.find?_some hm
    cases m with
    | quotes | backticks =>
      rw [head?_of_startsWith hstart rfl]
      rfl
  | row =>
    have hstart : l.body.startsWith "|" = true := by
      by_contra hstart
      simp [Looks, cells?, hstart] at h
    rw [head?_of_startsWith hstart rfl]
    rfl
  | comment =>
    rw [head?_of_startsWith h rfl]
    rfl
  | empty =>
    have hbody : l.body = [] := of_decide_eq_true h
    rw [hbody]
    rfl

/-- A line has the look of one title only. -/
theorem title_unique {b c : Block} (hw : w.Clear) (hb : (l.title? w b).isSome)
    (hc : (l.title? w c).isSome) :
    b = c := by
  obtain ⟨u, r, hu, hbody⟩ := exists_append_of_title? hb
  obtain ⟨v, r', hv, hbody'⟩ := exists_append_of_title? hc
  -- no word has a colon in it, so the word is what stands before the first one
  have hsplit : u :: Text.splitAt (.scalar ':') r = v :: Text.splitAt (.scalar ':') r' := by
    rw [← Text.splitAt_append (hw.titles _ hu).2, ← Text.splitAt_append (hw.titles _ hv).2, ← hbody,
      ← hbody']
  exact hw.apart _ hu _ hv (List.cons.inj hsplit).1

theorem not_title_and_step {b : Block} (hw : w.Clear) (hb : (l.title? w b).isSome) :
    ¬ (l.step? w).isSome := by
  intro hstep
  obtain ⟨u, r, hu, hbody⟩ := exists_append_of_title? hb
  obtain ⟨v, r', hv, hbody'⟩ := exists_append_of_step? hstep
  rcases List.append_eq_append_iff.mp (hbody'.symm.trans hbody) with ⟨a, hu', -⟩ | ⟨a, hv', ha⟩
  · exact hw.unlike _ hu v hv ⟨a, hu'.symm⟩
  · cases a with
    | nil => exact hw.unlike _ hu v hv ⟨[], by simpa using hv'⟩
    | cons p a =>
      -- the colon behind the title would lie within the step word
      cases ha
      exact (hw.steps v hv).2 (by simp [hv'])

theorem title_or_step {k : Kind} (h : signFor k = .other) (hk : k ≠ .other) :
    (∃ b, k = .title b) ∨ k = .step := by
  cases k <;> simp_all [signFor]

theorem eq_of_signFor {k k' : Kind} (h : signFor k = signFor k') (hword : signFor k ≠ .other) :
    k = k' ∨ k = .language ∧ k' = .comment ∨ k = .comment ∧ k' = .language := by
  cases k <;> cases k' <;> simp_all [signFor]

/-- A line looks like a token of one kind at most, apart from comments that name a language. -/
theorem Looks.unique {k k' : Kind} (hw : w.Clear) (h : l.Looks w opened k)
    (h' : l.Looks w opened k') (hk : k ≠ .other) (hk' : k' ≠ .other) :
    k = k' ∨ k = .language ∧ k' = .comment ∨ k = .comment ∧ k' = .language := by
  have hsign : signFor k = signFor k' := (h.sign hw hk).symm.trans (h'.sign hw hk')
  by_cases hword : signFor k = .other
  · obtain ⟨b, rfl⟩ | rfl := title_or_step hword hk
    · obtain ⟨c, rfl⟩ | rfl := title_or_step (hsign.symm.trans hword) hk'
      · exact .inl (by rw [title_unique hw h h'])
      · exact absurd h' (not_title_and_step hw h)
    · obtain ⟨c, rfl⟩ | rfl := title_or_step (hsign.symm.trans hword) hk'
      · exact absurd h (not_title_and_step hw h')
      · exact .inl rfl
  · exact eq_of_signFor hsign hword

end Line

end Gherkin
end StepAtlas
