import StepAtlas.Markup

/-
Texts that can be shown whatever stands behind them.  A text without brackets has no tags.  A text
in a pair of tags of one style leaves nothing open, and so does one text after the other.  A
backslash at the end of a text would take the meaning from a bracket behind it, so none may stand
there.
-/

namespace StepAtlas
namespace Markup

abbrev Bare (t : Text) : Prop := .scalar '[' ∉ t

theorem Bare.append {t u : Text} (ht : Bare t) (hu : Bare u) : Bare (t ++ u) := by
  rw [Bare, List.mem_append, not_or]
  exact ⟨ht, hu⟩

/-- A text has neither a bracket in it nor a backslash at its end. -/
def Calm (t : Text) : Prop := Bare t ∧ t.getLast? ≠ some (.scalar '\\')

instance (t : Text) : Decidable (Calm t) :=
  inferInstanceAs (Decidable (Bare t ∧ t.getLast? ≠ some (.scalar '\\')))

theorem Calm.of_append {t u : Text} (ht : Bare t) (hu : Calm u) (hne : u ≠ []) : Calm (t ++ u) := by
  refine ⟨ht.append hu.1, ?_⟩
  rw [List.getLast?_append, List.getLast?_eq_some_getLast hne, Option.some_or,
    ← List.getLast?_eq_some_getLast hne]
  exact hu.2

/-! ## Tags -/

theorem tagsFrom_of_bare {t : Text} (h : Bare t) (position backslashes : Nat) :
    tagsFrom position backslashes t = [] := by
  induction t generalizing position backslashes with
  | nil => rfl
  | cons p t ih =>
    rw [Bare, List.mem_cons, not_or] at h
    unfold tagsFrom
    split
    · rfl
    · rename_i heq
      cases heq
      exact ih h.2 _ _
    · rename_i heq
      cases heq
      exact absurd rfl h.1
    · rename_i heq
      cases heq
      exact ih h.2 _ _

theorem tagsFrom_cons {p : CodePoint} (hbracket : p ≠ .scalar '[') (hbackslash : p ≠ .scalar '\\')
    (position backslashes : Nat) (r : Text) :
    tagsFrom position backslashes (p :: r) = tagsFrom (position + 1) 0 r := by
  rw [tagsFrom]
  · exact hbackslash
  · exact hbracket

theorem tagsFrom_concat {t : Text} (h : Bare t) {last : CodePoint} (hbracket : last ≠ .scalar '[')
    (hbackslash : last ≠ .scalar '\\') (position backslashes : Nat) (r : Text) :
    tagsFrom position backslashes (t ++ last :: r) = tagsFrom (position + (t.length + 1)) 0 r := by
  induction t generalizing position backslashes with
  | nil => exact tagsFrom_cons hbracket hbackslash position backslashes r
  | cons p t ih =>
    have hlength : position + 1 + (t.length + 1) = position + ((p :: t).length + 1) := by
      rw [List.length_cons]
      omega
    rw [Bare, List.mem_cons, not_or] at h
    by_cases hp : p = .scalar '\\'
    · subst hp
      rw [List.cons_append, tagsFrom, ih h.2, hlength]
    · rw [List.cons_append, tagsFrom_cons (Ne.symm h.1) hp, ih h.2, hlength]

theorem Calm.tagsFrom_append {t : Text} (h : Calm t) (position : Nat) (r : Text) :
    tagsFrom position 0 (t ++ r) = tagsFrom (position + t.length) 0 r := by
  rcases List.eq_nil_or_concat t with rfl | ⟨u, last, rfl⟩
  · rfl
  · obtain ⟨hbare, hlast⟩ := h
    rw [List.concat_eq_append] at hbare hlast ⊢
    rw [Bare, List.mem_append, List.mem_singleton, not_or] at hbare
    rw [List.getLast?_concat] at hlast
    rw [List.append_assoc, List.singleton_append, List.length_append, List.length_singleton]
    exact tagsFrom_concat hbare.1 (Ne.symm hbare.2) (fun h => hlast (congrArg some h)) position 0 r

def IsBody (body : Text) : Prop :=
  body.head?.map Tag.isOpener = some true ∧
    ∀ p ∈ body, p ≠ .scalar '[' ∧ p ≠ .scalar ']' ∧ p ≠ .scalar '='

instance (body : Text) : Decidable (IsBody body) :=
  inferInstanceAs (Decidable (body.head?.map Tag.isOpener = some true ∧
    ∀ p ∈ body, p ≠ .scalar '[' ∧ p ≠ .scalar ']' ∧ p ≠ .scalar '='))

theorem body?_append {body : Text} (h : ∀ p ∈ body, p ≠ .scalar '[' ∧ p ≠ .scalar ']') (r : Text) :
    Tag.body? (body ++ .scalar ']' :: r) = some body := by
  induction body with
  | nil => rfl
  | cons p body ih =>
    obtain ⟨hopen, hclose⟩ := h p List.mem_cons_self
    rw [List.cons_append, Tag.body?]
    · rw [ih fun q hq => h q (List.mem_cons_of_mem p hq)]
      rfl
    · exact hclose
    · exact hopen

theorem IsBody.read?_eq {body : Text} (h : IsBody body) (r : Text) :
    Tag.read? (body ++ .scalar ']' :: r) = some { name := body, argument := none } := by
  cases body with
  | nil => cases h.1
  | cons p body =>
    have hp : Tag.isOpener p = true := Option.some.inj h.1
    have hname : (p :: body).takeWhile (· ≠ .scalar '=') = p :: body := by
      rw [← List.append_nil (p :: body), List.takeWhile_append_of_pos]
      · rfl
      · intro q hq
        exact decide_eq_true (h.2 q (by simpa using hq)).2.2
    have hbody := body?_append (fun q hq => ⟨(h.2 q hq).1, (h.2 q hq).2.1⟩) r
    rw [List.cons_append] at hbody ⊢
    rw [Tag.read?, if_pos hp, hbody, Option.map_some, hname]
    dsimp only
    rw [List.drop_length]

theorem IsBody.tagsFrom_eq {body : Text} (h : IsBody body) (position : Nat) (r : Text) :
    tagsFrom position 0 (.scalar '[' :: (body ++ .scalar ']' :: r)) =
      (position, { name := body, argument := none }) ::
        tagsFrom (position + 1 + (body.length + 1)) 0 r := by
  have hbare : Bare body := fun hmem => (h.2 _ hmem).1 rfl
  have hclose : CodePoint.scalar ']' ≠ .scalar '[' ∧ CodePoint.scalar ']' ≠ .scalar '\\' := by
    decide
  rw [tagsFrom, h.read?_eq, ← tagsFrom_concat hbare hclose.1 hclose.2 (position + 1) 0 r]
  rfl

/-! ## Neutral texts -/

/-- A text says nothing about what stands behind it. -/
def Neutral (t : Text) : Prop :=
  ∀ opened position r, complaintFrom? opened (tagsFrom position 0 (t ++ r)) =
    complaintFrom? opened (tagsFrom (position + t.length) 0 r)

theorem neutral_nil : Neutral [] := fun _ _ _ => rfl

theorem Neutral.append {t u : Text} (ht : Neutral t) (hu : Neutral u) : Neutral (t ++ u) := by
  intro opened position r
  rw [List.append_assoc, ht, hu, List.length_append, Nat.add_assoc]

theorem Calm.neutral {t : Text} (h : Calm t) : Neutral t := by
  intro opened position r
  rw [h.tagsFrom_append]

theorem Neutral.join {sep : Text} (hsep : Neutral sep) {pieces : List Text}
    (h : ∀ t ∈ pieces, Neutral t) : Neutral (Text.join sep pieces) := by
  induction pieces with
  | nil => exact neutral_nil
  | cons t pieces ih =>
    have ht := h t List.mem_cons_self
    cases pieces with
    | nil => simpa [Text.join] using ht
    | cons u pieces =>
      have hrest := ih fun v hv => h v (List.mem_cons_of_mem t hv)
      have heq : Text.join sep (t :: u :: pieces) = t ++ sep ++ Text.join sep (u :: pieces) := by
        simp [Text.join]
      rw [heq]
      exact (ht.append hsep).append hrest

/-- A style goes by the name that it is called by. -/
def IsStyle (name : Text) : Prop :=
  IsBody name ∧ name.head? ≠ some (.scalar '/') ∧ Text.trim name = name ∧ styleName name = name

instance (name : Text) : Decidable (IsStyle name) :=
  inferInstanceAs (Decidable
    (IsBody name ∧ name.head? ≠ some (.scalar '/') ∧ Text.trim name = name ∧ styleName name = name))

section
variable {name : Text} (h : IsStyle name) (opened : List Tag) (position : Nat)
  (rest : List (Nat × Tag))
include h

theorem IsStyle.opens :
    complaintFrom? opened ((position, { name, argument := none }) :: rest) =
      complaintFrom? ({ name, argument := none } :: opened) rest := by
  obtain ⟨-, hslash, -, hstyle⟩ := h
  rw [complaintFrom?.eq_def]
  dsimp only
  split
  · exact absurd rfl hslash
  · rw [hstyle]

theorem IsStyle.closes :
    complaintFrom? ({ name, argument := none } :: opened)
        ((position, { name := .scalar '/' :: name, argument := none }) :: rest) =
      complaintFrom? opened rest := by
  obtain ⟨hbody, -, htrim, hstyle⟩ := h
  have hne : name.isEmpty = false := by
    cases name with
    | nil => cases hbody.1
    | cons => rfl
  rw [complaintFrom?]
  simp only [htrim, hne, hstyle, close?, Bool.false_eq_true, if_false, if_true, Tag.closes]

end

/-- A text in a pair of tags of one style is neutral. -/
theorem IsStyle.neutral {name : Text} (h : IsStyle name) {t : Text} (ht : Calm t) :
    Neutral ("[" ++ name ++ "]" ++ t ++ "[/" ++ name ++ "]") := by
  intro opened position r
  have hbody : IsBody (.scalar '/' :: name) := by
    refine ⟨rfl, ?_⟩
    intro p hp
    rcases List.mem_cons.mp hp with rfl | hp
    · decide
    · exact h.1.2 p hp
  have htext : ("[" ++ name ++ "]" ++ t ++ "[/" ++ name ++ "]" : Text) ++ r =
      .scalar '[' :: (name ++ .scalar ']' :: (t ++ .scalar '[' ::
        ((.scalar '/' :: name) ++ .scalar ']' :: r))) := by
    simp [Text.ofString]
  rw [htext, h.1.tagsFrom_eq, ht.tagsFrom_append, hbody.tagsFrom_eq, h.opens, h.closes]
  congr 2
  simp [Text.ofString]
  omega

/-! ## Texts that can be shown -/

theorem Neutral.shows_append {t : Text} (h : Neutral t) {u : Text} (hu : Bare u) :
    shows (t ++ u) = true := by
  rw [shows, complaint?, tags, h, tagsFrom_of_bare hu]
  rfl

theorem Neutral.shows {t : Text} (h : Neutral t) : shows t = true := by
  rw [← List.append_nil t]
  exact h.shows_append List.not_mem_nil

theorem shows_of_bare {t : Text} (h : Bare t) : shows t = true := neutral_nil.shows_append h

end Markup
end StepAtlas
