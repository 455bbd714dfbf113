import StepAtlas.Proofs.Glob.Braces

/-
What a pattern with braces stands for.  A pattern is a sequence of literals and groups, and each
option of a group is such a sequence again.  It stands for the texts that come about when one option
is chosen in each group.

Expanding the text of a sequence takes the first group without groups inside.  The texts that this
gives are texts of sequences again, and together these stand for the same.  If no group stands in
another, they do so in the same order.
-/

namespace StepAtlas
namespace Glob

/-- Whether a code point may stand in a literal: braces may not, and commas may not inside of a
group. -/
def isLiteral (inner : Bool) (p : CodePoint) : Bool :=
  !isBrace p && !(inner && decide (p = .scalar ','))

mutual

/-- Literals and groups one after the other, inside of a group or not. -/
inductive Sequence : (inner : Bool) → Type where
  | done {inner : Bool} : Sequence inner
  | literal {inner : Bool} (t : Text) (h : ∀ p ∈ t, isLiteral inner p = true)
      (rest : Sequence inner) : Sequence inner
  /-- A group has two options at least. -/
  | group {inner : Bool} (first : Sequence true) (others : Options) (rest : Sequence inner) :
      Sequence inner

inductive Options : Type where
  | last (option : Sequence true) : Options
  | more (option : Sequence true) (rest : Options) : Options

end

mutual

def Sequence.text {inner : Bool} : Sequence inner → Text
  | .done => []
  | .literal t _ rest => t ++ rest.text
  | .group first others rest =>
    .scalar '\x7b' :: (first.text ++ .scalar ',' :: (others.text ++ .scalar '\x7d' :: rest.text))

def Options.text : Options → Text
  | .last option => option.text
  | .more option rest => option.text ++ .scalar ',' :: rest.text

end

mutual

/-- The texts that a sequence stands for: one option is chosen in each group, and the choice in the
first group changes last. -/
def Sequence.choices {inner : Bool} : Sequence inner → List Text
  | .done => [[]]
  | .literal t _ rest => rest.choices.map (t ++ ·)
  | .group first others rest =>
    (first.choices ++ others.choices).flatMap fun s => rest.choices.map (s ++ ·)

def Options.choices : Options → List Text
  | .last option => option.choices
  | .more option rest => option.choices ++ rest.choices

end

def Sequence.hasGroup {inner : Bool} : Sequence inner → Bool
  | .done => false
  | .literal _ _ rest => rest.hasGroup
  | .group _ _ _ => true

def Options.hasGroup : Options → Bool
  | .last option => option.hasGroup
  | .more option rest => option.hasGroup || rest.hasGroup

def Sequence.isFlat {inner : Bool} : Sequence inner → Bool
  | .done => true
  | .literal _ _ rest => rest.isFlat
  | .group first others rest => !first.hasGroup && !others.hasGroup && rest.isFlat

def Options.toList : Options → List (Sequence true)
  | .last option => [option]
  | .more option rest => option :: rest.toList

theorem isLiteral_of_inner {i j : Bool} (h : j = true → i = true) {p : CodePoint}
    (hp : isLiteral i p = true) :
    isLiteral j p = true := by
  cases i <;> cases j <;> simp_all [isLiteral]

/-- One sequence behind another.  What may stand inside of a group may stand outside as well. -/
def Sequence.append {i j : Bool} (h : j = true → i = true) : Sequence i → Sequence j → Sequence j
  | .done, s => s
  | .literal t ht rest, s =>
    .literal t (fun p hp => isLiteral_of_inner h (ht p hp)) (rest.append h s)
  | .group first others rest, s => .group first others (rest.append h s)

mutual

/-- The sequences with an option in the place of the first group that has no groups inside. -/
def Sequence.openings {inner : Bool} : Sequence inner → List (Sequence inner)
  | .done => []
  | .literal t h rest => rest.openings.map (.literal t h)
  | .group first others rest =>
    if first.hasGroup then first.openings.map (.group · others rest)
    else if others.hasGroup then others.openings.map (.group first · rest)
    else (first :: others.toList).map fun option => option.append (fun _ => rfl) rest

def Options.openings : Options → List Options
  | .last option => option.openings.map .last
  | .more option rest =>
    if option.hasGroup then option.openings.map (.more · rest) else rest.openings.map (.more option)

end

/-! ## Sequences without groups -/

theorem isBrace_of_isLiteral {inner : Bool} {p : CodePoint} (h : isLiteral inner p = true) :
    isBrace p = false := by
  have hand := Bool.and_eq_true_iff.mp h
  simpa using hand.1

theorem Sequence.isLiteral_text {inner : Bool} :
    (s : Sequence inner) → s.hasGroup = false → ∀ p ∈ s.text, isLiteral inner p = true
  | .done, _, p, hp => by cases hp
  | .literal t h rest, hg, p, hp => by
    rw [text] at hp
    rcases List.mem_append.mp hp with hp | hp
    · exact h p hp
    · exact rest.isLiteral_text hg p hp
  | .group _ _ _, hg, _, _ => by cases hg

theorem Sequence.not_isBrace_text {inner : Bool} {s : Sequence inner} (h : s.hasGroup = false) :
    ∀ p ∈ s.text, isBrace p = false :=
  fun p hp => isBrace_of_isLiteral (s.isLiteral_text h p hp)

theorem Sequence.not_isBrace_text_comma {inner : Bool} {s : Sequence inner}
    (h : s.hasGroup = false) :
    ∀ p ∈ s.text ++ [.scalar ','], isBrace p = false := by
  intro p hp
  rcases List.mem_append.mp hp with hp | hp
  · exact not_isBrace_text h p hp
  · rw [List.mem_singleton.mp hp]
    rfl

theorem Sequence.comma_not_mem_text {s : Sequence true} (h : s.hasGroup = false) :
    .scalar ',' ∉ s.text :=
  fun hmem => by cases s.isLiteral_text h _ hmem

theorem Options.not_isBrace_text :
    (os : Options) → os.hasGroup = false → ∀ p ∈ os.text, isBrace p = false
  | .last option, h, p, hp => Sequence.not_isBrace_text h p hp
  | .more option rest, h, p, hp => by
    obtain ⟨ho, hr⟩ := Bool.or_eq_false_iff.mp h
    rw [text] at hp
    rcases List.mem_append.mp hp with hp | hp
    · exact Sequence.not_isBrace_text ho p hp
    · rcases List.mem_cons.mp hp with rfl | hp
      · rfl
      · exact rest.not_isBrace_text hr p hp

theorem Options.hasGroup_of_mem {option : Sequence true} :
    (os : Options) → os.hasGroup = false → option ∈ os.toList → option.hasGroup = false
  | .last _, h, hmem => by rwa [List.mem_singleton.mp hmem]
  | .more _ rest, h, hmem => by
    obtain ⟨ho, hr⟩ := Bool.or_eq_false_iff.mp h
    rcases List.mem_cons.mp hmem with rfl | hmem
    · exact ho
    · exact rest.hasGroup_of_mem hr hmem

theorem Options.splitAt_text : (os : Options) → os.hasGroup = false →
    Text.splitAt (.scalar ',') os.text = os.toList.map Sequence.text
  | .last option, h => Text.splitAt_of_not_mem (Sequence.comma_not_mem_text h)
  | .more option rest, h => by
    obtain ⟨ho, hr⟩ := Bool.or_eq_false_iff.mp h
    rw [text, Text.splitAt_append (Sequence.comma_not_mem_text ho), rest.splitAt_text hr]
    rfl

theorem Sequence.choices_of_not_hasGroup {inner : Bool} :
    (s : Sequence inner) → s.hasGroup = false → s.choices = [s.text]
  | .done, _ => rfl
  | .literal t h rest, hg => by
    rw [choices, rest.choices_of_not_hasGroup hg]
    rfl
  | .group _ _ _, hg => by cases hg

/-! ## One sequence behind another -/

theorem Sequence.text_append {i j : Bool} (h : j = true → i = true) :
    (s : Sequence i) → (u : Sequence j) → (s.append h u).text = s.text ++ u.text
  | .done, u => rfl
  | .literal t ht rest, u => by
    rw [append, text, rest.text_append h u, text, List.append_assoc]
  | .group first others rest, u => by
    rw [append, text, rest.text_append h u, text]
    simp

theorem Sequence.choices_append {i j : Bool} (h : j = true → i = true) :
    (s : Sequence i) → (u : Sequence j) →
      (s.append h u).choices = s.choices.flatMap fun a => u.choices.map (a ++ ·)
  | .done, u => by simp [append, choices]
  | .literal t ht rest, u => by
    rw [append, choices, rest.choices_append h u, choices, List.map_flatMap, List.flatMap_map]
    simp [Function.comp_def]
  | .group first others rest, u => by
    rw [append, choices, rest.choices_append h u, choices, List.flatMap_assoc]
    simp [List.map_flatMap, List.flatMap_map, Function.comp_def]

theorem Sequence.isFlat_append {i j : Bool} (h : j = true → i = true) :
    (s : Sequence i) → (u : Sequence j) → s.hasGroup = false → (s.append h u).isFlat = u.isFlat
  | .done, _, _ => rfl
  | .literal _ _ rest, u, hg => rest.isFlat_append h u hg
  | .group _ _ _, _, hg => by cases hg

theorem Options.choices_eq : (os : Options) → os.choices = os.toList.flatMap Sequence.choices
  | .last option => by simp [choices, toList]
  | .more option rest => by rw [choices, rest.choices_eq, toList, List.flatMap_cons]

/-! ## The group that is taken -/

def StartsOpen (t : Text) : Prop := ∃ s r, t = s ++ .scalar '\x7b' :: r ∧ ∀ p ∈ s, isBrace p = false

theorem StartsOpen.append {t : Text} (h : StartsOpen t) (u : Text) : StartsOpen (t ++ u) := by
  obtain ⟨s, r, rfl, hs⟩ := h
  exact ⟨s, r ++ u, by simp, hs⟩

theorem StartsOpen.append_left {s t : Text} (hs : ∀ p ∈ s, isBrace p = false) (h : StartsOpen t) :
    StartsOpen (s ++ t) := by
  obtain ⟨s', r, rfl, hs'⟩ := h
  exact ⟨s ++ s', r, by simp, fun p hp => (List.mem_append.mp hp).elim (hs p) (hs' p)⟩

/-- The texts with an option in the place of the first group of a text. -/
def Opens (t : Text) (ts : List Text) : Prop :=
  ∃ head body rest, group? t = some (head, body, rest) ∧
    (Text.splitAt (.scalar ',') body).map (fun option => head ++ option ++ rest) = ts

theorem Opens.append {t : Text} {ts : List Text} (h : Opens t ts) (u : Text) :
    Opens (t ++ u) (ts.map (· ++ u)) := by
  obtain ⟨head, body, rest, hg, rfl⟩ := h
  refine ⟨head, body, rest ++ u, group?_append hg u, ?_⟩
  simp

theorem Opens.append_left {s t : Text} (hs : ∀ p ∈ s, isBrace p = false) {ts : List Text}
    (h : Opens t ts) :
    Opens (s ++ t) (ts.map (s ++ ·)) := by
  obtain ⟨head, body, rest, hg, rfl⟩ := h
  refine ⟨s ++ head, body, rest, by rw [group?_append_left hs, hg]; rfl, ?_⟩
  simp

/-- A brace that is followed by an opening one is not the one of the first group. -/
theorem Opens.cons {t : Text} (ht : StartsOpen t) {ts : List Text} (h : Opens t ts) :
    Opens (.scalar '\x7b' :: t) (ts.map (.scalar '\x7b' :: ·)) := by
  obtain ⟨s, r, rfl, hs⟩ := ht
  obtain ⟨head, body, rest, hg, rfl⟩ := h
  refine ⟨.scalar '\x7b' :: head, body, rest, ?_, by simp⟩
  rw [group?_cons_of_not, hg]
  · rfl
  · intro body' rest' hb
    rw [body?_eq_none hs] at hb
    cases hb

/-- A group without braces inside is the first one of a text that it starts. -/
theorem opens_group {body : Text} (hb : ∀ p ∈ body, isBrace p = false) (hc : .scalar ',' ∈ body)
    (rest : Text) :
    Opens (.scalar '\x7b' :: (body ++ .scalar '\x7d' :: rest))
      ((Text.splitAt (.scalar ',') body).map (· ++ rest)) :=
  ⟨[], body, rest, group?_cons_of_body (body?_eq_some_iff.mpr ⟨rfl, hb⟩) hc, rfl⟩

mutual

theorem Sequence.opens {inner : Bool} : (s : Sequence inner) → s.hasGroup = true →
    StartsOpen s.text ∧ Opens s.text (s.openings.map Sequence.text)
  | .done, hg => by cases hg
  | .literal t h rest, hg => by
    obtain ⟨hstarts, hopens⟩ := rest.opens hg
    have ht : ∀ p ∈ t, isBrace p = false := fun p hp => isBrace_of_isLiteral (h p hp)
    refine ⟨hstarts.append_left ht, ?_⟩
    have hrest := hopens.append_left ht
    rw [List.map_map] at hrest
    rw [Sequence.openings, List.map_map]
    exact hrest
  | .group first others rest, _ => by
    refine ⟨⟨[], _, rfl, by simp⟩, ?_⟩
    cases hf : first.hasGroup with
    | true =>
      obtain ⟨hstarts, hopens⟩ := first.opens hf
      have hbehind := hopens.append (.scalar ',' :: (others.text ++ .scalar '\x7d' :: rest.text))
      have hgroup := hbehind.cons (hstarts.append _)
      rw [Sequence.openings, if_pos hf, List.map_map]
      rw [List.map_map, List.map_map] at hgroup
      exact hgroup
    | false =>
      cases ho : others.hasGroup with
      | true =>
        -- The text of the first option and the comma behind it are passed over.
        obtain ⟨hstarts, hopens⟩ := others.opens ho
        have hskip := Sequence.not_isBrace_text_comma hf
        have hstarts' := (hstarts.append (.scalar '\x7d' :: rest.text)).append_left hskip
        have hgroup :=
          ((hopens.append (.scalar '\x7d' :: rest.text)).append_left hskip).cons hstarts'
        rw [Sequence.openings, hf, if_neg (by simp), if_pos ho, List.map_map]
        rw [List.map_map, List.map_map, List.map_map] at hgroup
        simpa [Sequence.text, Function.comp_def] using hgroup
      | false =>
        have hbody : ∀ p ∈ first.text ++ .scalar ',' :: others.text, isBrace p = false := by
          intro p hp
          rcases List.mem_append.mp hp with hp | hp
          · exact Sequence.not_isBrace_text hf p hp
          · rcases List.mem_cons.mp hp with rfl | hp
            · rfl
            · exact others.not_isBrace_text ho p hp
        have hgroup := opens_group hbody (by simp) rest.text
        rw [Text.splitAt_append (Sequence.comma_not_mem_text hf), others.splitAt_text ho] at hgroup
        rw [Sequence.openings, hf, ho, if_neg (by simp), if_neg (by simp)]
        simpa [Sequence.text, Sequence.text_append, Function.comp_def] using hgroup

theorem Options.opens : (os : Options) → os.hasGroup = true →
    StartsOpen os.text ∧ Opens os.text (os.openings.map Options.text)
  | .last option, hg => by
    obtain ⟨hstarts, hopens⟩ := option.opens hg
    refine ⟨hstarts, ?_⟩
    rw [Options.openings, List.map_map]
    exact hopens
  | .more option rest, hg => by
    cases ho : option.hasGroup with
    | true =>
      obtain ⟨hstarts, hopens⟩ := option.opens ho
      refine ⟨hstarts.append _, ?_⟩
      have hmore := hopens.append (.scalar ',' :: rest.text)
      rw [Options.openings, if_pos ho, List.map_map]
      rw [List.map_map] at hmore
      exact hmore
    | false =>
      have hr : rest.hasGroup = true := by simpa [Options.hasGroup, ho] using hg
      obtain ⟨hstarts, hopens⟩ := rest.opens hr
      have hskip := Sequence.not_isBrace_text_comma ho
      have hstarts' := hstarts.append_left hskip
      have hmore := hopens.append_left hskip
      rw [Options.openings, ho, if_neg (by simp), List.map_map]
      rw [List.map_map] at hmore
      refine ⟨?_, ?_⟩
      · simpa [Options.text] using hstarts'
      · simpa [Options.text, Function.comp_def] using hmore

end

theorem Opens.expand_eq {t : Text} {ts : List Text} (h : Opens t ts) :
    expand t = (ts.flatMap expand).eraseDups := by
  obtain ⟨head, body, rest, hg, rfl⟩ := h
  rw [expand_of_group hg, List.flatMap_map]

theorem Opens.leads {t t' : Text} {ts : List Text} (h : Opens t ts) (ht : t' ∈ ts) :
    Leads t t' := by
  obtain ⟨head, body, rest, hg, rfl⟩ := h
  obtain ⟨option, ho, rfl⟩ := List.mem_map.mp ht
  exact ⟨head, body, rest, hg, option, ho, rfl⟩

theorem Opens.exists_of_map {α : Type} {t : Text} {f : α → Text} {xs : List α}
    (h : Opens t (xs.map f)) :
    ∃ x, x ∈ xs := by
  obtain ⟨head, body, rest, -, hmap⟩ := h
  refine List.exists_mem_of_ne_nil xs ?_
  rintro rfl
  exact Text.splitAt_ne_nil _ _ (List.map_eq_nil_iff.mp hmap)

theorem Sequence.exists_opening {inner : Bool} (s : Sequence inner) (h : s.hasGroup = true) :
    ∃ q, q ∈ s.openings :=
  (s.opens h).2.exists_of_map

theorem Options.exists_opening (os : Options) (h : os.hasGroup = true) : ∃ q, q ∈ os.openings :=
  (os.opens h).2.exists_of_map

/-! ## The same alternatives -/

theorem Sequence.mem_choices_group {inner : Bool} {first : Sequence true} {others : Options}
    {rest : Sequence inner} {t : Text} : t ∈ (Sequence.group first others rest).choices ↔
      ∃ a b, (a ∈ first.choices ∨ a ∈ others.choices) ∧ b ∈ rest.choices ∧ a ++ b = t := by
  simp only [choices, List.mem_flatMap, List.mem_append, List.mem_map]
  grind

/-- A group stands for what its options stand for in its place. -/
theorem Sequence.choices_group {inner : Bool} (first : Sequence true) (others : Options)
    (rest : Sequence inner) :
    (Sequence.group first others rest).choices =
      ((first :: others.toList).map fun option => option.append (fun _ => rfl) rest).flatMap
      Sequence.choices := by
  rw [List.flatMap_map]
  simp only [choices_append]
  rw [← List.flatMap_assoc, List.flatMap_cons, ← others.choices_eq, choices]

mutual

theorem Sequence.mem_choices_iff {inner : Bool} :
    (s : Sequence inner) → s.hasGroup = true → (t : Text) →
    (t ∈ s.choices ↔ ∃ q ∈ s.openings, t ∈ q.choices)
  | .done, hg, _ => by cases hg
  | .literal t₀ h rest, hg, t => by
    simp only [Sequence.choices, Sequence.openings, List.mem_map, rest.mem_choices_iff hg]
    grind [Sequence.choices]
  | .group first others rest, _, t => by
    cases hf : first.hasGroup with
    | true =>
      obtain ⟨q₀, hq₀⟩ := first.exists_opening hf
      rw [Sequence.openings, if_pos hf, Sequence.mem_choices_group]
      simp only [first.mem_choices_iff hf, List.mem_map, exists_exists_and_eq_and,
        Sequence.mem_choices_group]
      grind
    | false =>
      cases ho : others.hasGroup with
      | true =>
        obtain ⟨q₀, hq₀⟩ := others.exists_opening ho
        rw [Sequence.openings, hf, if_neg (by simp), if_pos ho, Sequence.mem_choices_group]
        simp only [others.mem_choices_iff ho, List.mem_map, exists_exists_and_eq_and,
          Sequence.mem_choices_group]
        grind
      | false =>
        rw [Sequence.openings, hf, ho, if_neg (by simp), if_neg (by simp), Sequence.choices_group,
          List.mem_flatMap]

theorem Options.mem_choices_iff : (os : Options) → os.hasGroup = true → (t : Text) →
    (t ∈ os.choices ↔ ∃ q ∈ os.openings, t ∈ q.choices)
  | .last option, hg, t => by
    simp only [Options.choices, Options.openings, List.mem_map, exists_exists_and_eq_and]
    exact option.mem_choices_iff hg t
  | .more option rest, hg, t => by
    rw [Options.choices, List.mem_append]
    cases ho : option.hasGroup with
    | true =>
      obtain ⟨q₀, hq₀⟩ := option.exists_opening ho
      rw [Options.openings, if_pos ho]
      simp only [option.mem_choices_iff ho, List.mem_map, exists_exists_and_eq_and, Options.choices,
        List.mem_append]
      grind
    | false =>
      have hr : rest.hasGroup = true := by simpa [Options.hasGroup, ho] using hg
      obtain ⟨q₀, hq₀⟩ := rest.exists_opening hr
      rw [Options.openings, ho, if_neg (by simp)]
      simp only [rest.mem_choices_iff hr, List.mem_map, exists_exists_and_eq_and, Options.choices,
        List.mem_append]
      grind

end

theorem Sequence.group?_text {inner : Bool} {s : Sequence inner} (h : s.hasGroup = false) :
    group? s.text = none :=
  group?_eq_none fun hmem => by cases not_isBrace_text h _ hmem

/-- Expanding the text of a sequence gives what the sequence stands for. -/
theorem Sequence.mem_expand_text {inner : Bool} (s : Sequence inner) (t : Text) :
    t ∈ expand s.text ↔ t ∈ s.choices := by
  -- The texts of the openings are expanded next, and each of them has fewer braces.
  induction htext : s.text using leads_wellFounded.induction generalizing s with
  | _ u ih =>
    subst htext
    cases hg : s.hasGroup with
    | false => rw [expand_of_none (group?_text hg), s.choices_of_not_hasGroup hg]
    | true =>
      have hopens := (s.opens hg).2
      rw [hopens.expand_eq, List.mem_eraseDups, List.flatMap_map, List.mem_flatMap,
        s.mem_choices_iff hg t]
      refine exists_congr fun q => and_congr_right fun hq => ?_
      exact ih q.text (hopens.leads (List.mem_map_of_mem hq)) q rfl

/-! ## The same order -/

theorem Sequence.choices_of_isFlat {inner : Bool} :
    (s : Sequence inner) → s.hasGroup = true → s.isFlat = true →
    s.choices = s.openings.flatMap Sequence.choices ∧ ∀ q ∈ s.openings, q.isFlat = true
  | .done, hg, _ => by cases hg
  | .literal t h rest, hg, hflat => by
    obtain ⟨hchoices, hopenings⟩ := rest.choices_of_isFlat hg hflat
    constructor
    · rw [choices, openings, hchoices, List.map_flatMap, List.flatMap_map]
      rfl
    · intro q hq
      obtain ⟨q', hq', rfl⟩ := List.mem_map.mp hq
      exact hopenings q' hq'
  | .group first others rest, _, hflat => by
    simp only [isFlat, Bool.and_eq_true, Bool.not_eq_true'] at hflat
    obtain ⟨⟨hf, ho⟩, hr⟩ := hflat
    rw [openings, hf, ho, if_neg (by simp), if_neg (by simp)]
    refine ⟨choices_group first others rest, ?_⟩
    intro q hq
    obtain ⟨option, hoption, rfl⟩ := List.mem_map.mp hq
    have hplain : option.hasGroup = false := by
      rcases List.mem_cons.mp hoption with rfl | hoption
      · exact hf
      · exact others.hasGroup_of_mem ho hoption
    rw [isFlat_append _ _ _ hplain, hr]

theorem eraseDups_filter {α : Type} [BEq α] [LawfulBEq α] (p : α → Bool) (xs : List α) :
    (xs.filter p).eraseDups = xs.eraseDups.filter p := by
  induction h : xs.length using Nat.strong_induction_on generalizing xs with
  | _ n ih =>
    cases xs with
    | nil => simp
    | cons x xs =>
      have hlt : (xs.filter fun y => !y == x).length < n := by
        rw [← h, List.length_cons]
        exact Nat.lt_succ_of_le (List.length_filter_le _ _)
      have hrest := ih _ hlt _ rfl
      rw [List.eraseDups_cons, List.filter_cons, List.filter_cons]
      split
      · rw [List.eraseDups_cons, List.filter_comm, hrest]
      · rename_i hx
        rw [← hrest, List.filter_filter]
        congr 1
        refine List.filter_congr fun y _ => ?_
        by_cases hy : y = x
        · subst hy
          simpa using hx
        · simp [hy]

theorem eraseDups_of_nodup {α : Type} [BEq α] [LawfulBEq α] {xs : List α} (h : xs.Nodup) :
    xs.eraseDups = xs := by
  induction xs with
  | nil => rfl
  | cons x xs ih =>
    obtain ⟨hx, hxs⟩ := List.nodup_cons.mp h
    rw [List.eraseDups_cons, List.filter_eq_self.mpr, ih hxs]
    intro y hy
    simpa using fun heq : y = x => hx (heq ▸ hy)

/-- A later duplicate may be taken away in a part first. -/
theorem eraseDups_append_eraseDups {α : Type} [BEq α] [LawfulBEq α] (xs ys : List α) :
    (xs.eraseDups ++ ys.eraseDups).eraseDups = (xs ++ ys).eraseDups := by
  have hremove : ∀ zs : List α, zs.removeAll xs.eraseDups = zs.removeAll xs := by
    intro zs
    refine List.filter_congr fun z _ => ?_
    rw [Bool.eq_iff_iff]
    simp
  rw [List.eraseDups_append, List.eraseDups_append, eraseDups_of_nodup (nodup_eraseDups xs),
    hremove]
  unfold List.removeAll
  rw [eraseDups_filter, eraseDups_filter, eraseDups_of_nodup (nodup_eraseDups ys)]

theorem eraseDups_flatMap_eraseDups {α β : Type} [BEq β] [LawfulBEq β] (f : α → List β)
    (xs : List α) :
    (xs.flatMap fun x => (f x).eraseDups).eraseDups = (xs.flatMap f).eraseDups := by
  induction xs with
  | nil => rfl
  | cons x xs ih =>
    rw [List.flatMap_cons, List.flatMap_cons, ← eraseDups_append_eraseDups, ih,
      eraseDups_of_nodup (nodup_eraseDups _), eraseDups_append_eraseDups]

/-- If no group stands in another, expanding the text of a sequence goes through the groups from
left to right. -/
theorem Sequence.expand_text_of_isFlat {inner : Bool} (s : Sequence inner)
    (hflat : s.isFlat = true) :
    expand s.text = s.choices.eraseDups := by
  induction htext : s.text using leads_wellFounded.induction generalizing s with
  | _ u ih =>
    subst htext
    cases hg : s.hasGroup with
    | false =>
      rw [expand_of_none (group?_text hg), s.choices_of_not_hasGroup hg,
        eraseDups_of_nodup (List.nodup_singleton _)]
    | true =>
      have hopens := (s.opens hg).2
      obtain ⟨hchoices, hopenings⟩ := s.choices_of_isFlat hg hflat
      rw [hopens.expand_eq, hchoices, ← eraseDups_flatMap_eraseDups Sequence.choices,
        List.flatMap_map]
      congr 1
      refine List.flatMap_congr fun q hq => ?_
      exact ih q.text (hopens.leads (List.mem_map_of_mem hq)) q (hopenings q hq) rfl

/-- Expanding the text of a sequence gives what the sequence stands for, each text once, and in the
order of the groups if none stands in another.  Any text can be expanded: the recursion ends, it
gives something, and there is nothing left to expand in what it gives. -/
theorem expand_denotes :
    (∀ s : Sequence false,
      (expand s.text).Nodup ∧ (∀ t, t ∈ expand s.text ↔ t ∈ s.choices) ∧
        (s.isFlat = true → expand s.text = s.choices.eraseDups)) ∧
      (WellFounded fun t' t => Leads t t') ∧
      ∀ t : Text,
        (expand t = match group? t with
          | none => [t]
          | some (head, body, rest) =>
            ((Text.splitAt (.scalar ',') body).flatMap fun option =>
              expand (head ++ option ++ rest)).eraseDups) ∧
        expand t ≠ [] ∧ ∀ p ∈ expand t, expand p = [p] := by
  refine ⟨fun s => ⟨expand_nodup _, s.mem_expand_text, s.expand_text_of_isFlat⟩, leads_wellFounded,
    fun t => ⟨?_, ?_⟩⟩
  · cases h : group? t with
    | none => exact expand_of_none h
    | some found => exact expand_of_group h
  · obtain ⟨hne, hnone⟩ := expand_ne_nil t
    exact ⟨hne, fun p hp => expand_of_none (hnone p hp)⟩

def nestedSequence : Sequence false :=
  .literal "a," (by decide)
    (.group (.literal "b" (by decide) .done)
      (.last (.group .done (.last (.literal "c" (by decide) .done))
        (.literal "b" (by decide) .done)))
      (.literal "/" (by decide) .done))

def flatSequence : Sequence false :=
  .group .done (.last (.literal "a" (by decide) .done))
    (.group (.literal "a" (by decide) .done) (.last .done) .done)

theorem expand_denotes_nested :
    (∀ p ∈ expand "a,\x7bb,\x7b,c\x7db\x7d/", expand p = [p]) ∧
      (∀ t, t ∈ expand "a,\x7bb,\x7b,c\x7db\x7d/" ↔ t ∈ (["a,b/", "a,b/", "a,cb/"] : List Text)) ∧
      expand "\x7b,a\x7d\x7ba,\x7d" = (["a", "", "aa"] : List Text) := by
  have hnested := (expand_denotes.1 nestedSequence).2.1
  have hflat := (expand_denotes.1 flatSequence).2.2 (by decide)
  exact ⟨(expand_denotes.2.2 _).2.2, hnested, hflat⟩

end Glob
end StepAtlas
