import StepAtlas.Proofs.Gherkin.Layout
import StepAtlas.Proofs.Text

/-
Reading what was written.  The reader is followed line by line through the canonical layout of a
feature source.  `Reads` says what some lines do to a reader, whatever lines come behind them; tags
need the line behind them, so they are read together with the title that they belong to.

Between two blocks the reader is in one of few states, and in all of them the next block is read
alike.  In the end the entries of the reader are those of the placed scenarios, one after the other,
and they give the scenarios back.
-/

namespace StepAtlas

namespace Gherkin

theorem Line.uncommented_of_not_mem {t : Text} (h : .scalar '#' ∉ t) : uncommented t = t := by
  fun_induction uncommented t with
  | case1 p q r hc =>
    simp only [Bool.and_eq_true, decide_eq_true_eq] at hc
    exact absurd (by simp [hc.2]) h
  | case2 p q r hc ih => rw [ih fun hm => h (List.mem_cons_of_mem _ hm)]
  | case3 t ht => rfl

/-! ## Lines with numbers -/

def numbered (n : Nat) : List Text → List Line
  | [] => []
  | text :: texts => { number := n, text } :: numbered (n + 1) texts

theorem mapIdx_eq_numbered (n : Nat) (texts : List Text) :
    texts.mapIdx (fun i text => ({ number := i + n, text } : Line)) = numbered n texts := by
  induction texts generalizing n with
  | nil => rfl
  | cons text texts ih =>
    rw [List.mapIdx_cons, numbered, ← ih, Nat.zero_add]
    simp only [Nat.add_assoc, Nat.add_comm 1]

theorem numbered_append (n : Nat) (ts us : List Text) :
    numbered n (ts ++ us) = numbered n ts ++ numbered (n + ts.length) us := by
  induction ts generalizing n with
  | nil => rfl
  | cons t ts ih =>
    rw [List.cons_append, numbered, ih, numbered, List.cons_append, List.length_cons,
      Nat.add_right_comm n]
    rfl

/-- The lines of a file whose lines are each ended. -/
theorem Line.ofText_flatMap {ts : List Text} (h : ∀ t ∈ ts, .scalar '\n' ∉ t) :
    Line.ofText (ts.flatMap fun t => t ++ [.scalar '\n']) = numbered 1 ts := by
  rw [Line.ofText, Text.splitAt_flatMap h]
  simp only [List.getLast?_append, List.getLast?_singleton, Option.some_or, if_true,
    List.dropLast_concat]
  exact mapIdx_eq_numbered 1 ts

/-! ## Tags -/

def behindSign (t : Tag) : List Tag → Text
  | [] => t.word
  | u :: tags => t.word ++ .scalar ' ' :: .scalar '@' :: behindSign u tags

theorem join_tags (t : Tag) (tags : List Tag) :
    Text.join " " ((t :: tags).map Tag.text) = .scalar '@' :: behindSign t tags := by
  induction tags generalizing t with
  | nil => simp [Text.join, Tag.text, behindSign]
  | cons u tags ih =>
    rw [List.map_cons, List.map_cons, Text.join_cons_cons, ← List.map_cons, ih, behindSign,
      Tag.text]
    simp [Text.ofString]

/-- The last code point of a tag is not blank. -/
theorem Tag.getLast?_word (t : Tag) : ∃ p, t.word.getLast? = some p ∧ p.isBlank = false :=
  ⟨_, List.getLast?_eq_some_getLast t.nonempty, (t.plain _ (List.getLast_mem t.nonempty)).1⟩

theorem getLast?_behindSign (t : Tag) (tags : List Tag) :
    ∃ p, (behindSign t tags).getLast? = some p ∧ p.isBlank = false := by
  induction tags generalizing t with
  | nil => exact t.getLast?_word
  | cons u tags ih =>
    obtain ⟨p, hp, hb⟩ := ih u
    refine ⟨p, ?_, hb⟩
    rw [behindSign, List.getLast?_append, List.getLast?_cons_cons, List.getLast?_cons, hp]
    rfl

theorem not_mem_behindSign {p : CodePoint} (hp : ∀ t : Tag, p ∉ t.word) (hblank : p ≠ .scalar ' ')
    (hsign : p ≠ .scalar '@') (t : Tag) (tags : List Tag) : p ∉ behindSign t tags := by
  induction tags generalizing t with
  | nil => exact hp t
  | cons u tags ih => simp [behindSign, hp t, hblank, hsign, ih u]

theorem Tag.trim_text (t : Tag) : Text.trim t.text = t.text := by
  obtain ⟨p, hp, hb⟩ := t.getLast?_word
  rw [Text.trim, Tag.text, Text.trimLeft_of_head rfl,
    Text.trimRight_of_last (by rw [List.getLast?_cons, hp]; rfl) hb]

theorem Tag.trim_text_blank (t : Tag) :
    Text.trim (.scalar '@' :: (t.word ++ [.scalar ' '])) = t.text := by
  have h := t.trim_text
  rw [Text.trim, Tag.text, Text.trimLeft_of_head rfl] at h
  rw [Text.trim, Text.trimLeft_of_head rfl, ← List.cons_append, Text.trimRight_append_blank rfl, h]
  rfl

theorem Tag.any_isBlank (t : Tag) : t.text.any CodePoint.isBlank = false := by
  have hword : t.word.any CodePoint.isBlank = false := List.any_eq_false.mpr fun p hp => by
    simp [(t.plain p hp).1]
  rw [Tag.text, List.any_cons, hword]
  rfl

theorem tagsFrom_behindSign (column : Nat) (t : Tag) (tags : List Tag) :
    Line.tagsFrom column (Text.splitAt (.scalar '@') (behindSign t tags)) =
      .ok ((t :: tags).map Tag.text) := by
  have hsign : ∀ t : Tag, .scalar '@' ∉ t.word := fun t h => (t.plain _ h).2.1 rfl
  induction tags generalizing t column with
  | nil =>
    rw [behindSign, Text.splitAt_of_not_mem (hsign t), Line.tagsFrom]
    have htrim : Text.trim (.scalar '@' :: t.word) = t.text := t.trim_text
    simp only [htrim, t.any_isBlank]
    rfl
  | cons u tags ih =>
    have hpiece : .scalar '@' ∉ t.word ++ [.scalar ' '] := by simp [hsign t]
    rw [behindSign, List.append_cons, Text.splitAt_append hpiece, Line.tagsFrom]
    simp only [t.trim_text_blank, t.any_isBlank, ih]
    rfl

/-- A line of tags is read as these tags. -/
theorem Line.tags?_join (n : Nat) (t : Tag) (tags : List Tag) :
    ({ number := n, text := Text.join " " ((t :: tags).map Tag.text) } : Line).tags? =
      some (.ok ((t :: tags).map Tag.text)) := by
  obtain ⟨p, hp, hb⟩ := getLast?_behindSign t tags
  have htrim : Text.trim (.scalar '@' :: behindSign t tags) = .scalar '@' :: behindSign t tags := by
    rw [Text.trim, Text.trimLeft_of_head rfl,
      Text.trimRight_of_last (by rw [List.getLast?_cons, hp]; rfl) hb]
  have hplain : Line.uncommented (.scalar '@' :: behindSign t tags) =
      .scalar '@' :: behindSign t tags :=
    Line.uncommented_of_not_mem (by simp [not_mem_behindSign fun t ht => (t.plain _ ht).2.2 rfl])
  have hbody : ({ number := n, text := .scalar '@' :: behindSign t tags } : Line).body =
      .scalar '@' :: behindSign t tags := Text.trimLeft_of_head rfl _
  rw [join_tags, Line.tags?, hbody, htrim, hplain, htrim]
  exact congrArg some (tagsFrom_behindSign _ t tags)

/-! ## Readers -/

namespace Reader

/-- A reader that has nothing to complain about and is in no table. -/
def reading (others : List Language) (state : State) (tags : List Text)
    (feature : Option (Text × List Text)) (entries : List Entry) : Reader :=
  { Reader.start others with state, tags, feature, entries }

variable {others : List Language}

/-- What texts do to a reader as the lines from a number on, whatever comes behind them. -/
def Reads (r : Reader) (n : Nat) (texts : List Text) (r' : Reader) : Prop :=
  ∀ rest, r.lines (numbered n texts ++ rest) = r'.lines rest

theorem Reads.nil (r : Reader) (n : Nat) : Reads r n [] r := fun _ => rfl

theorem Reads.cons {r r₁ r₂ : Reader} {n : Nat} {text : Text} {texts : List Text}
    (h : ∀ rest, r.line { number := n, text } rest = r₁) (h' : Reads r₁ (n + 1) texts r₂) :
    Reads r n (text :: texts) r₂ := by
  intro rest
  rw [numbered, List.cons_append, lines, h]
  exact h' rest

theorem Reads.append {r r₁ r₂ : Reader} {n : Nat} {texts texts' : List Text}
    (h : Reads r n texts r₁) (h' : Reads r₁ (n + texts.length) texts' r₂) :
    Reads r n (texts ++ texts') r₂ := by
  intro rest
  rw [numbered_append, List.append_assoc, h, h']

/-- In a block with steps, before its first step or behind one. -/
inductive Holds : Holder → State → Prop where
  | background : Holds .background (.titled .background)
  | scenario : Holds .scenario (.titled .scenario)
  | step (h : Holder) (hasDoc : Bool) : Holds h (.step h false hasDoc)

inductive Between : State → Prop where
  | feature : Between (.titled .feature)
  | rule : Between (.titled .rule)
  | background : Between (.titled .background)
  | scenario : Between (.titled .scenario)
  | step (h : Holder) (hasDoc : Bool) : Between (.step h false hasDoc)

theorem Holds.between {h : Holder} {s : State} (hs : Holds h s) : Between s := by
  cases hs with
  | background => exact .background
  | scenario => exact .scenario
  | step h hasDoc => exact .step h hasDoc

/-- Kinds that do not fit are passed over. -/
theorem tryKinds_append {r : Reader} {l : Line} {rest : List Line} {before : List Kind}
    (h : ∀ k ∈ before, tryKind r l rest k = .error r) (after : List Kind) :
    tryKinds l rest r (before ++ after) = tryKinds l rest r after := by
  induction before with
  | nil => rfl
  | cons k before ih =>
    obtain ⟨hk, hbefore⟩ := List.forall_mem_cons.mp h
    rw [List.cons_append, tryKinds, hk]
    exact ih hbefore

section
variable {h : Holder} {s : State} {feature : Option (Text × List Text)} {entries : List Entry}
  {tags : List Text}

theorem line_step (hs : Holds h s) (k : StepKeyword) (label : Label) (n : Nat) (rest : List Line) :
    (reading others s [] feature entries).line
        { number := n, text := k.word ++ " " ++ label.text } rest =
      reading others (.step h false false) [] feature
        (.step (k.word ++ " ") label.text n :: entries) := by
  have hread :
      (reading others s [] feature entries).line
        { number := n, text := k.word ++ " " ++ label.text } rest =
      reading others (.step h false false) [] feature
        (.step (k.word ++ " ") label.text.trim n :: entries) := by
    cases hs with
    | background | scenario => cases k <;> rfl
    | step _ hasDoc => cases h <;> cases hasDoc <;> cases k <;> rfl
  rw [hread, label.trimmed]

theorem line_openingMark (m : Mark) (n : Nat) (rest : List Line) :
    (reading others (.step h false false) [] feature entries).line
        { number := n, text := m.text } rest =
      reading others (.doc h false m) [] feature entries := by
  cases h <;> cases m <;> rfl

theorem line_closingMark (m : Mark) (n : Nat) (rest : List Line) :
    (reading others (.doc h false m) [] feature entries).line { number := n, text := m.text } rest =
      reading others (.step h false true) [] feature entries := by
  cases m <;> rfl

/-- Inside a doc string nothing but its mark counts. -/
theorem line_inside {m : Mark} {text : Text} (hm : text.trimLeft.startsWith m.text = false)
    (n : Nat) (rest : List Line) :
    (reading others (.doc h false m) [] feature entries).line { number := n, text } rest =
      reading others (.doc h false m) [] feature entries := by
  have hmark : ({ number := n, text } : Line).mark? (some m) = none := by
    simp [Line.mark?, Line.body, hm]
  simp only [line, reading, State.accepted, tryKinds, tryKind, State.opened, hmark]

theorem line_scenario (hs : Between s ∨ s = .tagged .scenario) (label : Label) (n : Nat)
    (rest : List Line) :
    (reading others s tags feature entries).line
        { number := n, text := "Scenario: " ++ label.text } rest =
      reading others (.titled .scenario) [] feature (.block label.text n tags :: entries) := by
  have hread :
      (reading others s tags feature entries).line
        { number := n, text := "Scenario: " ++ label.text } rest =
      reading others (.titled .scenario) [] feature (.block label.text.trim n tags :: entries) := by
    rcases hs with hs | rfl
    · cases hs with
      | feature | rule | background | scenario => rfl
      | step h hasDoc => cases h <;> cases hasDoc <;> rfl
    · rfl
  rw [hread, label.trimmed]

theorem line_rule (hs : Between s) (label : Label) (n : Nat) (rest : List Line) :
    (reading others s [] feature entries).line
        { number := n, text := "Rule: " ++ label.text } rest =
      reading others (.titled .rule) [] feature entries := by
  cases hs with
  | feature | rule | background | scenario => rfl
  | step h hasDoc => cases h <;> cases hasDoc <;> rfl

theorem line_background (hs : s = .titled .feature ∨ s = .titled .rule) (n : Nat)
    (rest : List Line) :
    (reading others s [] feature entries).line { number := n, text := "Background:" } rest =
      reading others (.titled .background) [] feature (.block backgroundName n [] :: entries) := by
  rcases hs with rfl | rfl
  · rfl
  · rfl

theorem line_feature (hs : s = .start ∨ s = .tagged .feature) (label : Label) (n : Nat)
    (rest : List Line) :
    (reading others s tags none []).line { number := n, text := "Feature: " ++ label.text } rest =
      reading others (.titled .feature) [] (some (label.text, tags)) [] := by
  have hread :
      (reading others s tags none []).line { number := n, text := "Feature: " ++ label.text } rest =
        reading others (.titled .feature) [] (some (label.text.trim, tags)) [] := by
    rcases hs with rfl | rfl
    · rfl
    · rfl
  rw [hread, label.trimmed]

/-- A line with an at sign in front is read as nothing but tags, outside of doc strings and
descriptions. -/
theorem tryKind_atSign (hs : s.opened = none) {k : Kind} (hk : k ≠ .tags) (hk' : k ≠ .other)
    (t : Text) (n : Nat) (rest : List Line) :
    tryKind (reading others s [] feature entries) { number := n, text := .scalar '@' :: t } rest k =
      .error (reading others s [] feature entries) := by
  cases k with
  | tags => exact absurd rfl hk
  | other => exact absurd rfl hk'
  | title block => cases block <;> rfl
  | mark =>
    simp only [tryKind, reading, hs]
    rfl
  | _ => rfl

/-- A line of tags may stand where a block may begin, and in front of the file. -/
theorem line_tags (hs : Between s ∨ s = .start) (t : Tag) (ts : List Tag) (n : Nat)
    (rest : List Line) :
    (reading others s [] feature entries).line
        { number := n, text := Text.join " " ((t :: ts).map Tag.text) } rest =
      reading others (.tagged ((reading others s [] feature entries).owner rest))
        ((t :: ts).map Tag.text) feature entries := by
  have hsplit : s.opened = none ∧ ∃ before after, s.accepted = before ++ .tags :: after ∧
      ∀ k ∈ before, k ≠ .tags ∧ k ≠ .other := by
    rcases hs with hs | rfl
    · cases hs with
      | feature | rule =>
        exact ⟨rfl, [.ending, .empty, .comment, .title .background], _, rfl, by decide⟩
      | background | scenario => exact ⟨rfl, [.ending, .empty, .comment, .step], _, rfl, by decide⟩
      | step h hasDoc =>
        cases hasDoc with
        | false => exact ⟨rfl, [.ending, .row, .mark, .step], _, rfl, by decide⟩
        | true => exact ⟨rfl, [.ending, .row, .step], _, rfl, by decide⟩
    · exact ⟨rfl, [.ending, .language], _, rfl, by decide⟩
  obtain ⟨hopened, before, after, haccepted, hbefore⟩ := hsplit
  have htags := Line.tags?_join n t ts
  rw [join_tags] at htags ⊢
  have hstate : (reading others s [] feature entries).state.accepted = before ++ .tags :: after :=
    haccepted
  rw [line, hstate,
    tryKinds_append fun k hk => tryKind_atSign hopened (hbefore k hk).1 (hbefore k hk).2 _ n rest,
    tryKinds, tryKind, htags]
  rfl

/-- Tags in front of the file belong to the feature. -/
theorem line_featureTags (t : Tag) (ts : List Tag) (n : Nat) (rest : List Line) :
    (start others).line { number := n, text := Text.join " " ((t :: ts).map Tag.text) } rest =
      reading others (.tagged .feature) ((t :: ts).map Tag.text) none [] :=
  line_tags (.inr rfl) t ts n rest

end

/-! ## Blocks -/

section
variable {h : Holder} {s : State} {feature : Option (Text × List Text)} {entries : List Entry}

theorem reads_inside {m : Mark} {texts : List Text}
    (hm : ∀ t ∈ texts, t.trimLeft.startsWith m.text = false) (n : Nat) :
    Reads (reading others (.doc h false m) [] feature entries) n texts
      (reading others (.doc h false m) [] feature entries) := by
  induction texts generalizing n with
  | nil => exact .nil _ n
  | cons t texts ih =>
    obtain ⟨ht, htexts⟩ := List.forall_mem_cons.mp hm
    exact .cons (line_inside ht n) (ih htexts (n + 1))

/-- A doc string says nothing, whatever its lines look like. -/
theorem reads_docString (d : DocString) (n : Nat) :
    Reads (reading others (.step h false false) [] feature entries) n d.written
      (reading others (.step h false true) [] feature entries) :=
  .cons (line_openingMark d.mark n)
    ((reads_inside d.inside (n + 1)).append (.cons (line_closingMark d.mark _) (.nil _ _)))

end

def ofStep (s : Step) : Entry := .step (s.keyword.word ++ " ") s.text s.line

def ofScenario (s : Scenario) : List Entry := .block s.name s.line s.tags :: s.steps.map ofStep

/-- From a state on, texts bring entries and lead to a state of some kind. -/
def Brings (others : List Language) (feature : Option (Text × List Text)) (s : State) (n : Nat)
    (texts : List Text) (new : List Entry) (kind : State → Prop) : Prop :=
  ∃ s', kind s' ∧
    ∀ entries, Reads (reading others s [] feature entries) n texts
      (reading others s' [] feature (new.reverse ++ entries))

section
variable {feature : Option (Text × List Text)} {s : State} {n : Nat} {texts texts' : List Text}
  {new new' : List Entry}
variable {kind kind' : State → Prop}

theorem Brings.nil (hs : kind s) : Brings others feature s n [] [] kind :=
  ⟨s, hs, fun _ => .nil _ n⟩

theorem Brings.append (h : Brings others feature s n texts new kind)
    (h' : ∀ s', kind s' → Brings others feature s' (n + texts.length) texts' new' kind') :
    Brings others feature s n (texts ++ texts') (new ++ new') kind' := by
  obtain ⟨s₁, hs₁, h₁⟩ := h
  obtain ⟨s₂, hs₂, h₂⟩ := h' s₁ hs₁
  refine ⟨s₂, hs₂, fun entries => ?_⟩
  rw [List.reverse_append, List.append_assoc]
  exact (h₁ entries).append (h₂ _)

theorem Brings.imp (h : Brings others feature s n texts new kind)
    (himp : ∀ s', kind s' → kind' s') :
    Brings others feature s n texts new kind' := by
  obtain ⟨s', hs', h⟩ := h
  exact ⟨s', himp s' hs', h⟩

end

section
variable (source : Path) (name : Text) {h : Holder} {s : State}
  {feature : Option (Text × List Text)}

theorem brings_step (hs : Holds h s) (st : StepSource) (n : Nat) :
    Brings others feature s n st.written [.step (st.keyword.word ++ " ") st.label.text n]
      (Holds h) := by
  cases hd : st.doc with
  | none =>
    refine ⟨_, .step h false, fun entries => ?_⟩
    rw [StepSource.written, hd]
    exact .cons (line_step hs st.keyword st.label n) (.nil _ _)
  | some d =>
    refine ⟨_, .step h true, fun entries => ?_⟩
    rw [StepSource.written, hd]
    exact .cons (line_step hs st.keyword st.label n) (reads_docString d (n + 1))

theorem brings_steps (scenario : Text) (hs : Holds h s) (steps : List StepSource) (n : Nat) :
    Brings others feature s n (steps.flatMap StepSource.written)
      ((placeSteps source name scenario n steps).map ofStep)
      (Holds h) := by
  induction steps generalizing s n with
  | nil => exact .nil hs
  | cons st steps ih => exact (brings_step hs st n).append fun s' hs' => ih hs' _

theorem brings_background (hs : s = .titled .feature ∨ s = .titled .rule)
    (background : Option (List StepSource)) (n : Nat) :
    Brings others feature s n (writtenBackground background)
      ((placeBackground source name n background).flatMap ofScenario)
      Between := by
  cases background with
  | none =>
    rcases hs with rfl | rfl
    · exact .nil .feature
    · exact .nil .rule
  | some steps =>
    have htitle : Brings others feature s n ["Background:"] [.block backgroundName n []]
        (Holds .background) :=
      ⟨_, .background, fun entries => .cons (line_background hs n) (.nil _ _)⟩
    have h := htitle.append fun s' hs' =>
      (brings_steps source name backgroundName hs' steps _).imp fun _ => Holds.between
    simpa [writtenBackground, placeBackground, ofScenario] using h

/-- Tags are read with the title of the scenario that they belong to. -/
theorem brings_scenarioTitle (hs : Between s) (tags : List Tag) (label : Label) (n : Nat) :
    Brings others feature s n (tagLine tags ++ ["Scenario: " ++ label.text])
      [.block label.text (n + (tagLine tags).length) (tags.map Tag.text)] (Holds .scenario) := by
  refine ⟨_, .scenario, fun entries => ?_⟩
  cases tags with
  | nil => exact .cons (line_scenario (.inl hs) label n) (.nil _ _)
  | cons t ts =>
    intro rest
    have howner : (reading others s [] feature entries).owner
        ({ number := n + 1, text := "Scenario: " ++ label.text } :: rest) = .scenario := by
      cases hs with
      | feature | rule | background | scenario => rfl
      | step h hasDoc => cases h <;> cases hasDoc <;> rfl
    rw [tagLine, List.singleton_append, numbered, numbered, numbered, List.cons_append, lines,
      line_tags (.inl hs), List.cons_append, List.nil_append, howner, lines,
      line_scenario (.inr rfl)]
    rfl

theorem brings_scenario (hs : Between s) (sc : ScenarioSource) (n : Nat) :
    Brings others feature s n sc.written (ofScenario (sc.placed source name n)) Between := by
  have htitle : Brings others feature s n (tagLine sc.tags ++ ["Scenario: " ++ sc.label.text])
      [.block sc.label.text (n + (tagLine sc.tags).length) (sc.tags.map Tag.text)]
        (Holds .scenario) :=
    brings_scenarioTitle hs sc.tags sc.label n
  have h := htitle.append fun s' hs' =>
    (brings_steps source name sc.label.text hs' sc.steps _).imp fun _ => Holds.between
  simpa [ScenarioSource.written, ScenarioSource.placed, ofScenario, Nat.add_assoc] using h

theorem brings_scenarios (hs : Between s) (scenarios : List ScenarioSource) (n : Nat) :
    Brings others feature s n (scenarios.flatMap ScenarioSource.written)
      ((placeScenarios source name n scenarios).flatMap ofScenario) Between := by
  induction scenarios generalizing s n with
  | nil => exact .nil hs
  | cons sc scenarios ih =>
    exact (brings_scenario source name hs sc n).append fun s' hs' => ih hs' _

theorem brings_rule (hs : Between s) (r : RuleSource) (n : Nat) :
    Brings others feature s n r.written
      ((placeBackground source name (n + 1) r.background ++
        placeScenarios source name (n + 1 + (writtenBackground r.background).length)
        r.scenarios).flatMap ofScenario)
      Between := by
  have htitle : Brings others feature s n ["Rule: " ++ r.label.text] [] (· = .titled .rule) :=
    ⟨_, rfl, fun entries => .cons (line_rule hs r.label n) (.nil _ _)⟩
  have h :=
    htitle.append fun s' hs' =>
      (brings_background source name (.inr hs') r.background _).append fun s' hs' =>
    brings_scenarios source name hs' r.scenarios _
  simpa [RuleSource.written] using h

theorem brings_rules (hs : Between s) (rules : List RuleSource) (n : Nat) :
    Brings others feature s n (rules.flatMap RuleSource.written)
      ((placeRules source name n rules).flatMap ofScenario)
      Between := by
  induction rules generalizing s n with
  | nil => exact .nil hs
  | cons r rules ih =>
    have h := (brings_rule source name hs r n).append fun s' hs' => ih hs' (n + r.written.length)
    simpa [placeRules] using h

/-- The lines of a feature source leave its name, its tags and its entries. -/
theorem reads_feature (f : FeatureSource) :
    ∃ s, Between s ∧
      Reads (start others) 1 f.written
      (reading others s [] (some (f.label.text, f.tags.map Tag.text))
        ((f.feature source).scenarios.flatMap ofScenario).reverse) := by
  have htitle : Reads (start others) 1 (tagLine f.tags ++ ["Feature: " ++ f.label.text])
      (reading others (.titled .feature) [] (some (f.label.text, f.tags.map Tag.text)) []) := by
    cases f.tags with
    | nil => exact .cons (line_feature (.inl rfl) f.label 1) (.nil _ _)
    | cons t ts =>
      exact .cons (line_featureTags t ts 1) (.cons (line_feature (.inr rfl) f.label 2) (.nil _ _))
  have hn : 1 + (tagLine f.tags ++ ["Feature: " ++ f.label.text]).length =
      (tagLine f.tags).length + 2 := by
    rw [List.length_append, List.length_singleton]
    omega
  obtain ⟨s, hs, h⟩ :=
    (brings_background source f.label.text (.inl rfl) f.background _).append fun s hs =>
      (brings_scenarios source f.label.text hs f.scenarios _).append fun s hs =>
        brings_rules source f.label.text hs f.rules _
  have h := htitle.append (h [])
  rw [hn] at h
  refine ⟨s, hs, ?_⟩
  simpa [FeatureSource.written, FeatureSource.feature] using h

end

/-! ## The feature -/

theorem finish_reading {s : State} (hs : Between s) (feature : Option (Text × List Text))
    (entries : List Entry) (n : Nat) :
    (reading others s [] feature entries).finish n = reading others .finished [] feature
      entries := by
  cases hs with
  | feature | rule | background | scenario => rfl
  | step h hasDoc => cases h <;> cases hasDoc <;> rfl

theorem keywordOf_word (k : StepKeyword) : keywordOf (k.word ++ " ") = k := by
  cases k <;> rfl

theorem scenariosOf_steps (source : Path) (name : Text) (steps : List Step) (entries : List Entry) :
    scenariosOf source name (steps.map ofStep ++ entries) =
      (steps.map (fun s => (s.keyword, s.text, s.line)) ++ (scenariosOf source name entries).1,
        (scenariosOf source name entries).2) := by
  induction steps with
  | nil => rfl
  | cons s steps ih =>
    rw [List.map_cons, List.cons_append, ofStep, scenariosOf, ih, keywordOf_word]; rfl

def Belongs (source : Path) (feature : Text) (sc : Scenario) : Prop :=
  ∀ st ∈ sc.steps, st.source = source ∧ st.scenario = sc.name ∧ st.feature = feature

/-- The entries of scenarios give these scenarios. -/
theorem scenariosOf_scenarios {source : Path} {name : Text} {scenarios : List Scenario}
    (h : ∀ sc ∈ scenarios, Belongs source name sc) :
    scenariosOf source name (scenarios.flatMap ofScenario) = ([], scenarios) := by
  induction scenarios with
  | nil => rfl
  | cons sc scenarios ih =>
    obtain ⟨hsc, hscenarios⟩ := List.forall_mem_cons.mp h
    have hsteps :
        sc.steps.map
          (fun st => { st with source := source, scenario := sc.name, feature := name }) =
        sc.steps := by
      refine (List.map_congr_left fun st hst => ?_).trans (List.map_id _)
      obtain ⟨h₁, h₂, h₃⟩ := hsc st hst
      rw [← h₁, ← h₂, ← h₃]
      rfl
    rw [List.flatMap_cons, ofScenario, List.cons_append, scenariosOf, scenariosOf_steps,
      ih hscenarios]
    simp only [List.append_nil, List.map_map]
    exact congrArg (fun steps => ([], { sc with steps := steps } :: scenarios)) hsteps

end Reader

/-! ## The lines of a source -/

/-- No text has a line break in it. -/
def OneLined (texts : List Text) : Prop := ∀ t ∈ texts, .scalar '\n' ∉ t

section
variable {texts texts' : List Text}

theorem OneLined.nil : OneLined [] := by simp [OneLined]

theorem OneLined.cons {t : Text} (h : .scalar '\n' ∉ t) (h' : OneLined texts) :
    OneLined (t :: texts) :=
  List.forall_mem_cons.mpr ⟨h, h'⟩

theorem OneLined.append (h : OneLined texts) (h' : OneLined texts') : OneLined (texts ++ texts') :=
  List.forall_mem_append.mpr ⟨h, h'⟩

theorem OneLined.flatMap {α : Type} {write : α → List Text} (h : ∀ a, OneLined (write a))
    (as : List α) :
    OneLined (as.flatMap write) := by
  intro t ht
  obtain ⟨a, -, ha⟩ := List.mem_flatMap.mp ht
  exact h a t ha

end

theorem Label.not_mem_append {t : Text} (h : .scalar '\n' ∉ t) (label : Label) :
    .scalar '\n' ∉ t ++ label.text := by
  rw [List.mem_append]
  exact fun hm => hm.elim h label.oneLine

theorem oneLined_tagLine (tags : List Tag) : OneLined (tagLine tags) := by
  have hbreak : ∀ t : Tag, .scalar '\n' ∉ t.word := fun t ht => by
    have hblank := (t.plain _ ht).1
    cases hblank
  cases tags with
  | nil => exact .nil
  | cons t ts =>
    refine .cons ?_ .nil
    rw [join_tags]
    simp [not_mem_behindSign hbreak]

theorem DocString.oneLined (d : DocString) : OneLined d.written := by
  have hmark : .scalar '\n' ∉ d.mark.text := by cases d.mark <;> decide
  exact .cons hmark (.append d.oneLine (.cons hmark .nil))

theorem StepSource.oneLined (s : StepSource) : OneLined s.written := by
  have hword : .scalar '\n' ∉ s.keyword.word ++ Text.ofString " " := by cases s.keyword <;> decide
  refine .cons (s.label.not_mem_append hword) ?_
  cases s.doc with
  | none => exact .nil
  | some d => exact d.oneLined

theorem ScenarioSource.oneLined (s : ScenarioSource) : OneLined s.written :=
  .append (oneLined_tagLine s.tags)
    (.cons (s.label.not_mem_append (by decide)) (.flatMap StepSource.oneLined s.steps))

theorem oneLined_background (background : Option (List StepSource)) :
    OneLined (writtenBackground background) := by
  cases background with
  | none => exact .nil
  | some steps => exact .cons (by decide) (.flatMap StepSource.oneLined steps)

theorem RuleSource.oneLined (r : RuleSource) : OneLined r.written :=
  .cons (r.label.not_mem_append (by decide))
    (.append (oneLined_background r.background) (.flatMap ScenarioSource.oneLined r.scenarios))

theorem FeatureSource.oneLined (f : FeatureSource) : OneLined f.written :=
  .append (oneLined_tagLine f.tags) (.cons (f.label.not_mem_append (by decide))
    (.append (oneLined_background f.background)
      (.append (.flatMap ScenarioSource.oneLined f.scenarios)
        (.flatMap RuleSource.oneLined f.rules))))

/-! ## The steps of a source -/

section
variable (source : Path) (name : Text)

theorem placeSteps_belongs (scenario : Text) (n : Nat) (steps : List StepSource) :
    ∀ st ∈ placeSteps source name scenario n steps,
      st.source = source ∧ st.scenario = scenario ∧ st.feature = name := by
  induction steps generalizing n with
  | nil => simp [placeSteps]
  | cons s steps ih => exact List.forall_mem_cons.mpr ⟨⟨rfl, rfl, rfl⟩, ih _⟩

theorem placeBackground_belongs (n : Nat) (background : Option (List StepSource)) :
    ∀ sc ∈ placeBackground source name n background, Reader.Belongs source name sc := by
  cases background with
  | none => simp [placeBackground]
  | some steps =>
    exact List.forall_mem_singleton.mpr
      (placeSteps_belongs source name backgroundName (n + 1) steps)

theorem placeScenarios_belongs (n : Nat) (scenarios : List ScenarioSource) :
    ∀ sc ∈ placeScenarios source name n scenarios, Reader.Belongs source name sc := by
  induction scenarios generalizing n with
  | nil => simp [placeScenarios]
  | cons s scenarios ih =>
    exact List.forall_mem_cons.mpr ⟨placeSteps_belongs source name _ _ s.steps, ih _⟩

theorem placeRules_belongs (n : Nat) (rules : List RuleSource) :
    ∀ sc ∈ placeRules source name n rules, Reader.Belongs source name sc := by
  induction rules generalizing n with
  | nil => simp [placeRules]
  | cons r rules ih =>
    exact List.forall_mem_append.mpr ⟨placeBackground_belongs source name _ _,
      List.forall_mem_append.mpr ⟨placeScenarios_belongs source name _ _, ih _⟩⟩

theorem FeatureSource.belongs (f : FeatureSource) :
    ∀ sc ∈ (f.feature source).scenarios, Reader.Belongs source f.label.text sc :=
  List.forall_mem_append.mpr ⟨placeBackground_belongs source _ _ _,
    List.forall_mem_append.mpr
      ⟨placeScenarios_belongs source _ _ _, placeRules_belongs source _ _ _⟩⟩

end

/-- Reading a written feature source gives its feature. -/
theorem parse_text (others : List Language) (source : Path) (f : FeatureSource) :
    parse others source f.text = .ok (some (f.feature source)) := by
  obtain ⟨s, hs, hreads⟩ := @Reader.reads_feature others source f
  have hlines : Line.ofText f.text = numbered 1 f.written := Line.ofText_flatMap f.oneLined
  have hend := hreads []
  rw [List.append_nil] at hend
  have hread : Reader.ofText others f.text = Reader.reading others .finished []
      (some (f.label.text, f.tags.map Tag.text))
      ((f.feature source).scenarios.flatMap Reader.ofScenario).reverse := by
    rw [Reader.ofText, hlines, hend]
    exact Reader.finish_reading hs _ _ _
  have hscenarios : (scenariosOf source f.label.text
      ((f.feature source).scenarios.flatMap Reader.ofScenario).reverse.reverse).2 =
        (f.feature source).scenarios := by
    rw [List.reverse_reverse, Reader.scenariosOf_scenarios (f.belongs source)]
  rw [parse, hread]
  exact congrArg (fun scenarios => Except.ok (some { f.feature source with scenarios })) hscenarios

/-- A source whose name reads like a tag and whose doc string reads like a step and a title. -/
def misleading : FeatureSource where
  tags := [⟨"a", by decide, by decide⟩, ⟨"b:c", by decide, by decide⟩]
  label := ⟨"@x | Rule: y", by decide, by decide⟩
  background := some []
  scenarios := []
  rules := [{
    label := ⟨[], by decide, by decide⟩
    background := none
    scenarios := [{
      tags := [⟨"a", by decide, by decide⟩]
      label := ⟨"Given z", by decide, by decide⟩
      steps := [{
        keyword := .star
        label := ⟨"# \"\"\"", by decide, by decide⟩
        doc := some ⟨.backticks, ["Given w", "  Scenario: \"\"\"", []], by decide, by decide⟩ }]
          }] }]

example : misleading.text =
    "@a @b:c\nFeature: @x | Rule: y\nBackground:\nRule: \n@a\nScenario: Given z\n* # \"\"\"\n" ++
      "```\nGiven w\n  Scenario: \"\"\"\n\n```\n" ∧
    (misleading.feature default).scenarios.map (fun sc => (sc.line, sc.steps.map (·.line))) =
      [(3, []), (6, [7])] := by
  decide +kernel

end Gherkin
end StepAtlas
