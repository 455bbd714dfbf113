import Mathlib.Data.List.Chain
import StepAtlas.Proofs.Settings.Values
import StepAtlas.Settings.Provider

/-
Settings that change while the program runs.  A call takes effect as a whole or not at all
(`Session.Outcome`): if it is refused, nothing has changed and no listener was called; else the
settings that it asks for are in force, and every listener was called once if they differ from those
before.
-/

namespace StepAtlas

/-! ## What a change asks for -/

/-- What becomes of a setting: it stays, or it is what the value given for it means. -/
inductive Replaced {α : Type} (Means : Value → α → Prop) (old : α) : Option Value → α → Prop where
  | kept : Replaced Means old none old
  | given {v : Value} {new : α} (h : Means v new) : Replaced Means old (some v) new

/-- A reader of values gives one of changes. -/
theorem Decides.replaced {α : Type} {read : Value → Except Refusal α} {Means : Value → α → Prop}
    (h : Decides read Means) (old : α) :
    Decides (fun found : Option Value => match found with | some v => read v | none => .ok old)
      (Replaced Means old) := by
  constructor
  intro found new
  cases found with
  | none =>
    constructor
    · rintro ⟨⟩
      exact .kept
    · rintro ⟨⟩
      rfl
  | some v =>
    refine h.ok_iff.trans ⟨.given, ?_⟩
    intro hnew
    cases hnew with
    | given hnew => exact hnew

namespace Settings

/-- Settings are others with some changes: every key is that of a setting, every value has a
meaning, and what is not given stays as it is.  Any value may be given for the folder of the project
and for diagnostics. -/
structure Changed (s : Settings) (changes : List (Text × Value)) (new : Settings) : Prop where
  known : ∀ entry ∈ changes, entry.1 ∈ keys
  projectDir : Replaced (fun v dir => dir = v) s.projectDir (given? "project_dir" changes)
    new.projectDir
  featureGlobs : Replaced Value.Globs s.featureGlobs (given? "feature_globs" changes)
    new.featureGlobs
  definitionGlobs : Replaced Value.Globs s.definitionGlobs (given? "step_def_globs" changes)
    new.definitionGlobs
  excludeGlobs : Replaced Value.Globs s.excludeGlobs (given? "exclude_globs" changes)
    new.excludeGlobs
  diagnostics : Replaced (fun v d => d = v) s.diagnostics (given? "enable_diagnostics" changes)
    new.diagnostics
  mode : Replaced (fun v => NamesMode v.plain) s.mode (given? "match_mode" changes) new.mode

inductive Changes (s : Settings) (changes : List (Text × Value)) :
    Except Refusal Settings → Prop where
  | ok {new : Settings} (h : s.Changed changes new) : Changes s changes (.ok new)
  | refused {r : Refusal} (h : ∀ new, ¬ s.Changed changes new) : Changes s changes (.error r)

theorem changedDir_replaced (s : Settings) (changes : List (Text × Value)) :
    Replaced (fun v dir => dir = v) s.projectDir (given? "project_dir" changes)
      (s.changedDir changes) := by
  rw [changedDir]
  cases given? "project_dir" changes with
  | none => exact .kept
  | some v => exact .given rfl

theorem unknown_eq_nil_iff {changes : List (Text × Value)} :
    (((changes.map (·.1)).filter fun key => !keys.contains key).mergeSort fun a b =>
        !Text.before b a) = [] ↔
      ∀ entry ∈ changes, entry.1 ∈ keys := by
  rw [← List.length_eq_zero_iff, List.length_mergeSort, List.length_eq_zero_iff,
    List.filter_eq_nil_iff]
  simp

theorem changedGlobs_decides (key : Text) (globs : List Text) :
    Decides (fun changes => changedGlobs changes key globs)
      fun changes => Replaced Value.Globs globs (given? key changes) :=
  ⟨((globsOf_decides key).replaced globs).ok_iff⟩

theorem changedMode_decides (s : Settings) :
    Decides s.changedMode
      fun changes => Replaced (fun v => NamesMode v.plain) s.mode (given? "match_mode" changes) :=
  ⟨((MatchMode.parse_decides .noMode).replaced s.mode).ok_iff⟩

theorem change_changes (s : Settings) (changes : List (Text × Value)) :
    s.Changes changes (s.change changes) := by
  have hmode := s.changedMode_decides
  have hfeatures := changedGlobs_decides "feature_globs" s.featureGlobs
  have hdefinitions := changedGlobs_decides "step_def_globs" s.definitionGlobs
  have hexcluded := changedGlobs_decides "exclude_globs" s.excludeGlobs
  unfold change
  dsimp only
  by_cases hknown : ∀ entry ∈ changes, entry.1 ∈ keys
  · rw [if_neg (not_not.mpr (unknown_eq_nil_iff.mpr hknown))]
    cases hm : s.changedMode changes with
    | error r =>
      exact .refused fun new hnew => hmode.not_means hm _ hnew.mode
    | ok mode =>
      cases hf : changedGlobs changes "feature_globs" s.featureGlobs with
      | error r =>
        exact .refused fun new hnew => hfeatures.not_means hf _ hnew.featureGlobs
      | ok features =>
        cases hd : changedGlobs changes "step_def_globs" s.definitionGlobs with
        | error r =>
          exact .refused fun new hnew => hdefinitions.not_means hd _ hnew.definitionGlobs
        | ok definitions =>
          cases he : changedGlobs changes "exclude_globs" s.excludeGlobs with
          | error r =>
            exact .refused fun new hnew => hexcluded.not_means he _ hnew.excludeGlobs
          | ok excluded =>
            refine .ok ⟨hknown, s.changedDir_replaced changes, hfeatures.ok_iff.mp hf,
              hdefinitions.ok_iff.mp hd, hexcluded.ok_iff.mp he, ?_, hmode.ok_iff.mp hm⟩
            cases given? "enable_diagnostics" changes with
            | none => exact .kept
            | some v => exact .given rfl
  · rw [if_pos (mt unknown_eq_nil_iff.mp hknown)]
    exact .refused fun new hnew => hknown hnew.known

/-- Two settings are equal, as values are: a number is equal to one of another kind that has its
size. -/
structure Agree (a b : Settings) : Prop where
  projectDir : a.projectDir.same b.projectDir = true
  featureGlobs : a.featureGlobs = b.featureGlobs
  definitionGlobs : a.definitionGlobs = b.definitionGlobs
  excludeGlobs : a.excludeGlobs = b.excludeGlobs
  diagnostics : a.diagnostics.same b.diagnostics = true
  mode : a.mode = b.mode

theorem same_iff_agree {a b : Settings} : a.same b = true ↔ a.Agree b := by
  simp only [same, sameFiles, Bool.and_eq_true, decide_eq_true_eq]
  constructor
  · rintro ⟨⟨⟨⟨⟨hdir, hf⟩, hd⟩, he⟩, hdiag⟩, hm⟩
    exact ⟨hdir, hf, hd, he, hdiag, hm⟩
  · intro h
    exact ⟨⟨⟨⟨⟨h.projectDir, h.featureGlobs⟩, h.definitionGlobs⟩, h.excludeGlobs⟩, h.diagnostics⟩,
      h.mode⟩

def written (s : Settings) : List (Text × Value) :=
  [("feature_globs", .list (s.featureGlobs.map .text)),
    ("step_def_globs", .list (s.definitionGlobs.map .text)),
    ("exclude_globs", .list (s.excludeGlobs.map .text)), ("enable_diagnostics", s.diagnostics),
    ("match_mode", .text s.mode.word)]

/-- Settings hold only what can be given for them. -/
theorem change_written (s : Settings) : s.change s.written = .ok s := by
  have hknown : ∀ entry ∈ s.written, entry.1 ∈ keys := by simp [written, keys]
  have hnames : NamesMode s.mode.word s.mode := by
    refine MatchMode.namesMode_iff.mpr (.inl ?_)
    cases s.mode with
    | both | regexOnly | expressionOnly => rfl
  have hmode : s.changedMode s.written = .ok s.mode :=
    s.changedMode_decides.ok_iff.mpr (.given hnames)
  have hfeatures : changedGlobs s.written "feature_globs" s.featureGlobs = .ok s.featureGlobs :=
    (changedGlobs_decides _ _).ok_iff.mpr (.given (.many s.featureGlobs))
  have hdefinitions : changedGlobs s.written "step_def_globs" s.definitionGlobs =
      .ok s.definitionGlobs :=
    (changedGlobs_decides _ _).ok_iff.mpr (.given (.many s.definitionGlobs))
  have hexcluded : changedGlobs s.written "exclude_globs" s.excludeGlobs = .ok s.excludeGlobs :=
    (changedGlobs_decides _ _).ok_iff.mpr (.given (.many s.excludeGlobs))
  unfold change
  dsimp only
  rw [if_neg (not_not.mpr (unknown_eq_nil_iff.mpr hknown)), hmode, hfeatures, hdefinitions,
    hexcluded]
  rfl

end Settings

/-! ## Calls -/

def Provider.Call.Asks {α : Type} (p : Provider α) (new : Settings) : Provider.Call → Prop
  | .update changes => p.settings.Changed changes new
  | .reload h => h.settings p.projectDir = .ok new

namespace Session
variable {α : Type}

inductive Outcome (t : Session α) (c : Provider.Call) : Session α × Except Fault Bool → Prop where
  | refused {fault : Fault} (h : ∀ new, ¬ c.Asks t.provider new)
      (hfault : ∀ changes, c = .update changes →
        ∃ r : Refusal, fault = r.fault t.provider.machine) : Outcome t c (t, .error fault)
  | kept {new : Settings} (h : c.Asks t.provider new) (hagree : new.Agree t.provider.settings) :
      Outcome t c (t, .ok false)
  | changed {new : Settings} (h : c.Asks t.provider new)
      (hdiffer : ¬ new.Agree t.provider.settings) :
      Outcome t c
        ({ provider := { t.provider with settings := new }
           seen := t.seen ++ t.provider.changed.listeners.map (·, new) }, .ok true)

/-- Every listener is called once, in order, and sees the settings in force. -/
theorem signal_eq (t : Session α) :
    t.signal =
      { t with seen := t.seen ++ t.provider.changed.listeners.map (·, t.provider.settings) } := by
  unfold signal
  dsimp only
  obtain ⟨provider, seen⟩ := t
  dsimp only
  -- The listeners are those at the start of the round, whatever the session has become.
  generalize provider.changed.listeners = listeners
  induction listeners generalizing seen with
  | nil => simp [Signal.callAll]
  | cons a listeners ih =>
    rw [Signal.callAll]
    dsimp only
    rw [ih]
    simp

theorem take_outcome {t : Session α} {c : Provider.Call} {new : Settings}
    (h : c.Asks t.provider new) (hanswer : t.provider.answer c = .ok (t.provider.take new)) :
    Outcome t c (t.perform c) := by
  rw [perform, hanswer, Provider.take]
  by_cases hsame : new.same t.provider.settings = true
  · rw [if_pos hsame]
    exact .kept h (Settings.same_iff_agree.mp hsame)
  · rw [if_neg hsame]
    dsimp only
    rw [signal_eq]
    exact .changed h (mt Settings.same_iff_agree.mpr hsame)

theorem perform_outcome (t : Session α) (c : Provider.Call) : Outcome t c (t.perform c) := by
  cases c with
  | update changes =>
    have hchanges := t.provider.settings.change_changes changes
    cases hc : t.provider.settings.change changes with
    | error r =>
      rw [hc] at hchanges
      have hanswer : t.provider.answer (.update changes) = .error (r.fault t.provider.machine) := by
        rw [Provider.answer, Provider.update, hc]
        rfl
      rw [perform, hanswer]
      cases hchanges with
      | refused h => exact .refused h fun _ _ => ⟨r, rfl⟩
    | ok new =>
      rw [hc] at hchanges
      cases hchanges with
      | ok h =>
        refine take_outcome h ?_
        rw [Provider.answer, Provider.update, hc]
        rfl
  | reload host =>
    cases hs : host.settings t.provider.projectDir with
    | error fault =>
      have hanswer : t.provider.answer (.reload host) = .error fault := by
        rw [Provider.answer, Provider.reload, hs]
        rfl
      rw [perform, hanswer]
      refine .refused ?_ ?_
      · intro new hnew
        rw [Provider.Call.Asks, hs] at hnew
        cases hnew
      · intro changes hcall
        cases hcall
    | ok new =>
      refine take_outcome hs ?_
      rw [Provider.answer, Provider.reload, hs]
      rfl

/-! ## Runs of calls -/

/-- The settings in force and what was seen go through the same steps, and each step makes a
difference. -/
theorem exists_after_eq (s : Session α) (calls : List Provider.Call) :
    ∃ taken : List Settings,
      (s.provider.settings :: taken).IsChain (fun old new => ¬ new.Agree old) ∧
      s.after calls =
        { provider := { s.provider with settings := taken.getLast?.getD s.provider.settings }
          seen := s.seen ++ taken.flatMap fun new =>
            s.provider.changed.listeners.map (·, new) } := by
  induction calls generalizing s with
  | nil => exact ⟨[], by simp, by simp [after]⟩
  | cons c calls ih =>
    have hstep : s.after (c :: calls) = (s.perform c).1.after calls := rfl
    have houtcome := s.perform_outcome c
    rw [hstep]
    generalize s.perform c = result at houtcome
    cases houtcome with
    | refused => exact ih s
    | kept => exact ih s
    | @changed new h hdiffer =>
      obtain ⟨taken, hchain, hafter⟩ := ih
        { provider := { s.provider with settings := new }
          seen := s.seen ++ s.provider.changed.listeners.map (·, new) }
      refine ⟨new :: taken, .cons_cons hdiffer hchain, ?_⟩
      rw [hafter]
      simp [List.getLast?_cons]

/-- After any calls, the next one is refused and changes nothing, or what it asks for is in force,
and then it is signalled to every listener exactly if it makes a difference; so the listeners have
seen every settings that were ever put in force, one after the other, and nothing else. -/
theorem calls_atomic_and_signalled (s : Session α) (calls : List Provider.Call) :
    (∀ c, Outcome (s.after calls) c ((s.after calls).perform c)) ∧
      (∃ taken : List Settings,
        (s.provider.settings :: taken).IsChain (fun old new => ¬ new.Agree old) ∧
        s.after calls =
          { provider := { s.provider with settings := taken.getLast?.getD s.provider.settings }
            seen := s.seen ++ taken.flatMap fun new =>
              s.provider.changed.listeners.map (·, new) }) ∧
      (s.after calls).provider.settings.change (s.after calls).provider.settings.written =
        .ok (s.after calls).provider.settings :=
  ⟨fun c => (s.after calls).perform_outcome c, s.exists_after_eq calls, Settings.change_written _⟩

-- The first two calls are refused, the fourth makes no difference.
example :
    let s : Session Nat :=
      { provider :=
          { machine := .boundless, projectDir := .ofText "/p", settings := .standard (.ofText "/p"),
            changed := (Signal.new.connect 1).connect 2 }
        seen := [] }
    let t := s.after
      [.update [("match_mode", .text "regex"), ("width", .int 3)],
        .update [("match_mode", .text "regex"), ("feature_globs", .int 3)],
        .update [("match_mode", .text " Regex-Only ")], .update [("match_mode", .text "REGEX")]]
    t.seen.map (fun (a, seen) => (a, seen.mode)) = [(1, .regexOnly), (2, .regexOnly)] := by
  decide +kernel

end Session
end StepAtlas
