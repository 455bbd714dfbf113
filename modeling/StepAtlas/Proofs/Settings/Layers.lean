import Mathlib.Algebra.Group.Nat.Defs
import Mathlib.Control.Monad.Basic
import Mathlib.Data.Option.Basic
import StepAtlas.Proofs.Settings.Values
import StepAtlas.Proofs.Utf8
import StepAtlas.Settings.Layer

/-
Settings in layers.  Each of the five settings is found on its own: in the environment, else in the
file of the project, else in the file of the user, else it has its standard value
(`Setting.Resolves`).  All layers are read whatever they come to, so a value without meaning is a
fault even where another layer would have counted.
-/

namespace StepAtlas

structure Sources where
  /-- The table in the file of the user. -/
  user : List (Text × Value)
  /-- The table in the file of the project. -/
  project : List (Text × Value)
  environment : List (Text × Text)
deriving DecidableEq

/-- One of the settings: how it is called, what is meant by what is given for it, and what it is if
nothing is. -/
structure Setting (α : Type) where
  /-- Its key in a file. -/
  key : Text
  /-- Its variable in the environment. -/
  name : Text
  /-- What a value in a file means. -/
  Means : Value → α → Prop
  /-- What a variable means that is not empty. -/
  Says : Text → α → Prop
  standard : α
  given : Layer → Option α
  read : Settings → α

namespace Setting

def globs (key name : Text) (standard : List Text) (given : Layer → Option (List Text))
    (read : Settings → List Text) :
    Setting (List Text) :=
  { key, name, Means := Value.Globs, Says := fun t globs => globs = splitGlobs t, standard, given,
    read }

def featureGlobs : Setting (List Text) :=
  globs "feature_globs" "CUKEDASH_FEATURE_GLOBS" ["features/**/*.feature", "**/*.feature"]
    Layer.featureGlobs
    Settings.featureGlobs

def definitionGlobs : Setting (List Text) :=
  globs "step_def_globs" "CUKEDASH_STEP_DEF_GLOBS"
    ["**/*.\x7bsteps,step,stepdefs\x7d.\x7bts,js\x7d", "**/*steps*/**/*.\x7bts,js\x7d"]
      Layer.definitionGlobs
    Settings.definitionGlobs

def excludeGlobs : Setting (List Text) :=
  globs "exclude_globs" "CUKEDASH_EXCLUDE_GLOBS" ["**/node_modules/**", "**/dist/**", "**/build/**",
    "**/.git/**"]
    Layer.excludeGlobs Settings.excludeGlobs

/-- Any value means yes or no in a file, and three words mean yes in the environment. -/
def diagnostics : Setting Value :=
  { key := "enable_diagnostics"
    name := "CUKEDASH_ENABLE_DIAGNOSTICS"
    Means := fun v d => d = .bool v.isTrue
    Says := fun t d => d = .bool (decide (t.lowerAscii ∈ (["true", "1", "yes"] : List Text)))
    standard := .bool true
    given := Layer.diagnostics
    read := Settings.diagnostics }

def mode : Setting MatchMode :=
  { key := "match_mode"
    name := "CUKEDASH_MATCH_MODE"
    Means := fun v => NamesMode v.plain
    Says := NamesMode
    standard := .both
    given := Layer.mode
    read := Settings.mode }

structure All (P : {α : Type} → Setting α → Prop) : Prop where
  featureGlobs : P featureGlobs
  definitionGlobs : P definitionGlobs
  excludeGlobs : P excludeGlobs
  diagnostics : P diagnostics
  mode : P mode

theorem All.imp {P Q : {α : Type} → Setting α → Prop} (h : All P)
    (himp : ∀ {α : Type} (x : Setting α), P x → Q x) :
    All Q :=
  ⟨himp _ h.featureGlobs, himp _ h.definitionGlobs, himp _ h.excludeGlobs, himp _ h.diagnostics,
    himp _ h.mode⟩

theorem All.and {P Q : {α : Type} → Setting α → Prop} (h : All P) (h' : All Q) :
    All fun x => P x ∧ Q x :=
  ⟨⟨h.featureGlobs, h'.featureGlobs⟩, ⟨h.definitionGlobs, h'.definitionGlobs⟩,
    ⟨h.excludeGlobs, h'.excludeGlobs⟩, ⟨h.diagnostics, h'.diagnostics⟩, ⟨h.mode, h'.mode⟩⟩

section
variable {α : Type} (x : Setting α) (src : Sources)

/-- The variable of a setting is not there, or it is empty. -/
def Unset : Prop := ∀ t, src.environment.lookup x.name = some t → t = []

inductive Resolves : α → Prop where
  | environment {t : Text} {a : α} (ht : src.environment.lookup x.name = some t) (hne : t ≠ [])
      (h : x.Says t a) :
      Resolves a
  | project {v : Value} {a : α} (hn : x.Unset src) (hv : src.project.lookup x.key = some v)
      (h : x.Means v a) :
      Resolves a
  | user {v : Value} {a : α} (hn : x.Unset src) (hp : src.project.lookup x.key = none)
      (hv : src.user.lookup x.key = some v) (h : x.Means v a) : Resolves a
  | standard (hn : x.Unset src) (hp : src.project.lookup x.key = none)
      (hu : src.user.lookup x.key = none) :
      Resolves x.standard

/-- Some layer gives something for a setting that has no meaning. -/
inductive Faulty : Prop where
  | user {v : Value} (hv : src.user.lookup x.key = some v) (h : ∀ a, ¬ x.Means v a)
  | project {v : Value} (hv : src.project.lookup x.key = some v) (h : ∀ a, ¬ x.Means v a)
  | environment {t : Text} (ht : src.environment.lookup x.name = some t) (hne : t ≠ [])
      (h : ∀ a, ¬ x.Says t a)

end

end Setting

namespace Sources

/-- No layer gives anything for a setting that has no meaning. -/
def Sound (src : Sources) : Prop := Setting.All fun x => ¬ x.Faulty src

/-- Two sources have the same entries and variables for every setting, whatever else is in them. -/
def Agree (src src' : Sources) : Prop :=
  Setting.All fun x => src'.user.lookup x.key = src.user.lookup x.key ∧
    src'.project.lookup x.key = src.project.lookup x.key ∧
    src'.environment.lookup x.name = src.environment.lookup x.name

end Sources

def Host.sources (h : Host) (dir : Path) : Except Fault Sources := do
  return { user := ← h.userTable, project := ← h.projectTable dir, environment := h.environment }

/-! ## Refusals -/

namespace Refusal

def of? {α : Type} : Except Refusal α → Option Refusal
  | .error r => some r
  | .ok _ => none

theorem unwritable?_ne_settings {m : Machine} {work : Value → Work} {v : Value} {fault : Fault}
    (h : m.unwritable? work v = some fault) (message : Text) : fault ≠ .settings message := by
  rintro rfl
  rw [Machine.unwritable?] at h
  rcases (Option.orElse_eq_some ..).mp h with h | ⟨-, h⟩
  · split at h
    · obtain ⟨words, -, hwords⟩ := Option.map_eq_some_iff.mp h
      cases hwords
    · cases h
  · split at h
    · cases h
    · cases h

theorem failure?_ne_settings {m : Machine} {r : Refusal} {fault : Fault}
    (h : r.failure? m = some fault) {message : Text} : fault ≠ .settings message := by
  cases r with
  | unknownKeys keys => cases h
  | noGlobs key v | noModeSpelled v => exact unwritable?_ne_settings h message
  | noMode v =>
    rcases (Option.orElse_eq_some ..).mp h with h | ⟨-, h⟩
    · exact unwritable?_ne_settings h message
    · exact unwritable?_ne_settings h message

theorem raise_bind {α β : Type} (m : Machine) (result : Except Refusal α)
    (f : α → Except Refusal β) :
    raise m (result >>= f) = raise m result >>= fun a => raise m (f a) := by
  cases result with
  | error r => rfl
  | ok a => rfl

/-- The complaint itself is raised exactly if nothing keeps it from being put into words. -/
theorem fault_eq_settings_iff {m : Machine} (r : Refusal) :
    (∃ message, r.fault m = .settings message) ↔ r.failure? m = none := by
  rw [fault]
  cases hfailure : r.failure? m with
  | none => exact iff_of_true ⟨_, rfl⟩ rfl
  | some fault => exact iff_of_false (fun ⟨message, h⟩ => failure?_ne_settings hfailure h) nofun

end Refusal

namespace Layer

def refused (test : Value → Bool) (refuse : Value → Refusal) (found : Option Value) :
    Option Refusal :=
  (found.filter fun v => !test v).map refuse

def refusedGlobs (entries : List (Text × Value)) (key : Text) : Option Refusal :=
  refused (·.globs?.isSome) (.noGlobs key) (given? key entries)

def refusedMode (refuse : Value → Refusal) (found : Option Value) : Option Refusal :=
  refused (fun v => (MatchMode.named? v.plain).isSome) refuse found

/-- What is said about the values in a file that have no meaning, in the order in which they are
looked at. -/
def tableRefusals (entries : List (Text × Value)) : List Refusal :=
  (refusedGlobs entries "feature_globs").toList ++ (refusedGlobs entries "step_def_globs").toList ++
    (refusedGlobs entries "exclude_globs").toList ++
    (refusedMode .noModeSpelled (given? "match_mode" entries)).toList

/-- What is said about the variables of the environment; the mode alone can be without meaning
there. -/
def variableRefusals (environment : List (Text × Text)) : List Refusal :=
  (refusedMode .noMode ((set? "CUKEDASH_MATCH_MODE" environment).map .text)).toList

/-- A reader that fails where a test does refuses what the test does not let through. -/
theorem refused_eq {α : Type} {test : Value → Bool} {refuse : Value → Refusal}
    {read : Value → Except Refusal α} (hok : ∀ v, test v = true → ∃ a, read v = .ok a)
    (hno : ∀ v, test v = false → read v = .error (refuse v)) (found : Option Value) :
    refused test refuse found = Refusal.of? (found.mapM read) := by
  cases found with
  | none => rfl
  | some v =>
    rw [refused, Option.mapM_some]
    cases htest : test v with
    | true =>
      obtain ⟨a, ha⟩ := hok v htest
      rw [ha, Option.filter_some_neg (by simp [htest])]
      rfl
    | false =>
      rw [hno v htest, Option.filter_some_pos (by simp [htest])]
      rfl

theorem refusedGlobs_eq (entries : List (Text × Value)) (key : Text) :
    refusedGlobs entries key = Refusal.of? ((given? key entries).mapM (globsOf key)) := by
  unfold refusedGlobs
  refine refused_eq ?_ ?_ _
  · intro v hv
    obtain ⟨globs, hglobs⟩ := Option.isSome_iff_exists.mp hv
    exact ⟨globs, by rw [globsOf, hglobs]⟩
  · intro v hv
    rw [globsOf, Option.isSome_eq_false_iff.mp hv |> Option.isNone_iff_eq_none.mp]

theorem refusedMode_eq (refuse : Value → Refusal) (found : Option Value) :
    refusedMode refuse found = Refusal.of? (found.mapM (MatchMode.parse refuse)) := by
  unfold refusedMode
  refine refused_eq ?_ ?_ _
  · intro v hv
    obtain ⟨mode, hmode⟩ := Option.isSome_iff_exists.mp hv
    exact ⟨mode, by rw [MatchMode.parse, hmode]⟩
  · intro v hv
    rw [MatchMode.parse, Option.isSome_eq_false_iff.mp hv |> Option.isNone_iff_eq_none.mp]

end Layer

/-- What is said about all that has no meaning in the sources of settings, in the order in which it
is come upon. -/
def Sources.refusals (src : Sources) : List Refusal :=
  Layer.tableRefusals src.user ++
    (Layer.tableRefusals src.project ++ Layer.variableRefusals src.environment)

/-! ## One layer -/

namespace Decides
variable {α β : Type} {read : β → Except Refusal α} {Means : β → α → Prop}

theorem mapM_eq_ok (h : Decides read Means) {b : Option β} {a : Option α}
    (ha : b.mapM read = .ok a) :
    Option.Rel Means b a := by
  cases b with
  | none =>
    cases ha
    exact .none
  | some b =>
    cases hr : read b with
    | error r =>
      simp only [Option.mapM_some, hr] at ha
      cases ha
    | ok a' =>
      simp only [Option.mapM_some, hr] at ha
      cases ha
      exact .some (h.ok_iff.mp hr)

theorem mapM_eq_error (h : Decides read Means) {b : Option β} {r : Refusal}
    (hb : b.mapM read = .error r) :
    ∃ b', b = some b' ∧ ∀ a, ¬ Means b' a := by
  cases b with
  | none => cases hb
  | some b =>
    cases hr : read b with
    | error r' => exact ⟨b, rfl, h.not_means hr⟩
    | ok a =>
      simp only [Option.mapM_some, hr] at hb
      cases hb

end Decides

theorem rel_map {α β : Type} {R : β → α → Prop} {f : β → α} (h : ∀ b, R b (f b)) (o : Option β) :
    Option.Rel R o (o.map f) := by
  cases o with
  | none => exact .none
  | some b => exact .some (h b)

namespace Layer

/-- What a reader of a layer comes to: the layer with what is meant for each setting, or the first
refusal. -/
inductive Reads {β : Type} (found : {α : Type} → Setting α → Option β)
    (Means : {α : Type} → Setting α → β → α → Prop) (refusals : List Refusal) :
    Except Refusal Layer → Prop where
  | ok {l : Layer} (h : Setting.All fun x => Option.Rel (Means x) (found x) (x.given l))
    (hno : refusals = []) :
      Reads found Means refusals (.ok l)
  | refused {r : Refusal} (h : ¬ Setting.All fun x => ∀ b, found x = some b → ∃ a, Means x b a)
      (hfirst : refusals.head? = some r) : Reads found Means refusals (.error r)

theorem ofTable_reads (entries : List (Text × Value)) :
    Reads (fun x => entries.lookup x.key) (fun x => x.Means) (tableRefusals entries)
      (ofTable entries) := by
  have hmode := MatchMode.parse_decides .noModeSpelled
  rw [tableRefusals, refusedGlobs_eq, refusedGlobs_eq, refusedGlobs_eq, refusedMode_eq]
  dsimp only [ofTable]
  cases hf : (given? "feature_globs" entries).mapM (globsOf "feature_globs") with
  | error r =>
    obtain ⟨v, hv, hno⟩ := (globsOf_decides _).mapM_eq_error hf
    refine .refused ?_ rfl
    intro h
    exact (h.featureGlobs v hv).elim hno
  | ok features =>
    cases hs : (given? "step_def_globs" entries).mapM (globsOf "step_def_globs") with
    | error r =>
      obtain ⟨v, hv, hno⟩ := (globsOf_decides _).mapM_eq_error hs
      refine .refused ?_ rfl
      intro h
      exact (h.definitionGlobs v hv).elim hno
    | ok definitions =>
      cases he : (given? "exclude_globs" entries).mapM (globsOf "exclude_globs") with
      | error r =>
        obtain ⟨v, hv, hno⟩ := (globsOf_decides _).mapM_eq_error he
        refine .refused ?_ rfl
        intro h
        exact (h.excludeGlobs v hv).elim hno
      | ok excluded =>
        cases hm : (given? "match_mode" entries).mapM (MatchMode.parse .noModeSpelled) with
        | error r =>
          obtain ⟨v, hv, hno⟩ := hmode.mapM_eq_error hm
          refine .refused ?_ rfl
          intro h
          exact (h.mode v hv).elim hno
        | ok mode =>
          refine .ok ?_ rfl
          refine ⟨(globsOf_decides _).mapM_eq_ok hf, (globsOf_decides _).mapM_eq_ok hs,
            (globsOf_decides _).mapM_eq_ok he, ?_, hmode.mapM_eq_ok hm⟩
          refine rel_map ?_ _
          intro v
          rfl

theorem ofVariables_reads (environment : List (Text × Text)) :
    Reads (fun x => set? x.name environment) (fun x => x.Says) (variableRefusals environment)
      (ofVariables environment) := by
  have hmode : Decides (fun t : Text => MatchMode.parse .noMode (.text t)) NamesMode :=
    ⟨(MatchMode.parse_decides .noMode).ok_iff⟩
  have hmap :
      ((set? "CUKEDASH_MATCH_MODE" environment).map Value.text).mapM (MatchMode.parse .noMode) =
        (set? "CUKEDASH_MATCH_MODE" environment).mapM fun t =>
          MatchMode.parse .noMode (.text t) := by
    cases set? "CUKEDASH_MATCH_MODE" environment with
    | none => rfl
    | some t => rfl
  rw [variableRefusals, refusedMode_eq, hmap]
  dsimp only [ofVariables]
  cases hm :
    (set? "CUKEDASH_MATCH_MODE" environment).mapM (fun t => MatchMode.parse .noMode (.text t)) with
  | error r =>
    obtain ⟨t, ht, hno⟩ := hmode.mapM_eq_error hm
    refine .refused ?_ rfl
    intro h
    exact (h.mode t ht).elim hno
  | ok mode =>
    refine .ok ?_ rfl
    refine ⟨rel_map ?_ _, rel_map ?_ _, rel_map ?_ _, rel_map ?_ _, hmode.mapM_eq_ok hm⟩
    · exact fun t => rfl
    · exact fun t => rfl
    · exact fun t => rfl
    · intro t
      show Value.bool _ = Value.bool _
      rw [List.contains_eq_mem]

end Layer

/-! ## All layers -/

namespace Sources

def settings (src : Sources) (dir : Path) : Except Refusal Settings := do
  let user ← Layer.ofTable src.user
  let project ← Layer.ofTable src.project
  let fromEnvironment ← Layer.ofVariables src.environment
  return fromEnvironment.apply (project.apply (user.apply (.standard dir)))

/-- Keys and variables that are no settings have no effect. -/
theorem Agree.settings_eq {src src' : Sources} (h : src.Agree src') (dir : Path) :
    src'.settings dir = src.settings dir := by
  have htable : ∀ {entries entries' : List (Text × Value)},
      (Setting.All fun x => entries'.lookup x.key = entries.lookup x.key) →
        Layer.ofTable entries' = Layer.ofTable entries := by
    intro entries entries' hs
    have hf : given? "feature_globs" entries' = given? "feature_globs" entries := hs.featureGlobs
    have hd : given? "step_def_globs" entries' = given? "step_def_globs" entries :=
      hs.definitionGlobs
    have he : given? "exclude_globs" entries' = given? "exclude_globs" entries := hs.excludeGlobs
    have hp : given? "enable_diagnostics" entries' = given? "enable_diagnostics" entries :=
      hs.diagnostics
    have hm : given? "match_mode" entries' = given? "match_mode" entries := hs.mode
    simp only [Layer.ofTable, hf, hd, he, hp, hm]
  have hvariables : Layer.ofVariables src'.environment = Layer.ofVariables src.environment := by
    have hset : ∀ name, src'.environment.lookup name = src.environment.lookup name →
        Layer.set? name src'.environment = Layer.set? name src.environment := fun name hn => by
          rw [Layer.set?, hn]; rfl
    have hf := hset "CUKEDASH_FEATURE_GLOBS" h.featureGlobs.2.2
    have hd := hset "CUKEDASH_STEP_DEF_GLOBS" h.definitionGlobs.2.2
    have he := hset "CUKEDASH_EXCLUDE_GLOBS" h.excludeGlobs.2.2
    have hp := hset "CUKEDASH_ENABLE_DIAGNOSTICS" h.diagnostics.2.2
    have hm := hset "CUKEDASH_MATCH_MODE" h.mode.2.2
    simp only [Layer.ofVariables, hf, hd, he, hp, hm]
  rw [settings, settings, htable (h.imp fun _ hx => hx.1), htable (h.imp fun _ hx => hx.2.1),
    hvariables]

end Sources

namespace Setting

/-- Each setting is put in place on its own. -/
theorem read_apply (fromEnvironment project user : Layer) (dir : Path) :
    All fun x => x.read (fromEnvironment.apply (project.apply (user.apply (.standard dir)))) =
      (x.given fromEnvironment).getD ((x.given project).getD ((x.given user).getD x.standard)) :=
  ⟨rfl, rfl, rfl, rfl, rfl⟩

section
variable {α : Type} {x : Setting α} {src : Sources} {fromEnvironment project user : Option α}
  (he : Option.Rel x.Says (Layer.set? x.name src.environment) fromEnvironment)
  (hp : Option.Rel x.Means (src.project.lookup x.key) project)
  (hu : Option.Rel x.Means (src.user.lookup x.key) user)
include he hp hu

theorem not_faulty_of_rel : ¬ x.Faulty src := by
  rintro (⟨hv, hno⟩ | ⟨hv, hno⟩ | ⟨ht, hne, hno⟩)
  · rw [hv] at hu
    cases hu with
    | some h => exact hno _ h
  · rw [hv] at hp
    cases hp with
    | some h => exact hno _ h
  · rw [Layer.set?, Option.filter_eq_some_iff.mpr ⟨ht, decide_eq_true hne⟩] at he
    cases he with
    | some h => exact hno _ h

/-- The last layer that gives something counts. -/
theorem resolves_getD :
    x.Resolves src (fromEnvironment.getD (project.getD (user.getD x.standard))) := by
  generalize hfound : Layer.set? x.name src.environment = found at he
  cases he with
  | some h =>
    obtain ⟨ht, hne⟩ := Option.filter_eq_some_iff.mp hfound
    exact .environment ht (of_decide_eq_true hne) h
  | none =>
    have hunset : x.Unset src := by
      intro t ht
      by_contra hne
      have hsome : Layer.set? x.name src.environment = some t :=
        Option.filter_eq_some_iff.mpr ⟨ht, decide_eq_true hne⟩
      rw [hfound] at hsome
      cases hsome
    generalize hproject : src.project.lookup x.key = inProject at hp
    cases hp with
    | some h => exact .project hunset hproject h
    | none =>
      generalize huser : src.user.lookup x.key = inUser at hu
      cases hu with
      | some h => exact .user hunset hproject huser h
      | none => exact .standard hunset hproject huser

end
end Setting

namespace Sources

/-- What sources come to: settings, each of them found on its own, or the first refusal if something
in them has no meaning. -/
inductive Yields (src : Sources) (dir : Path) : Except Refusal Settings → Prop where
  | ok {s : Settings} (hsound : src.Sound) (hno : src.refusals = [])
      (hdir : s.projectDir = .path dir) (h : Setting.All fun x => x.Resolves src (x.read s)) :
      Yields src dir (.ok s)
  | refused {r : Refusal} (h : ¬ src.Sound) (hfirst : src.refusals.head? = some r) :
      Yields src dir (.error r)

theorem settings_yields (src : Sources) (dir : Path) : src.Yields dir (src.settings dir) := by
  unfold settings
  have hu := Layer.ofTable_reads src.user
  have hp := Layer.ofTable_reads src.project
  have he := Layer.ofVariables_reads src.environment
  generalize Layer.ofTable src.user = user at hu
  generalize Layer.ofTable src.project = project at hp
  generalize Layer.ofVariables src.environment = fromEnvironment at he
  cases hu with
  | refused h hfirst =>
    refine .refused (fun hs => h (hs.imp fun x hx v hv => ?_)) ?_
    · by_contra hno
      exact hx (.user hv (not_exists.mp hno))
    · rw [refusals, List.head?_append, hfirst]
      rfl
  | @ok user hu huno =>
    cases hp with
    | refused h hfirst =>
      refine .refused (fun hs => h (hs.imp fun x hx v hv => ?_)) ?_
      · by_contra hno
        exact hx (.project hv (not_exists.mp hno))
      · rw [refusals, huno, List.nil_append, List.head?_append, hfirst]
        rfl
    | @ok project hp hpno =>
      cases he with
      | refused h hfirst =>
        refine .refused (fun hs => h (hs.imp fun x hx t ht => ?_)) ?_
        · obtain ⟨ht, hne⟩ := Option.filter_eq_some_iff.mp ht
          by_contra hno
          exact hx (.environment ht (of_decide_eq_true hne) (not_exists.mp hno))
        · rw [refusals, huno, hpno, List.nil_append, List.nil_append, hfirst]
      | @ok fromEnvironment he heno =>
        have hrel := he.and (hp.and hu)
        refine .ok (hrel.imp fun x hx => Setting.not_faulty_of_rel hx.1 hx.2.1 hx.2.2) ?_ rfl ?_
        · rw [refusals, huno, hpno, heno]
          rfl
        · refine ((Setting.read_apply fromEnvironment project user dir).and hrel).imp ?_
          rintro α x ⟨hread, he, hp, hu⟩
          rw [hread]
          exact Setting.resolves_getD he hp hu

end Sources

theorem Host.settings_eq {h : Host} {dir : Path} {src : Sources} (hsrc : h.sources dir = .ok src) :
    h.settings dir = Refusal.raise h.machine (src.settings dir) := by
  unfold Host.sources at hsrc
  unfold Host.settings
  cases hu : h.userTable with
  | error fault => rw [hu] at hsrc; cases hsrc
  | ok user =>
    cases hp : h.projectTable dir with
    | error fault => rw [hu, hp] at hsrc; cases hsrc
    | ok project =>
      rw [hu, hp] at hsrc
      cases hsrc
      simp only [Sources.settings, Refusal.raise_bind]
      rfl

/-- Settings are found one by one, layer by layer, unless something in a layer has no meaning;
nothing else in the layers counts.  The first of the things without meaning is complained about, if
the complaint can be put into words: else what keeps it from that is raised in its place. -/
theorem settings_resolve {h : Host} {dir : Path} {src : Sources} (hsrc : h.sources dir = .ok src) :
    (src.Sound ↔ src.refusals = []) ∧
      (∀ r, src.refusals.head? = some r →
        h.settings dir = .error ((r.failure? h.machine).getD (.settings r.message))) ∧
      ((∃ message, h.settings dir = .error (.settings message)) ↔
        ∃ r, src.refusals.head? = some r ∧ r.failure? h.machine = none) ∧
      (src.Sound → ∃ s, h.settings dir = .ok s ∧ s.projectDir = .path dir ∧
        Setting.All fun x => x.Resolves src (x.read s)) ∧
      ∀ (h' : Host) (src' : Sources), h'.machine = h.machine → h'.sources dir = .ok src' →
        src.Agree src' → h'.settings dir = h.settings dir := by
  rw [Host.settings_eq hsrc]
  have hyields := src.settings_yields dir
  refine ⟨?_, ?_, ?_, ?_, ?_⟩
  · generalize src.settings dir = result at hyields
    cases hyields with
    | ok hsound hno => exact iff_of_true hsound hno
    | refused h hfirst =>
      refine iff_of_false h ?_
      intro hno
      rw [hno] at hfirst
      cases hfirst
  · intro r hr
    generalize src.settings dir = result at hyields ⊢
    cases hyields with
    | ok _ hno =>
      rw [hno] at hr
      cases hr
    | refused _ hfirst =>
      rw [hr] at hfirst
      cases hfirst
      rfl
  · generalize src.settings dir = result at hyields ⊢
    cases hyields with
    | ok _ hno =>
      rw [hno]
      exact iff_of_false nofun nofun
    | @refused r _ hfirst =>
      simp only [Refusal.raise_error, hfirst, Except.error.injEq, Option.some.injEq,
        exists_eq_left', r.fault_eq_settings_iff]
  · intro hsound
    generalize src.settings dir = result at hyields ⊢
    cases hyields with
    | ok _ _ hdir h => exact ⟨_, rfl, hdir, h⟩
    | refused h => exact absurd hsound h
  · intro h' src' hmachine hsrc' hagree
    rw [Host.settings_eq hsrc', hmachine, hagree.settings_eq dir]

def layered : Host where
  disk :=
    { root := .ofText "/p"
      top := .folder [(".cukedash", .folder [("config.toml",
        .file (Utf8.encode
          "match_mode = ' Regex-Only '\nexclude_globs = ['x', 'y']\nwidth = 3\n"))])] }
  userSettings :=
    some (Utf8.encode "match_mode = 'expression'\nfeature_globs = 'a'\nstep_def_globs = ['s']\n")
  environment :=
    [("CUKEDASH_FEATURE_GLOBS", "b, c"), ("CUKEDASH_EXCLUDE_GLOBS", ""), ("HOME", "/h")]

def layeredSources : Sources where
  user := [("match_mode", .text "expression"), ("feature_globs", .text "a"),
    ("step_def_globs", .list [.text "s"])]
  project :=
    [("match_mode", .text " Regex-Only "), ("exclude_globs", .list [.text "x", .text "y"]),
      ("width", .int 3)]
  environment :=
    [("CUKEDASH_FEATURE_GLOBS", "b, c"), ("CUKEDASH_EXCLUDE_GLOBS", ""), ("HOME", "/h")]

def layeredSettings : Settings :=
  { Settings.standard (.ofText "/p") with
    featureGlobs := ["b", "c"], definitionGlobs := ["s"], excludeGlobs := ["x", "y"]
    mode := .regexOnly }

theorem settings_resolve_layered :
    layered.sources (.ofText "/p") = .ok layeredSources ∧ layeredSources.Sound ∧
      layered.settings (.ofText "/p") = .ok layeredSettings ∧
      Setting.All fun x => x.Resolves layeredSources (x.read layeredSettings) := by
  have hsrc : layered.sources (.ofText "/p") = .ok layeredSources := by
    decide +kernel
  have hsettings : layered.settings (.ofText "/p") = .ok layeredSettings := by
    rw [Host.settings_eq hsrc]
    rfl
  obtain ⟨hrefusals, -, -, hresolves, -⟩ := settings_resolve hsrc
  have hsound : layeredSources.Sound := hrefusals.mpr (by decide +kernel)
  obtain ⟨s, hs, -, hall⟩ := hresolves hsound
  rw [hsettings] at hs
  cases hs
  exact ⟨hsrc, hsound, hsettings, hall⟩

/-! ## A number that can be read and not be written -/

namespace Toml

def longDigits (n : Nat) : Text := List.replicate (n + 2) (.scalar 'f')

def longNumber (n : Nat) : Text := .scalar '0' :: .scalar 'x' :: longDigits n

def longChars (n : Nat) : List Char :=
  "feature_globs = ".toList ++ '0' :: 'x' :: List.replicate (n + 2) 'f'

def longFile (n : Nat) : Text := .ofChars (longChars n)

def longValue (n : Nat) : Value := .int (valueIn 16 (longDigits n))

theorem longFile_eq (n : Nat) : longFile n = Text.ofString "feature_globs = " ++ longNumber n := by
  have hnumber : List.map .scalar ('0' :: 'x' :: List.replicate (n + 2) 'f') = longNumber n := by
    rw [List.map_cons, List.map_cons, List.map_replicate, longNumber, longDigits]
  rw [← hnumber]
  exact List.map_append

theorem digitsLength_replicate (n : Nat) :
    digitsLength (fun p => (hexDigit? p).isSome) (List.replicate n (.scalar 'f')) = n := by
  induction n with
  | zero => rfl
  | succ n ih =>
    rw [List.replicate_succ, digitsLength]
    · rw [if_pos (by decide), ih]
    · rintro _ _ ⟨⟩

theorem valueIn_replicate (n : Nat) :
    valueIn 16 (List.replicate n (.scalar 'f')) + 1 = 16 ^ n := by
  have hfold : ∀ k, (List.replicate n (.scalar 'f')).foldl
      (fun n p => n * 16 + (hexDigit? p).getD 0) k + 1 = (k + 1) * 16 ^ n := by
    have hdigit : (hexDigit? (.scalar 'f')).getD 0 = 15 := by decide
    induction n with
    | zero =>
      intro k
      simp
    | succ n ih =>
      intro k
      rw [List.replicate_succ, List.foldl_cons, ih, hdigit, Nat.pow_succ', ← Nat.mul_assoc,
        Nat.add_mul k]
  exact (hfold 0).trans (by rw [Nat.zero_add, Nat.one_mul])

theorem le_valueIn_longDigits {n k : Nat} (h : k < 16 ^ (n + 2)) :
    k ≤ valueIn 16 (longDigits n) := by
  have hvalue := valueIn_replicate (n + 2)
  rw [longDigits]
  omega

theorem number?_longNumber (n : Nat) :
    number? (longNumber n) = some (.ok (longValue n), []) := by
  have hrun : digitRun (fun p => (hexDigit? p).isSome) (longDigits n) = longDigits n := by
    rw [longDigits, List.replicate_succ, digitRun, if_pos (by decide), digitsLength_replicate,
      ← List.replicate_succ]
    simp
  have hplain : withoutUnderscores (longDigits n) = longDigits n := by
    simp [withoutUnderscores, longDigits]
  have hbased : basedNumber? (longNumber n) = some (longValue n, []) := by
    simp only [basedNumber?, longNumber, hrun, hplain, List.drop_length, longValue]
    exact if_neg (by simp [longDigits])
  rw [number?, hbased]
  rfl

theorem ok_bind {α β : Type} (a : α) (f : α → Except Failure β) : (Except.ok a >>= f) = f a := rfl

theorem scalar_longNumber (n : Nat) : scalar.run (longNumber n) = .ok (longValue n, []) := by
  have hmoment : moment? (longNumber n) = none := rfl
  have htime : time? (longNumber n) = none := rfl
  simp [scalar, hmoment, htime, number?_longNumber]
  rfl

theorem value_longNumber (n depth : Nat) :
    (value (depth + 1)).run (longNumber n) = .ok (longValue n, []) := by
  have hno : ∀ s ∈ (["\"\"\"", "\"", "'''", "'", "true", "false", "[", "\x7b"] : List Text),
      Text.after? s (longNumber n) = none := by
    simp only [List.forall_mem_cons]
    exact ⟨rfl, rfl, rfl, rfl, rfl, rfl, rfl, rfl, nofun⟩
  simp only [List.forall_mem_cons] at hno
  obtain ⟨hthree, hone, hthree', hone', htrue, hfalse, hlist, htable, -⟩ := hno
  simp [value, looking, accept, Text.startsWith, hthree, hone, hthree', hone', htrue, hfalse,
    hlist, htable, scalar_longNumber]

theorem dottedKey_longFile (n : Nat) :
    dottedKey.run (longFile n) = .ok (["feature_globs"], Text.ofString "= " ++ longNumber n) := by
  have hfirst : keyPart.run (longFile n) =
      .ok ("feature_globs", Text.ofString " = " ++ longNumber n) := by
    rw [longFile_eq]
    rfl
  have hrest : ∀ fuel, (keyRest (fuel + 1)).run (Text.ofString " = " ++ longNumber n) =
      .ok ([], Text.ofString "= " ++ longNumber n) := fun _ => rfl
  simp [dottedKey, ok_bind, hfirst, hrest]

theorem pair_longFile (n depth : Nat) :
    (pair (value (depth + 1))).run (longFile n) = .ok ((["feature_globs"], longValue n), []) := by
  have hequals : Text.after? "=" (Text.ofString "= " ++ longNumber n) =
    some (Text.ofString " " ++ longNumber n) := rfl
  have hblank : (Text.ofString " " ++ longNumber n).dropWhile isBlank = longNumber n := rfl
  simp [pair, skipBlanks, accept, ok_bind, dottedKey_longFile, hequals, hblank, value_longNumber]

def longTable (n : Nat) : Entries := [("feature_globs", longValue n)]

theorem entry_longFile (n : Nat) :
    (entry .empty).run (longFile n) =
      .ok ({ entries := longTable n, marks := .none, header := [] }, []) := by
  simp [entry, ok_bind, pair_longFile]
  rfl

theorem statements_longFile (n fuel : Nat) :
    (statements .empty (fuel + 1)).run (longFile n) =
      .ok ({ entries := longTable n, marks := .none, header := [] }, []) := by
  obtain ⟨t, ht⟩ : ∃ t, longFile n = .scalar 'f' :: t := ⟨_, longFile_eq n⟩
  have hbare : isBareKeyPoint (.scalar 'f') = true := by decide
  have hblank : (longFile n).dropWhile isBlank = longFile n := by
    rw [ht]
    rfl
  have hbreak : Text.after? "\n" (longFile n) = none := by
    rw [ht]
    rfl
  have hcomment : Text.after? "#" [] = none := rfl
  have hstatement : (statement .empty).run (longFile n) = (entry .empty).run (longFile n) := by
    simp [statement, ht, hbare]
  have hne : longFile n ≠ [] := by simp [ht]
  simp [statements, skipBlanks, skipComment, accept, ok_bind, hblank, hne, hbreak, hstatement,
    entry_longFile, hcomment]
  rfl

theorem replace_breaks {t : Text} (h : .scalar '\r' ∉ t) : t.replace "\r\n" "\n" = t := by
  unfold Text.replace
  induction t with
  | nil => rfl
  | cons p r ih =>
    rw [List.mem_cons, not_or] at h
    rw [Text.replaceFrom, ih h.2]
    simp [Text.startsWith, Text.after?, Text.ofString, h.1]

theorem unifyBreaks_eq {t : Text} (h : .scalar '\r' ∉ t) : t.unifyBreaks = t := by
  unfold Text.unifyBreaks
  induction t with
  | nil => rfl
  | cons p r ih =>
    rw [List.mem_cons, not_or] at h
    simp [Text.unifyBreaksFrom, ih h.2, Ne.symm h.1]

theorem not_mem_longFile (n : Nat) : .scalar '\r' ∉ longFile n := by
  simp [longFile_eq, longNumber, longDigits, Text.ofString]

theorem parse_longFile (n : Nat) : parse .boundless (longFile n) = .ok (.ok (longTable n)) := by
  rw [parse]
  simp only [Machine.boundless, replace_breaks (not_mem_longFile n), statements_longFile]

end Toml

/-- A host with nothing but the given settings file of the project. -/
def Host.withProjectFile (content : Bytes) : Host where
  disk :=
    { root := .ofText "/p"
      top := .folder [(".cukedash", .folder [("config.toml", .file content)])] }
  userSettings := none
  environment := []

theorem Host.projectSettings_withProjectFile (content : Bytes) :
    (withProjectFile content).projectSettings (.ofText "/p") = some content :=
  rfl

def longHost (n : Nat) : Host :=
  .withProjectFile ((Toml.longChars n).flatMap String.utf8EncodeChar)

def longSources (n : Nat) : Sources :=
  { user := [], project := Toml.longTable n, environment := [] }

theorem sources_longHost (n : Nat) : (longHost n).sources (.ofText "/p") = .ok (longSources n) := by
  have hdecode : Utf8.decode ((Toml.longChars n).flatMap String.utf8EncodeChar) =
      .ok (Toml.longFile n) := Utf8.decode_eq_ok_iff.mpr ⟨_, rfl, rfl⟩
  have htable : (longHost n).projectTable (.ofText "/p") = .ok (Toml.longTable n) := by
    rw [longHost, Host.projectTable, Host.projectSettings_withProjectFile, Host.table,
      hdecode]
    simp only [Toml.unifyBreaks_eq (Toml.not_mem_longFile n)]
    rw [Host.withProjectFile, Toml.parse_longFile]
  rw [Host.sources, htable]
  rfl

theorem settings_longSources (n : Nat) (dir : Path) :
    (longSources n).settings dir = .error (.noGlobs "feature_globs" (Toml.longValue n)) := by
  rw [longSources, Toml.longTable, Toml.longValue]
  generalize Toml.valueIn 16 _ = v
  rfl

/-- The number is no pattern.  As it has more digits than are written, what is raised is no
complaint about it. -/
theorem settings_complaint_lost :
    (longHost 3998).sources (.ofText "/p") = .ok (longSources 3998) ∧
      ¬ (longSources 3998).Sound ∧
      (longHost 3998).settings (.ofText "/p") = .error .unwritableNumber := by
  have hsrc := sources_longHost 3998
  have hrefused := settings_longSources 3998 (.ofText "/p")
  have hlong : Text.numberLimit ≤ Toml.valueIn 16 (Toml.longDigits 3998) :=
    Toml.le_valueIn_longDigits (by decide +kernel)
  have hfault : (Refusal.noGlobs "feature_globs" (Toml.longValue 3998)).fault
      (longHost 3998).machine = .unwritableNumber := by
    rw [Refusal.fault, Refusal.failure?, Machine.unwritable?, Toml.longValue]
    generalize Toml.valueIn 16 _ = v at hlong ⊢
    simp [Value.isNested, Value.integers, hlong]
  refine ⟨hsrc, ?_, ?_⟩
  · have hyields := (longSources 3998).settings_yields (.ofText "/p")
    rw [hrefused] at hyields
    cases hyields with
    | refused h => exact h
  · rw [Host.settings_eq hsrc, hrefused, Refusal.raise_error, hfault]

end StepAtlas
