import StepAtlas.Proofs.Log
import StepAtlas.Proofs.Settings.Layers
import StepAtlas.Proofs.Utf8

/-
Settings files with anything in them.  A file from which no table can be read counts as none at all,
as long as it is text, the machine can read it to its end and the warning about it can be shown
(`Legible`).  Bytes that are no text stop the reading of the settings, and so do values that nest
too deep or numbers that are too long, and a warning with a closing tag in it that closes nothing:
it quotes the file.  Where a value has no meaning, the complaint about it may not be possible for
the same reasons (`Told`).
-/

namespace StepAtlas
namespace Host

def Reads (m : Machine) (content : Bytes) (entries : List (Text × Value)) : Prop :=
  ∃ cs : List Char, content = cs.flatMap String.utf8EncodeChar ∧
    Toml.parse m (Text.unifyBreaks (.ofChars cs)) = .ok (.ok entries)

/-- Bytes are text that can be read to its end, and if it is no table, then the warning about it can
be shown. -/
def Legible (m : Machine) (path : Text) (content : Bytes) : Prop :=
  ∃ cs : List Char, content = cs.flatMap String.utf8EncodeChar ∧
    ∃ result, Toml.parse m (Text.unifyBreaks (.ofChars cs)) = .ok result ∧
      ∀ words, result = .error words → Markup.shows (unparsed path words) = true

inductive Comes (m : Machine) (path : Text) (content : Bytes) :
    Except Fault (List (Text × Value)) → Prop where
  | table {entries : List (Text × Value)} (hlegible : Legible m path content)
      (h : Reads m content entries) :
      Comes m path content (.ok entries)
  | nothing (hlegible : Legible m path content) (h : ∀ entries, ¬ Reads m content entries) :
      Comes m path content (.ok [])
  | fault {fault : Fault} (hlegible : ¬ Legible m path content)
      (h : ∀ message, fault ≠ .settings message) :
      Comes m path content (.error fault)

section
variable {m : Machine} {cs : List Char}

/-- Bytes are the text of one list of characters only, so what is known of that list is known of
them. -/
theorem not_reads {words : Text}
    (h : Toml.parse m (Text.unifyBreaks (.ofChars cs)) = .ok (.error words))
    (entries : List (Text × Value)) : ¬ Reads m (cs.flatMap String.utf8EncodeChar) entries := by
  rintro ⟨cs', hcs', h'⟩
  rw [← Utf8.chars_unique hcs', h] at h'
  cases h'

theorem legible_iff {path : Text} :
    Legible m path (cs.flatMap String.utf8EncodeChar) ↔
      ∃ result, Toml.parse m (Text.unifyBreaks (.ofChars cs)) = .ok result ∧
        ∀ words, result = .error words → Markup.shows (unparsed path words) = true := by
  constructor
  · rintro ⟨cs', hcs', h⟩
    rwa [← Utf8.chars_unique hcs'] at h
  · exact fun h => ⟨cs, rfl, h⟩

end

theorem parse_ne_settings {m : Machine} {file : Text} {fault : Fault}
    (h : Toml.parse m file = .error fault) (message : Text) : fault ≠ .settings message := by
  rintro rfl
  unfold Toml.parse at h
  split at h
  · cases h
  · dsimp only at h
    split at h <;> cases h

theorem table_comes (m : Machine) (path : Text) (content : Bytes) :
    Comes m path content (table m path (some content)) := by
  rw [table]
  cases hd : Utf8.decode content with
  | error words =>
    refine .fault ?_ (by simp)
    rintro ⟨cs, hcs, -⟩
    rw [Utf8.decode_eq_ok_iff.mpr ⟨cs, rfl, hcs⟩] at hd
    cases hd
  | ok text =>
    obtain ⟨cs, rfl, rfl⟩ := Utf8.decode_eq_ok_iff.mp hd
    dsimp only
    cases hp : Toml.parse m (Text.unifyBreaks (.ofChars cs)) with
    | error fault =>
      refine .fault ?_ (parse_ne_settings hp)
      rw [legible_iff]
      rintro ⟨result, hresult, -⟩
      rw [hp] at hresult
      cases hresult
    | ok result =>
      cases result with
      | ok entries =>
        refine .table (legible_iff.mpr ⟨_, hp, ?_⟩) ⟨cs, rfl, hp⟩
        rintro _ ⟨⟩
      | error words =>
        dsimp only
        by_cases hshows : Markup.shows (unparsed path words) = true
        · rw [log_eq_ok_iff.mpr hshows]
          refine .nothing (legible_iff.mpr ⟨_, hp, ?_⟩) (not_reads hp)
          rintro _ ⟨⟩
          exact hshows
        · obtain ⟨complaint, hlog⟩ := log_eq_error hshows
          rw [hlog]
          refine .fault ?_ (by simp)
          rw [legible_iff]
          rintro ⟨result, hresult, h⟩
          rw [hp] at hresult
          cases hresult
          exact hshows (h words rfl)

def AllLegible (m : Machine) (path : Text) (file : Option Bytes) : Prop :=
  ∀ content, file = some content → Legible m path content

/-- A settings file is there, but it does not read as a table. -/
def Garbled (m : Machine) (file : Option Bytes) : Prop :=
  ∃ content, file = some content ∧ ∀ entries, ¬ Reads m content entries

theorem table_eq_ok_iff {m : Machine} {path : Text} {file : Option Bytes} :
    (∃ entries, table m path file = .ok entries) ↔ AllLegible m path file := by
  cases file with
  | none =>
    refine iff_of_true ⟨[], rfl⟩ ?_
    intro content h
    cases h
  | some content =>
    have hcomes := table_comes m path content
    generalize table m path (some content) = result at hcomes ⊢
    cases hcomes with
    | table hlegible =>
      refine iff_of_true ⟨_, rfl⟩ ?_
      rintro _ ⟨⟩
      exact hlegible
    | nothing hlegible =>
      refine iff_of_true ⟨_, rfl⟩ ?_
      rintro _ ⟨⟩
      exact hlegible
    | fault hlegible =>
      refine iff_of_false (by simp) ?_
      intro h
      exact hlegible (h content rfl)

/-- What goes wrong with a file is never laid to a setting. -/
theorem table_ne_settings (m : Machine) (path : Text) (file : Option Bytes) (message : Text) :
    table m path file ≠ .error (.settings message) := by
  cases file with
  | none =>
    intro h
    cases h
  | some content =>
    have hcomes := table_comes m path content
    generalize table m path (some content) = result at hcomes ⊢
    cases hcomes with
    | table | nothing =>
      intro heq
      cases heq
    | fault _ h =>
      intro heq
      exact h message (Except.error.inj heq)

/-- A garbled file counts as none. -/
theorem table_of_garbled {m : Machine} {path : Text} {file : Option Bytes}
    (hlegible : AllLegible m path file) (h : Garbled m file) :
    table m path file = table m path none := by
  obtain ⟨content, rfl, hno⟩ := h
  have hcomes := table_comes m path content
  generalize table m path (some content) = result at hcomes ⊢
  cases hcomes with
  | table _ h => exact absurd h (hno _)
  | nothing => rfl
  | fault h => exact absurd (hlegible content rfl) h

/-- The first of some refusals can be put into words. -/
def Told (m : Machine) (refusals : List Refusal) : Prop :=
  ∀ r, refusals.head? = some r → r.failure? m = none

/-- Nothing that the user's file gives for a setting is without meaning. -/
def UserMeans (h : Host) : Prop :=
  ∀ user, h.userTable = .ok user →
    Setting.All fun x => ∀ v, user.lookup x.key = some v → ∃ a, x.Means v a

/-- Reading the settings ends in settings, or with a complaint about one of them. -/
def Answered (result : Except Fault Settings) : Prop :=
  (∃ s, result = .ok s) ∨ ∃ message, result = .error (.settings message)

theorem answered_raise_iff {m : Machine} {r : Refusal} :
    Answered (Refusal.raise m (.error r)) ↔ r.failure? m = none := by
  rw [← r.fault_eq_settings_iff]
  constructor
  · rintro (⟨s, hs⟩ | ⟨message, hm⟩)
    · cases hs
    · exact ⟨message, Except.error.inj hm⟩
  · rintro ⟨message, hm⟩
    exact .inr ⟨message, congrArg Except.error hm⟩

/-- What the layers come to is an answer if the first refusal can be put into words. -/
theorem answered_sources_iff (m : Machine) (src : Sources) (dir : Path) :
    Answered (Refusal.raise m (src.settings dir)) ↔ Told m src.refusals := by
  have hyields := src.settings_yields dir
  generalize src.settings dir = result at hyields ⊢
  cases hyields with
  | ok _ hno =>
    refine iff_of_true (.inl ⟨_, rfl⟩) ?_
    rw [hno]
    exact nofun
  | refused _ hfirst =>
    rw [answered_raise_iff, Told, hfirst]
    simp

theorem not_answered_table {m : Machine} {path : Text} {file : Option Bytes} {fault : Fault}
    (h : table m path file = .error fault) : ¬ Answered (.error fault) := by
  rintro (⟨s, hs⟩ | ⟨message, hm⟩)
  · cases hs
  · rw [Except.error.inj hm] at h
    exact table_ne_settings m path file message h

theorem not_allLegible {m : Machine} {path : Text} {file : Option Bytes} {fault : Fault}
    (h : table m path file = .error fault) : ¬ AllLegible m path file := by
  intro hlegible
  obtain ⟨entries, hok⟩ := table_eq_ok_iff.mpr hlegible
  rw [h] at hok
  cases hok

/-- What is said about the values without meaning in the files and in the environment, as far as
they are looked at: the project's file is not opened if something in the user's file has no
meaning. -/
def refusals (h : Host) (dir : Path) : List Refusal :=
  match h.userTable, h.projectTable dir with
  | .ok user, .ok project => Sources.refusals { user, project, environment := h.environment }
  | .ok user, .error _ => Layer.tableRefusals user
  | .error _, _ => []

/-- The user's file is looked at first, and a complaint about it comes before the project's file is
opened. -/
theorem answered_settings_iff (h : Host) (dir : Path) :
    Answered (h.settings dir) ↔
      AllLegible h.machine userPath h.userSettings ∧
        (h.UserMeans → AllLegible h.machine (settingsPath dir).toText (h.projectSettings dir)) ∧
        Told h.machine (h.refusals dir) := by
  cases hu : h.userTable with
  | error fault =>
    rw [settings, hu]
    exact iff_of_false (not_answered_table hu) fun hright => not_allLegible hu hright.1
  | ok user =>
    have hlegible : AllLegible h.machine userPath h.userSettings := table_eq_ok_iff.mp ⟨user, hu⟩
    cases hp : h.projectTable dir with
    | ok project =>
      have hsrc : h.sources dir = .ok { user, project, environment := h.environment } := by
        rw [sources, hu, hp]; rfl
      have hproject : AllLegible h.machine (settingsPath dir).toText (h.projectSettings dir) :=
        table_eq_ok_iff.mp ⟨project, hp⟩
      rw [settings_eq hsrc, answered_sources_iff, refusals, hu, hp]
      exact ⟨fun htold => ⟨hlegible, fun _ => hproject, htold⟩, fun hright => hright.2.2⟩
    | error fault =>
      have hread := Layer.ofTable_reads user
      rw [settings, hu, refusals, hu, hp]
      simp only [bind, Except.bind]
      generalize Layer.ofTable user = layer at hread
      cases hread with
      | @refused r hno hfirst =>
        have hmeans : ¬ h.UserMeans := fun hmeans => hno (hmeans user hu)
        rw [Told, hfirst]
        refine (answered_raise_iff (m := h.machine) (r := r)).trans ?_
        constructor
        · rintro htold
          refine ⟨hlegible, fun h => absurd h hmeans, ?_⟩
          rintro _ ⟨⟩
          exact htold
        · exact fun hright => hright.2.2 r rfl
      | @ok layer hrel hnone =>
        have hmeans : h.UserMeans := by
          intro user' huser'
          rw [hu] at huser'
          cases huser'
          refine hrel.imp ?_
          intro α x hx v hv
          rw [hv] at hx
          generalize x.given layer = given at hx
          cases hx with
          | some ha => exact ⟨_, ha⟩
        exact iff_of_false (not_answered_table hp) fun hright =>
          not_allLegible hp (hright.2.1 hmeans)

/-- Settings depend on the machine, the two tables and the variables alone. -/
theorem settings_congr {h h' : Host} {dir : Path} (hm : h.machine = h'.machine)
    (hu : h.userTable = h'.userTable) (hp : h.projectTable dir = h'.projectTable dir)
    (he : h.environment = h'.environment) :
    h.settings dir = h'.settings dir := by
  rw [settings, settings, hm, hu, hp, he]

def slip : List Char := "feature_globs = = 'a'\n".toList

theorem garbled_slip : Garbled .boundless (some (slip.flatMap String.utf8EncodeChar)) := by
  have hparse : Toml.parse .boundless (Text.unifyBreaks (.ofChars slip)) =
      .ok (.error "Invalid value (at line 1, column 17)") := by decide +kernel
  exact ⟨_, rfl, not_reads hparse⟩

end Host
end StepAtlas
