import StepAtlas.Proofs.Matching
import StepAtlas.Workspace

/-
Where features come from.  A parser stamps what it reads: the feature and every step in it name the
path of the file.  The parser for feature files does so, and loading a file keeps it.
-/

namespace StepAtlas

/-- A feature that was read from a path, with all its steps. -/
structure Feature.StampedBy (f : Feature) (p : Path) : Prop where
  source : f.source = p
  steps : ∀ s ∈ f.steps, s.source = p

/-- A parser that puts the path of the file on the feature and on every step. -/
def Workspace.Stamps (w : Workspace) : Prop :=
  ∀ p t f, w.feature p t = .ok (some f) → f.StampedBy p

def Loaded.StampedBy (l : Loaded) (p : Path) : Prop := ∀ f, l = .feature f → f.StampedBy p

/-! ## The parser for feature files -/

theorem Gherkin.scenariosOf_source (source : Path) (feature : Text) (es : List Entry) :
    ∀ s ∈ (scenariosOf source feature es).2, ∀ step ∈ s.steps, step.source = source := by
  induction es with
  | nil => simp [scenariosOf]
  | cons e es ih =>
    cases e with
    | step keyword text line =>
      rw [scenariosOf]
      exact ih
    | block name line tags =>
      rw [scenariosOf]
      intro s hs step hstep
      rcases List.mem_cons.mp hs with rfl | hs
      · obtain ⟨raw, -, rfl⟩ := List.mem_map.mp hstep
        rfl
      · exact ih s hs step hstep

theorem Gherkin.result?_stampedBy {source : Path} {r : Reader} {f : Feature}
    (h : r.result? source = some f) :
    f.StampedBy source := by
  obtain ⟨⟨name, tags⟩, -, rfl⟩ := Option.map_eq_some_iff.mp h
  refine ⟨rfl, ?_⟩
  intro step hstep
  obtain ⟨s, hs, hstep⟩ := List.mem_flatMap.mp hstep
  exact scenariosOf_source source name _ s hs step hstep

theorem Gherkin.parse_stampedBy {others : List Language} {p : Path} {t : Text} {f : Feature}
    (h : parse others p t = .ok (some f)) : f.StampedBy p := by
  unfold parse at h
  dsimp only at h
  split at h
  · rw [pure_eq_ok_iff] at h
    exact result?_stampedBy h
  · rw [bind_eq_ok_iff] at h
    obtain ⟨u, -, h⟩ := h
    rw [pure_eq_ok_iff] at h
    cases h

namespace Workspace

/-- The features of a folder on a disk are stamped. -/
theorem ofDisk_stamps (languages : List Gherkin.Language) (d : Disk) (root : Path) :
    (ofDisk languages d root).Stamps := fun _ _ _ h => Gherkin.parse_stampedBy h

/-! ## Searching -/

theorem mem_addNew {found new : List Path} {p : Path} :
    p ∈ addNew found new ↔ p ∈ found ∨ p ∈ new := by
  unfold addNew
  induction new generalizing found with
  | nil => simp
  | cons q new ih =>
    rw [List.foldl_cons, ih]
    by_cases hq : found.contains q
    · rw [if_pos hq]
      have hmem : q ∈ found := List.contains_iff_mem.mp hq
      constructor
      · exact Or.imp_right (List.mem_cons_of_mem q)
      · rintro (hp | hp)
        · exact .inl hp
        · rcases List.mem_cons.mp hp with rfl | hp
          · exact .inl hmem
          · exact .inr hp
    · rw [if_neg hq, List.mem_append, List.mem_singleton, List.mem_cons, or_assoc]

/-! ## Loading -/

def answering (w : Workspace) (file : Path) (answer : Except Fault FileContent) : Workspace :=
  { w with read := fun p => if p = file then answer else w.read p }

theorem answering_stamps {w : Workspace} (hw : w.Stamps) (file : Path)
    (answer : Except Fault FileContent) :
    (w.answering file answer).Stamps := hw

theorem read_answering (w : Workspace) {file p : Path} (hp : p ≠ file)
    (answer : Except Fault FileContent) :
    (w.answering file answer).read p = w.read p := if_neg hp

theorem load_answering (w : Workspace) {file p : Path} (hp : p ≠ file)
    (answer : Except Fault FileContent) (limit : Int) (cls : FileClass) :
    (w.answering file answer).load limit cls p = w.load limit cls p := by
  unfold load
  rw [read_answering w hp]
  rfl

theorem skip_eq_ok {p : Path} {reason : Text} {l x : Loaded} (h : skip p reason l = .ok x) :
    x = l := by
  rw [skip, bind_eq_ok_iff] at h
  obtain ⟨u, -, h⟩ := h
  rw [pure_eq_ok_iff] at h
  exact h.symm

def reason? (w : Workspace) (limit : Int) (cls : FileClass) (p : Path) : Option Text :=
  match w.read p with
  | .error (.indexing words) => some words
  | .error fault => some ("unexpected read error: " ++ fault.message)
  | .ok content =>
    if limit < content.size then
      some (Text.ofInt content.size ++ " bytes exceeds the " ++ Text.ofInt limit ++ " byte limit")
    else match w.parse cls p content.text with
      | .ok _ => none
      | .error fault => some ("unexpected parse error: " ++ fault.message)

def warning? (w : Workspace) (limit : Int) (cls : FileClass) (p : Path) : Option Text :=
  (w.reason? limit cls p).map (warning ++ "Skipping " ++ p.toText ++ ": " ++ ·)

theorem exists_skip_iff {p : Path} {reason : Text} {l : Loaded} :
    (∃ x, skip p reason l = .ok x) ↔ log (warning ++ "Skipping " ++ p.toText ++ ": " ++ reason) =
      .ok () := by
  simp only [skip, bind_eq_ok_iff, pure_eq_ok_iff]
  constructor
  · rintro ⟨x, u, h, -⟩
    exact h
  · intro h
    exact ⟨l, (), h, rfl⟩

/-- A file that cannot be used stops the work only if the warning about it cannot be shown. -/
theorem exists_load_iff {w : Workspace} {limit : Int} {cls : FileClass} {p : Path} :
    (∃ x, w.load limit cls p = .ok x) ↔ ∀ words, w.warning? limit cls p = some words →
      log words = .ok () := by
  unfold load warning? reason?
  cases w.read p with
  | error fault =>
    cases fault with
    | _ => simp [exists_skip_iff]
  | ok content =>
    by_cases hs : limit < content.size
    · simp [hs, exists_skip_iff]
    · cases hp : w.parse cls p content.text with
      | ok x => simp [hs, hp]
      | error fault => simp [hs, hp, exists_skip_iff]

theorem parse_stampedBy {w : Workspace} (hw : w.Stamps) {cls : FileClass} {p : Path} {t : Text}
    {x : Loaded} (h : w.parse cls p t = .ok x) : x.StampedBy p := by
  cases cls with
  | definition =>
    rw [parse, bind_eq_ok_iff] at h
    obtain ⟨ds, -, h⟩ := h
    rw [pure_eq_ok_iff] at h
    intro f hf
    rw [← h] at hf
    cases hf
  | feature =>
    rw [parse, bind_eq_ok_iff] at h
    obtain ⟨found, hfound, h⟩ := h
    cases found with
    | none =>
      rw [pure_eq_ok_iff] at h
      intro f hf
      rw [← h] at hf
      cases hf
    | some g =>
      rw [pure_eq_ok_iff] at h
      intro f hf
      rw [← h] at hf
      cases hf
      exact hw p t g hfound

/-- A file brings a stamped feature, or no feature at all. -/
theorem load_stampedBy {w : Workspace} (hw : w.Stamps) {limit : Int} {cls : FileClass} {p : Path}
    {x : Loaded} (h : w.load limit cls p = .ok x) : x.StampedBy p := by
  have hskip : ∀ {reason : Text} {l : Loaded}, (∀ f, l ≠ .feature f) → skip p reason l = .ok x →
      x.StampedBy p := by
    intro reason l hl hx f hf
    exact absurd ((skip_eq_ok hx).symm.trans hf) (hl f)
  unfold load at h
  split at h
  · exact hskip (by simp) h
  · exact hskip (by simp) h
  · split at h
    · exact hskip (by simp) h
    · split at h
      · rename_i l hl
        cases h
        exact parse_stampedBy hw hl
      · exact hskip (by simp) h

end Workspace

end StepAtlas
