import StepAtlas.Proofs.Glob.Braces
import StepAtlas.Proofs.Glob.Pattern

/-
Patterns that exclude directories by name: `**/name/**`, and `**/{a,b}/**` for several names.  A
star passes slashes and may pass nothing, and the path is also tried with a slash in front.  So the
pattern looks for the name between two slashes, and it finds it if one of the names on the path, but
not the last one, is that name.
-/

namespace StepAtlas
namespace Glob

def directoryPattern (name : Text) : Text := "**/" ++ name ++ "/**"

def directoriesPattern (names : List Text) : Text := "**/\x7b" ++ Text.join "," names ++ "\x7d/**"

/-- The name of a directory that can be put into a pattern. -/
def IsDirectoryName (name : Text) : Prop := ∀ p ∈ name, p ∉ ("/,\x7b\x7d*?[" : Text)

instance (name : Text) : Decidable (IsDirectoryName name) :=
  inferInstanceAs (Decidable (∀ p ∈ name, p ∉ _))

namespace IsDirectoryName

variable {name : Text}

theorem not_mem (h : IsDirectoryName name) {p : CodePoint} (hp : p ∈ ("/,\x7b\x7d*?[" : Text)) :
    p ∉ name :=
  fun hmem => h p hmem hp

theorem not_isBrace (h : IsDirectoryName name) : ∀ p ∈ name, isBrace p = false := by
  intro p hp
  refine Bool.eq_false_iff.mpr fun hbrace => ?_
  have heq : p = .scalar '\x7b' ∨ p = .scalar '\x7d' := by simpa [isBrace] using hbrace
  rcases heq with rfl | rfl
  · exact h _ hp (by decide)
  · exact h _ hp (by decide)

theorem isPlain (h : IsDirectoryName name) : ∀ p ∈ name, isPlain p = true := by
  intro p hp
  have hsubset : ([.scalar '*', .scalar '?', .scalar '['] : Text) ⊆ ("/,\x7b\x7d*?[" : Text) := by
    decide
  exact decide_eq_true fun hmem => h p hp (hsubset hmem)

end IsDirectoryName

/-! ## A name between two slashes -/

theorem fits_directoryPattern {name : Text} (h : IsDirectoryName name) {t : Text} :
    fits (directoryPattern name) t = true ↔
      ∃ s r, t = s ++ .scalar '/' :: (name ++ .scalar '/' :: r) := by
  have hmiddle : ∀ p ∈ .scalar '/' :: name ++ [.scalar '/'], isPlain p = true := by
    intro p hp
    rcases List.mem_append.mp hp with hp | hp
    · rcases List.mem_cons.mp hp with rfl | hp
      · rfl
      · exact h.isPlain p hp
    · rw [List.mem_singleton.mp hp]
      rfl
  have hpieces : pieces (directoryPattern name) =
      [.star, .star] ++
        ((.scalar '/' :: name ++ [.scalar '/'] : Text).map .one ++ [.star, .star]) := by
    have heq : directoryPattern name =
        .scalar '*' :: .scalar '*' ::
          (.scalar '/' :: name ++ [.scalar '/'] ++ [.scalar '*', .scalar '*']) := by
      simp [directoryPattern, Text.ofString]
    rw [heq, pieces_star, pieces_star, pieces_append hmiddle]
    rfl
  rw [fits_iff, hpieces, fits_append_iff]
  constructor
  · rintro ⟨s, r, rfl, -, hr⟩
    obtain ⟨s', r', rfl, hs', -⟩ := fits_append_iff.mp hr
    rw [fits_ones_iff.mp hs']
    exact ⟨s, r', by simp⟩
  · rintro ⟨s, r, rfl⟩
    refine ⟨s, .scalar '/' :: (name ++ .scalar '/' :: r), rfl, fits_star_star s,
      fits_append_iff.mpr ?_⟩
    exact ⟨.scalar '/' :: name ++ [.scalar '/'], r,
      by simp, fits_ones_iff.mpr rfl, fits_star_star r⟩

theorem mem_dropLast_iff {α : Type} {x : α} {xs : List α} :
    x ∈ xs.dropLast ↔ ∃ before behind, xs = before ++ x :: behind ∧ behind ≠ [] := by
  constructor
  · intro h
    obtain ⟨before, behind, hsplit⟩ := List.append_of_mem h
    have hne : xs ≠ [] := by
      rintro rfl
      cases h
    refine ⟨before, behind ++ [xs.getLast hne], ?_, by simp⟩
    conv_lhs => rw [← List.dropLast_append_getLast hne, hsplit]
    simp
  · rintro ⟨before, behind, rfl, hne⟩
    rw [List.dropLast_append_of_ne_nil (by simp), List.dropLast_cons_of_ne_nil hne]
    simp

/-- On a path with a slash in front, the names between two slashes are those before the last one. -/
theorem between_slashes_iff {name : Text} (hname : .scalar '/' ∉ name) {components : List Text}
    (h : ∀ c ∈ components, .scalar '/' ∉ c) :
    (∃ s r, .scalar '/' :: Text.join [.scalar '/'] components = s ++
      .scalar '/' :: (name ++ .scalar '/' :: r)) ↔
      name ∈ components.dropLast := by
  rw [mem_dropLast_iff]
  constructor
  · rintro ⟨s, r, heq⟩
    have hcomponents : components ≠ [] := by
      rintro rfl
      have hlength : 1 = (s ++ .scalar '/' :: (name ++ .scalar '/' :: r)).length :=
        congrArg List.length heq
      simp only [List.length_append, List.length_cons] at hlength
      omega
    -- Both sides are split at the slashes, which leaves the name between the names before it and
    -- those behind it.
    have hsplit := congrArg (Text.splitAt (.scalar '/')) heq
    have hleft : Text.splitAt (.scalar '/') (.scalar '/' :: Text.join [.scalar '/'] components) =
        [] :: components := by
      rw [Text.splitAt, if_pos rfl, Text.splitAt_join hcomponents h]
    rw [hleft, Text.splitAt_append_cons, Text.splitAt_append hname] at hsplit
    cases hs : Text.splitAt (.scalar '/') s with
    | nil => exact absurd hs (Text.splitAt_ne_nil _ s)
    | cons first before =>
      rw [hs, List.cons_append] at hsplit
      exact ⟨before, Text.splitAt (.scalar '/') r, (List.cons.inj hsplit).2,
        Text.splitAt_ne_nil _ r⟩
  · rintro ⟨before, behind, rfl, hne⟩
    have htail : Text.join [.scalar '/'] (name :: behind) =
        name ++ .scalar '/' :: Text.join [.scalar '/'] behind := by
      have happend := Text.join_append [.scalar '/'] (List.cons_ne_nil name []) hne
      simpa [Text.join] using happend
    cases before with
    | nil =>
      exact ⟨[], Text.join [.scalar '/'] behind, by rw [List.nil_append, htail, List.nil_append]⟩
    | cons first before =>
      refine ⟨.scalar '/' :: Text.join [.scalar '/'] (first :: before),
        Text.join [.scalar '/'] behind, ?_⟩
      rw [Text.join_append _ (by simp) (by simp), htail]
      simp

theorem fits_directory_iff {name : Text} (hname : IsDirectoryName name) {components : List Text}
    (h : ∀ c ∈ components, .scalar '/' ∉ c) :
    (fits (directoryPattern name) (Text.join "/" components) ||
        fits (directoryPattern name) (.scalar '/' :: Text.join "/" components)) = true ↔
      name ∈ components.dropLast := by
  rw [Bool.or_eq_true, fits_directoryPattern hname, fits_directoryPattern hname,
    ← between_slashes_iff (hname.not_mem (by decide)) h]
  constructor
  · rintro (⟨s, r, heq⟩ | heq)
    · exact ⟨.scalar '/' :: s, r, congrArg (CodePoint.scalar '/' :: ·) heq⟩
    · exact heq
  · exact .inr

/-! ## Several names -/

theorem expand_directoryPattern {name : Text} (h : IsDirectoryName name) :
    expand (directoryPattern name) = [directoryPattern name] := by
  refine expand_of_none (group?_eq_none fun hmem => ?_)
  have hbrace : CodePoint.scalar '\x7b' ∉ name := h.not_mem (by decide)
  simp [directoryPattern, Text.ofString, hbrace] at hmem

theorem comma_mem_join {names : List Text} (h : 2 ≤ names.length) :
    .scalar ',' ∈ Text.join [.scalar ','] names := by
  match names, h with
  | first :: second :: rest, _ =>
    rw [Text.join_cons_cons]
    simp

theorem not_isBrace_join {names : List Text} (h : ∀ name ∈ names, IsDirectoryName name) :
    ∀ p ∈ Text.join [.scalar ','] names, isBrace p = false := by
  induction names with
  | nil => simp [Text.join]
  | cons name names ih =>
    obtain ⟨hname, hnames⟩ := List.forall_mem_cons.mp h
    cases names with
    | nil => simpa [Text.join] using hname.not_isBrace
    | cons second rest =>
      rw [Text.join_cons_cons]
      intro p hp
      rcases List.mem_append.mp hp with hp | hp
      · rcases List.mem_append.mp hp with hp | hp
        · exact hname.not_isBrace p hp
        · rw [List.mem_singleton.mp hp]
          rfl
      · exact ih hnames p hp

/-- The pattern for several names stands for the patterns of the single ones. -/
theorem mem_expand_directoriesPattern {names : List Text} (hlength : 2 ≤ names.length)
    (h : ∀ name ∈ names, IsDirectoryName name) {p : Text} :
    p ∈ expand (directoriesPattern names) ↔ ∃ name ∈ names, p = directoryPattern name := by
  have hgroup : group? (directoriesPattern names) =
      some (Text.ofString "**/", Text.join [.scalar ','] names, Text.ofString "/**") := by
    have hbody : body? (Text.join [.scalar ','] names ++ .scalar '\x7d' :: Text.ofString "/**") =
        some (Text.join [.scalar ','] names, Text.ofString "/**") :=
      body?_eq_some_iff.mpr ⟨rfl, not_isBrace_join h⟩
    have heq : directoriesPattern names = Text.ofString "**/" ++
        .scalar '\x7b' ::
          (Text.join [.scalar ','] names ++ .scalar '\x7d' :: Text.ofString "/**") := by
      simp [directoriesPattern, Text.ofString]
    rw [heq, group?_append_left (by decide), group?_cons_of_body hbody (comma_mem_join hlength)]
    rfl
  have hne : names ≠ [] := by
    rintro rfl
    simp at hlength
  rw [expand_of_group hgroup, List.mem_eraseDups,
    Text.splitAt_join hne fun name hname => (h name hname).not_mem (by decide), List.mem_flatMap]
  refine exists_congr fun name => and_congr_right fun hname => ?_
  show p ∈ expand (directoryPattern name) ↔ _
  rw [expand_directoryPattern (h name hname), List.mem_singleton]

/-- Directories are excluded by name, at the top as well as further down.  A file of that name is
not, and neither is a name that only contains it. -/
theorem fitsAny_directories_iff (components : List Text) (h : ∀ c ∈ components, .scalar '/' ∉ c) :
    (∀ names : List Text, 2 ≤ names.length → (∀ name ∈ names, IsDirectoryName name) →
      (fitsAny [directoriesPattern names] (Text.join "/" components) = true ↔
        ∃ name ∈ names, name ∈ components.dropLast)) ∧
      ∀ name : Text, IsDirectoryName name →
        (fitsAny [directoryPattern name] (Text.join "/" components) = true ↔
          name ∈ components.dropLast) := by
  constructor
  · intro names hlength hnames
    simp only [fitsAny, List.any_cons, List.any_nil, Bool.or_false, List.any_eq_true]
    constructor
    · rintro ⟨p, hp, hfits⟩
      obtain ⟨name, hname, rfl⟩ := (mem_expand_directoriesPattern hlength hnames).mp hp
      exact ⟨name, hname, (fits_directory_iff (hnames name hname) h).mp hfits⟩
    · rintro ⟨name, hname, hmem⟩
      refine ⟨directoryPattern name,
        (mem_expand_directoriesPattern hlength hnames).mpr ⟨name, hname, rfl⟩, ?_⟩
      exact (fits_directory_iff (hnames name hname) h).mpr hmem
  · intro name hname
    rw [← fits_directory_iff hname h, fitsAny, List.any_cons, List.any_nil, Bool.or_false,
      expand_directoryPattern hname, List.any_cons, List.any_nil, Bool.or_false]

/-- The directory at the top is excluded.  The file of that name is not, and neither is the
directory whose name starts with it. -/
theorem fitsAny_directories_iff_dist :
    fitsAny [("**/\x7bdist,out\x7d/**" : Text)] "dist/a/b.ts" = true ∧
      fitsAny [("**/\x7bdist,out\x7d/**" : Text)] "a/distant/out" = false ∧
      fitsAny [("**/dist/**" : Text)] "a/dist/b.ts" = true := by
  have hnames : ∀ name ∈ (["dist", "out"] : List Text), IsDirectoryName name := by decide
  have htop := fitsAny_directories_iff ["dist", "a", "b.ts"] (by decide)
  have hfile := fitsAny_directories_iff ["a", "distant", "out"] (by decide)
  have hbelow := fitsAny_directories_iff ["a", "dist", "b.ts"] (by decide)
  refine ⟨(htop.1 ["dist", "out"] (by decide) hnames).mpr (by decide), ?_,
    (hbelow.2 "dist" (by decide)).mpr (by decide)⟩
  refine Bool.eq_false_iff.mpr fun hfits => ?_
  exact absurd ((hfile.1 ["dist", "out"] (by decide) hnames).mp hfits) (by decide)

end Glob
end StepAtlas
