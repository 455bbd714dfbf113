import StepAtlas.Proofs.Text
import StepAtlas.Settings.Basic

/-
Lists of patterns in one text.  The text is split at its commas outside of braces, so a pattern may
hold commas inside of braces, and only the last one may leave a brace open.  These are all the lists
that can come out, and each of them comes out of every text that joins its patterns with commas,
whatever blanks stand around the commas and however many commas are there for nothing.
-/

namespace StepAtlas

/-- The number of open braces behind a code point.  A closing brace that closes nothing counts for
nothing. -/
def stepDepth (depth : Nat) (p : CodePoint) : Nat :=
  if p = .scalar '\x7b' then depth + 1 else if p = .scalar '\x7d' then depth - 1 else depth

def braceDepth (depth : Nat) (t : Text) : Nat := t.foldl stepDepth depth

/-- No comma of a text stands where no brace is open. -/
def Undivided (depth : Nat) : Text → Prop
  | [] => True
  | p :: r => (p = .scalar ',' → depth ≠ 0) ∧ Undivided (stepDepth depth p) r

instance instDecidableUndivided : (depth : Nat) → (t : Text) → Decidable (Undivided depth t)
  | _, [] => .isTrue trivial
  | depth, p :: r =>
    have : Decidable (Undivided (stepDepth depth p) r) :=
      instDecidableUndivided (stepDepth depth p) r
    inferInstanceAs (Decidable ((p = .scalar ',' → depth ≠ 0) ∧ Undivided (stepDepth depth p) r))

@[simp] theorem braceDepth_cons (depth : Nat) (p : CodePoint) (t : Text) :
    braceDepth depth (p :: t) = braceDepth (stepDepth depth p) t := rfl

@[simp] theorem braceDepth_append (depth : Nat) (s t : Text) :
    braceDepth depth (s ++ t) = braceDepth (braceDepth depth s) t := List.foldl_append

theorem undivided_append {depth : Nat} {s t : Text} :
    Undivided depth (s ++ t) ↔ Undivided depth s ∧ Undivided (braceDepth depth s) t := by
  induction s generalizing depth with
  | nil => simp [Undivided, braceDepth]
  | cons p s ih => simp only [List.cons_append, Undivided, ih, braceDepth_cons, and_assoc]

/-! ## Blanks -/

theorem stepDepth_of_blank {p : CodePoint} (h : p.isBlank = true) (depth : Nat) :
    stepDepth depth p = depth := by
  have hopen : p ≠ .scalar '\x7b' := by rintro rfl; cases h
  have hclose : p ≠ .scalar '\x7d' := by rintro rfl; cases h
  rw [stepDepth, if_neg hopen, if_neg hclose]

theorem braceDepth_of_blank {t : Text} (h : ∀ p ∈ t, p.isBlank = true) (depth : Nat) :
    braceDepth depth t = depth := by
  induction t with
  | nil => rfl
  | cons p t ih =>
    obtain ⟨hp, ht⟩ := List.forall_mem_cons.mp h
    rw [braceDepth_cons, stepDepth_of_blank hp, ih ht]

theorem undivided_of_blank {t : Text} (h : ∀ p ∈ t, p.isBlank = true) (depth : Nat) :
    Undivided depth t := by
  induction t with
  | nil => trivial
  | cons p t ih =>
    obtain ⟨hp, ht⟩ := List.forall_mem_cons.mp h
    refine ⟨?_, ?_⟩
    · rintro rfl
      cases hp
    · rw [stepDepth_of_blank hp]
      exact ih ht

section
variable {l r : Text} (hl : ∀ p ∈ l, p.isBlank = true) (hr : ∀ p ∈ r, p.isBlank = true)

include hl hr

theorem braceDepth_surrounded (depth : Nat) (t : Text) :
    braceDepth depth (l ++ t ++ r) = braceDepth depth t := by
  rw [braceDepth_append, braceDepth_append, braceDepth_of_blank hl, braceDepth_of_blank hr]

theorem undivided_surrounded {depth : Nat} {t : Text} :
    Undivided depth (l ++ t ++ r) ↔ Undivided depth t := by
  rw [undivided_append, undivided_append, braceDepth_of_blank hl]
  simp [undivided_of_blank hl, undivided_of_blank hr]

end

theorem braceDepth_trim (depth : Nat) (t : Text) :
    braceDepth depth t.trim = braceDepth depth t := by
  obtain ⟨l, r, hl, hr, ht⟩ := Text.exists_trim t
  rw [ht, braceDepth_surrounded hl hr, ← ht]

theorem undivided_trim {depth : Nat} {t : Text} : Undivided depth t.trim ↔ Undivided depth t := by
  obtain ⟨l, r, hl, hr, ht⟩ := Text.exists_trim t
  rw [ht, undivided_surrounded hl hr, ← ht]

/-! ## Splitting -/

theorem splitGlobsFrom_ne_nil (depth : Nat) (current t : Text) :
    splitGlobsFrom depth current t ≠ [] := by
  fun_induction splitGlobsFrom depth current t with
  | case1 => simp
  | case2 => simp
  | case3 depth current p r h depth' ih => exact ih

theorem splitGlobsFrom_cons {depth : Nat} {p : CodePoint} (h : p = .scalar ',' → depth ≠ 0)
    (current rest : Text) :
    splitGlobsFrom depth current (p :: rest) = splitGlobsFrom (stepDepth depth p) (p :: current)
      rest := by
  rw [splitGlobsFrom, if_neg fun hp => h hp.1 hp.2]
  rfl

/-- A text without a comma outside of braces is read as a whole. -/
theorem splitGlobsFrom_append {depth : Nat} {s : Text} (h : Undivided depth s)
    (current rest : Text) :
    splitGlobsFrom depth current (s ++ rest) = splitGlobsFrom (braceDepth depth s)
      (s.reverse ++ current) rest := by
  induction s generalizing depth current with
  | nil => rfl
  | cons p s ih =>
    rw [List.cons_append, splitGlobsFrom_cons h.1, ih h.2, braceDepth_cons, List.reverse_cons,
      List.append_assoc]
    rfl

/-- Entries without commas outside of braces come back, if none but the last leaves a brace open. -/
theorem splitGlobsFrom_join {es : List Text} (hne : es ≠ []) (hu : ∀ e ∈ es, Undivided 0 e)
    (hc : ∀ e ∈ es.dropLast, braceDepth 0 e = 0) :
    splitGlobsFrom 0 [] (Text.join [.scalar ','] es) = es := by
  induction es with
  | nil => exact absurd rfl hne
  | cons e es ih =>
    obtain ⟨he, hes⟩ := List.forall_mem_cons.mp hu
    cases es with
    | nil =>
      have hall := splitGlobsFrom_append he [] []
      simpa [Text.join, splitGlobsFrom] using hall
    | cons e' es =>
      obtain ⟨hclosed, hrest⟩ := List.forall_mem_cons.mp hc
      rw [Text.join_cons_cons, List.append_assoc, splitGlobsFrom_append he, hclosed,
        List.singleton_append, splitGlobsFrom, if_pos ⟨rfl, rfl⟩, ih (by simp) hes hrest,
        List.append_nil, List.reverse_reverse]

/-- The pieces have no comma outside of braces, and none but the last leaves a brace open.  The
piece that is being read is like that so far, and `depth` braces are open behind it. -/
theorem splitGlobsFrom_undivided (depth : Nat) (current : Text)
    (hd : braceDepth 0 current.reverse = depth) (hu : Undivided 0 current.reverse) (t : Text) :
    (∀ e ∈ splitGlobsFrom depth current t, Undivided 0 e) ∧
      ∀ e ∈ (splitGlobsFrom depth current t).dropLast, braceDepth 0 e = 0 := by
  induction t generalizing depth current with
  | nil => simpa [splitGlobsFrom] using hu
  | cons p t ih =>
    by_cases hp : p = .scalar ',' ∧ depth = 0
    · rw [splitGlobsFrom, if_pos hp]
      obtain ⟨hpieces, hclosed⟩ := ih 0 [] rfl trivial
      rw [List.dropLast_cons_of_ne_nil (splitGlobsFrom_ne_nil 0 [] t)]
      exact ⟨List.forall_mem_cons.mpr ⟨hu, hpieces⟩,
        List.forall_mem_cons.mpr ⟨hd.trans hp.2, hclosed⟩⟩
    · have hcomma : p = .scalar ',' → depth ≠ 0 := fun hpc hd0 => hp ⟨hpc, hd0⟩
      rw [splitGlobsFrom_cons hcomma]
      refine ih _ _ ?_ ?_
      · rw [List.reverse_cons, braceDepth_append, hd]
        rfl
      · rw [List.reverse_cons, undivided_append, hd]
        exact ⟨hu, hcomma, trivial⟩

/-! ## Lists of patterns -/

/-- Patterns that can stand in one text. -/
structure Separate (globs : List Text) : Prop where
  nonempty : ∀ g ∈ globs, g ≠ []
  trimmed : ∀ g ∈ globs, g.trim = g
  undivided : ∀ g ∈ globs, Undivided 0 g
  closed : ∀ g ∈ globs.dropLast, braceDepth 0 g = 0

abbrev Blanks := { t : Text // ∀ p ∈ t, p.isBlank = true }

inductive GlobEntry where
  | blank (t : Blanks)
  | glob (left : Blanks) (g : Text) (right : Blanks)

namespace GlobEntry

def text : GlobEntry → Text
  | .blank t => t
  | .glob left g right => left ++ g ++ right

def glob? : GlobEntry → Option Text
  | .blank _ => none
  | .glob _ g _ => some g

/-- An entry leaves a brace open exactly if its pattern does. -/
theorem braceDepth_text (e : GlobEntry) :
    braceDepth 0 e.text = 0 ↔ ∀ g, e.glob? = some g → braceDepth 0 g = 0 := by
  cases e with
  | blank t =>
    have hdepth : braceDepth 0 (text (.blank t)) = 0 := braceDepth_of_blank t.2 0
    simp [hdepth, glob?]
  | glob left g right =>
    have hdepth : braceDepth 0 (text (.glob left g right)) = braceDepth 0 g :=
      braceDepth_surrounded left.2 right.2 0 g
    simp [hdepth, glob?]

theorem undivided_text {e : GlobEntry} (h : ∀ g, e.glob? = some g → Undivided 0 g) :
    Undivided 0 e.text := by
  cases e with
  | blank t => exact undivided_of_blank t.2 0
  | glob left g right => exact (undivided_surrounded left.2 right.2).mpr (h g rfl)

theorem trim_text (e : GlobEntry) : e.text.trim = (e.glob?.map Text.trim).getD [] := by
  cases e with
  | blank t =>
    have hblank := Text.trim_append t.2 (r := []) (by simp) []
    rw [List.append_nil, List.append_nil] at hblank
    exact hblank
  | glob left g right => exact Text.trim_append left.2 right.2 g

end GlobEntry

def globsIn (es : List GlobEntry) : List Text := es.filterMap GlobEntry.glob?

theorem mem_globsIn {es : List GlobEntry} {g : Text} :
    g ∈ globsIn es ↔ ∃ e ∈ es, e.glob? = some g :=
  List.mem_filterMap

/-- No entry but the last leaves a brace open, if the last entry has a pattern or no pattern leaves
one open. -/
theorem Separate.closed_entries {es : List GlobEntry} (h : Separate (globsIn es))
    (hend : (∃ g, es.getLast?.bind GlobEntry.glob? = some g) ∨
      ∀ g ∈ globsIn es, braceDepth 0 g = 0) :
    ∀ e ∈ es.dropLast, braceDepth 0 e.text = 0 := by
  intro e he
  rw [GlobEntry.braceDepth_text]
  intro g hg
  rcases hend with ⟨last, hlast⟩ | hall
  · obtain ⟨e', he', hpattern⟩ := Option.bind_eq_some_iff.mp hlast
    obtain ⟨es, rfl⟩ := List.getLast?_eq_some_iff.mp he'
    rw [List.dropLast_concat] at he
    have hglobs : globsIn (es ++ [e']) = globsIn es ++ [last] := by simp [globsIn, hpattern]
    refine h.closed g ?_
    rw [hglobs, List.dropLast_concat]
    exact mem_globsIn.mpr ⟨e, he, hg⟩
  · exact hall g (mem_globsIn.mpr ⟨e, List.dropLast_subset es he, hg⟩)

theorem filter_trim_text {es : List GlobEntry} (hne : ∀ g ∈ globsIn es, g ≠ [])
    (ht : ∀ g ∈ globsIn es, g.trim = g) :
    ((es.map GlobEntry.text).map Text.trim).filter (· ≠ []) = globsIn es := by
  induction es with
  | nil => rfl
  | cons e es ih =>
    rw [List.map_cons, List.map_cons, e.trim_text]
    cases hg : e.glob? with
    | none =>
      have hglobs : globsIn (e :: es) = globsIn es := List.filterMap_cons_none hg
      rw [hglobs] at hne ht ⊢
      rw [List.filter_cons_of_neg (by simp), ih hne ht]
    | some g =>
      have hglobs : globsIn (e :: es) = g :: globsIn es := List.filterMap_cons_some hg
      rw [hglobs, List.forall_mem_cons] at hne ht
      rw [hglobs, Option.map_some, Option.getD_some, ht.1,
        List.filter_cons_of_pos (by simpa using hne.1), ih hne.2 ht.2]

theorem splitGlobs_separate (t : Text) : Separate (splitGlobs t) := by
  obtain ⟨hu, hc⟩ := splitGlobsFrom_undivided 0 [] rfl trivial t
  unfold splitGlobs
  generalize splitGlobsFrom 0 [] t = pieces at hu hc
  refine ⟨?_, ?_, ?_, ?_⟩
  · intro g hg
    simpa using (List.mem_filter.mp hg).2
  · intro g hg
    obtain ⟨piece, -, rfl⟩ := List.mem_map.mp (List.mem_filter.mp hg).1
    exact Text.trim_trim piece
  · intro g hg
    obtain ⟨piece, hpiece, rfl⟩ := List.mem_map.mp (List.mem_filter.mp hg).1
    exact undivided_trim.mpr (hu piece hpiece)
  · -- If the last piece is blank, then the last pattern comes from another piece, and that one
    -- closes its braces too.
    intro g hg
    have hbefore : g ∈ (pieces.dropLast.map Text.trim).filter (· ≠ []) := by
      rcases pieces.eq_nil_or_concat with rfl | ⟨before, last, rfl⟩
      · simp at hg
      · rw [List.concat_eq_append, List.map_append, List.filter_append] at hg
        rw [List.concat_eq_append, List.dropLast_concat]
        by_cases hlast : last.trim = []
        · simp only [List.map_cons, List.map_nil, hlast] at hg
          exact List.dropLast_subset _ (by simpa using hg)
        · have hsingle : ([last].map Text.trim).filter (· ≠ []) = [last.trim] := by simp [hlast]
          rw [hsingle, List.dropLast_concat] at hg
          exact hg
    obtain ⟨piece, hpiece, rfl⟩ := List.mem_map.mp (List.mem_filter.mp hbefore).1
    exact (braceDepth_trim 0 piece).trans (hc piece hpiece)

theorem splitGlobs_join {es : List GlobEntry} (h : Separate (globsIn es))
    (hend : (∃ g, es.getLast?.bind GlobEntry.glob? = some g) ∨
      ∀ g ∈ globsIn es, braceDepth 0 g = 0) :
    splitGlobs (Text.join [.scalar ','] (es.map GlobEntry.text)) = globsIn es := by
  cases es with
  | nil => rfl
  | cons e es =>
    have hu : ∀ t ∈ (e :: es).map GlobEntry.text, Undivided 0 t := by
      intro t ht
      obtain ⟨e', he', rfl⟩ := List.mem_map.mp ht
      exact GlobEntry.undivided_text fun g hg => h.undivided g (mem_globsIn.mpr ⟨e', he', hg⟩)
    have hc : ∀ t ∈ ((e :: es).map GlobEntry.text).dropLast, braceDepth 0 t = 0 := by
      intro t ht
      rw [← List.map_dropLast] at ht
      obtain ⟨e', he', rfl⟩ := List.mem_map.mp ht
      exact h.closed_entries hend e' he'
    rw [splitGlobs, splitGlobsFrom_join (by simp) hu hc]
    exact filter_trim_text h.nonempty h.trimmed

/-- Splitting undoes joining.  What comes out of any text are separate patterns.  They come out of
every text that joins them with commas, with any blanks around the commas and any blank entries;
only behind a brace that is left open there can be none. -/
theorem splitGlobs_undoes_join :
    (∀ t, Separate (splitGlobs t)) ∧
      ∀ es : List GlobEntry, Separate (globsIn es) →
        ((∃ g, es.getLast?.bind GlobEntry.glob? = some g) ∨ ∀ g ∈ globsIn es, braceDepth 0 g = 0) →
        splitGlobs (Text.join "," (es.map GlobEntry.text)) = globsIn es :=
  ⟨splitGlobs_separate, fun _ h hend => splitGlobs_join h hend⟩

/-- Two patterns with blanks around them and a blank entry between them.  The second one closes
nothing at its start and leaves a brace open at its end. -/
def crowdedEntries : List GlobEntry :=
  [.glob ⟨" ", by decide⟩ "a/*.\x7bts,js\x7d" ⟨"\t", by decide⟩, .blank ⟨"  ", by decide⟩,
    .glob ⟨"", by decide⟩ "\x7db\x7bc,d" ⟨"\n", by decide⟩]

theorem splitGlobs_undoes_join_crowded :
    Separate (globsIn crowdedEntries) ∧
      Text.join "," (crowdedEntries.map GlobEntry.text) =
        (" a/*.\x7bts,js\x7d\t,  ,\x7db\x7bc,d\n" : Text) ∧
      splitGlobs (Text.join "," (crowdedEntries.map GlobEntry.text)) =
        (["a/*.\x7bts,js\x7d", "\x7db\x7bc,d"] : List Text) := by
  have hseparate : Separate (globsIn crowdedEntries) :=
    ⟨by decide +kernel, by decide +kernel, by decide +kernel, by decide +kernel⟩
  refine ⟨hseparate, by decide +kernel, ?_⟩
  exact splitGlobs_undoes_join.2 crowdedEntries hseparate (.inl ⟨_, rfl⟩)

end StepAtlas
