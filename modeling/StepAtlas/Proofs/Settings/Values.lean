import StepAtlas.Proofs.Text
import StepAtlas.Settings.Basic

/-
What values mean as settings.  `Value.Globs` says which patterns a value gives, and `NamesMode`
which mode a text names.  Each has a reader in the library, and `Decides` ties the two: the reader
succeeds exactly with what is meant, and what means nothing is refused.
-/

namespace StepAtlas

/-- A reader gives what a relation says, and refuses what it says nothing of. -/
structure Decides {α β : Type} (read : β → Except Refusal α) (Means : β → α → Prop) : Prop where
  ok_iff : ∀ {b a}, read b = .ok a ↔ Means b a

theorem Decides.not_means {α β : Type} {read : β → Except Refusal α} {Means : β → α → Prop}
    (h : Decides read Means) {b : β} {r : Refusal} (hb : read b = .error r) (a : α) :
    ¬ Means b a := by
  intro ha
  rw [h.ok_iff.mpr ha] at hb
  cases hb

/-! ## Equality -/

namespace Value

mutual

/-- Whether two values are built alike, so that equations between values can be decided.  What the
program goes by is `Value.same`, for which `1` and `1.0` are equal. -/
def beq : Value → Value → Bool
  | .null, .null => true
  | .bool a, .bool b => a = b
  | .int a, .int b => a = b
  | .float a, .float b => a = b
  | .text a, .text b => a = b
  | .date a, .date b => a = b
  | .time a, .time b => a = b
  | .moment a, .moment b => a = b
  | .path a, .path b => a = b
  | .list a, .list b => beqAll a b
  | .table a, .table b => beqEntries a b
  | _, _ => false

def beqAll : List Value → List Value → Bool
  | [], [] => true
  | v :: vs, w :: ws => beq v w && beqAll vs ws
  | _, _ => false

def beqEntries : List (Text × Value) → List (Text × Value) → Bool
  | [], [] => true
  | (k, v) :: vs, (l, w) :: ws => k = l && beq v w && beqEntries vs ws
  | _, _ => false

end

mutual

theorem beq_iff : (v w : Value) → (v.beq w = true ↔ v = w)
  | .list vs, w => by cases w <;> simp [beq, beqAll_iff vs]
  | .table es, w => by cases w <;> simp [beq, beqEntries_iff es]
  | .null, w | .bool _, w | .int _, w | .float _, w | .text _, w | .date _, w | .time _, w
  | .moment _, w | .path _, w => by cases w <;> simp [beq]

theorem beqAll_iff : (vs ws : List Value) → (beqAll vs ws = true ↔ vs = ws)
  | [], ws => by cases ws <;> simp [beqAll]
  | v :: vs, ws => by cases ws <;> simp [beqAll, beq_iff v, beqAll_iff vs]

theorem beqEntries_iff : (vs ws : List (Text × Value)) → (beqEntries vs ws = true ↔ vs = ws)
  | [], ws => by cases ws <;> simp [beqEntries]
  | (k, v) :: vs, ws => by
    cases ws <;> simp [beqEntries, beq_iff v, beqEntries_iff vs, Prod.ext_iff]

end

instance : DecidableEq Value := fun v w => decidable_of_iff _ (beq_iff v w)

end Value

deriving instance DecidableEq for Settings

/-! ## Patterns -/

inductive Value.Globs : Value → List Text → Prop where
  | one (t : Text) : Globs (.text t) [t]
  | many (ts : List Text) : Globs (.list (ts.map .text)) ts

theorem Value.text?_eq_some_iff {v : Value} {t : Text} : v.text? = some t ↔ v = .text t := by
  cases v with
  | text s => simp [text?]
  | _ => simp [text?]

theorem Value.mapM_text?_eq_some_iff {items : List Value} {ts : List Text} :
    items.mapM text? = some ts ↔ items = ts.map .text := by
  induction items generalizing ts with
  | nil =>
    cases ts with
    | nil => simp
    | cons t ts => simp
  | cons v items ih =>
    rw [List.mapM_cons]
    cases ts with
    | nil => simp [Option.bind_eq_some_iff]
    | cons t ts => simp [Option.bind_eq_some_iff, text?_eq_some_iff, ih]

theorem Value.globs?_eq_some_iff {v : Value} {globs : List Text} :
    v.globs? = some globs ↔ v.Globs globs := by
  constructor
  · intro h
    cases v with
    | text t =>
      obtain rfl : [t] = globs := Option.some.inj h
      exact .one t
    | list items =>
      rw [mapM_text?_eq_some_iff.mp h]
      exact .many globs
    | _ => cases h
  · rintro (t | ts)
    · rfl
    · exact mapM_text?_eq_some_iff.mpr rfl

theorem globsOf_decides (key : Text) : Decides (globsOf key) Value.Globs := by
  constructor
  intro v globs
  rw [← Value.globs?_eq_some_iff, globsOf]
  cases v.globs? with
  | none => simp
  | some globs => simp

/-! ## Modes -/

/-- A text names a mode: its word in any case, perhaps with `-only` behind it, and blanks around. -/
inductive NamesMode (t : Text) (mode : MatchMode) : Prop where
  | intro {before name behind : Text} (hbefore : ∀ p ∈ before, p.isBlank = true)
      (hbehind : ∀ p ∈ behind, p.isBlank = true) (ht : t = before ++ name ++ behind)
      (hname : name.lowerAscii = mode.word ∨ name.lowerAscii = mode.word ++ "-only")

namespace Text

/-- Small letters are no blanks, and neither are capital ones. -/
theorem isBlank_lowerAscii (p : CodePoint) : p.lowerAscii.isBlank = p.isBlank := by
  cases p with
  | surrogate => rfl
  | scalar c =>
    rw [CodePoint.lowerAscii]
    delta Char.toLower
    split
    · rename_i h
      have hcapital : 65 ≤ c.toNat ∧ c.toNat ≤ 90 := by simpa [UInt32.le_iff_toNat_le] using h
      have hsmall : (c.val + ('a'.val - 'A'.val)).toNat = c.toNat + 32 := by
        rw [UInt32.toNat_add, show c.val.toNat = c.toNat from rfl]
        simp
        omega
      simp only [CodePoint.isBlank, CodePoint.toNat, Char.toNat, hsmall]
      simp only [Char.toNat] at hcapital
      grind
    · rfl

def BareEnds (t : Text) : Prop :=
  (∀ p ∈ t.head?, p.isBlank = false) ∧ ∀ p ∈ t.getLast?, p.isBlank = false

instance (t : Text) : Decidable (BareEnds t) :=
  inferInstanceAs
    (Decidable ((∀ p ∈ t.head?, p.isBlank = false) ∧ ∀ p ∈ t.getLast?, p.isBlank = false))

theorem BareEnds.trim_eq {t : Text} (h : BareEnds t) : trim t = t := by
  cases t with
  | nil => rfl
  | cons p t =>
    rw [trim, trimLeft_of_head (h.1 p rfl)]
    have hlast : (p :: t).getLast? = some ((p :: t).getLast (List.cons_ne_nil p t)) :=
      List.getLast?_eq_some_getLast (List.cons_ne_nil p t)
    exact trimRight_of_last hlast (h.2 _ hlast)

/-- Texts that differ in their case only have their blanks in the same places. -/
theorem bareEnds_lowerAscii {t : Text} (h : BareEnds t.lowerAscii) : BareEnds t := by
  constructor
  · intro p hp
    rw [← isBlank_lowerAscii]
    refine h.1 _ ?_
    rw [lowerAscii, List.head?_map, Option.mem_def.mp hp]
    rfl
  · intro p hp
    rw [← isBlank_lowerAscii]
    refine h.2 _ ?_
    rw [lowerAscii, List.getLast?_map, Option.mem_def.mp hp]
    rfl

end Text

namespace MatchMode

theorem ofWord?_eq_some_iff {t : Text} {mode : MatchMode} :
    ofWord? t = some mode ↔ t = mode.word := by
  constructor
  · intro h
    have hword := List.find?_some h
    exact (of_decide_eq_true hword).symm
  · rintro rfl
    cases mode with
    | both | regexOnly | expressionOnly => rfl

/-- A word without the ending `-only`, if it has it. -/
def stem (word : Text) : Text :=
  if Text.endsWith word "-only" then word.dropLast.dropLast.dropLast.dropLast.dropLast else word

theorem stem_eq_word_iff {word : Text} {mode : MatchMode} :
    stem word = mode.word ↔ word = mode.word ∨ word = mode.word ++ "-only" := by
  constructor
  · intro h
    rw [stem] at h
    split at h
    · rename_i hends
      obtain ⟨s, rfl⟩ := Text.endsWith_iff.mp hends
      have hdrop : (s ++ ("-only" : Text)).dropLast.dropLast.dropLast.dropLast.dropLast = s := by
        simp [Text.ofString, List.dropLast_append_of_ne_nil]
      exact .inr (by rw [← h, hdrop])
    · exact .inl h
  · rintro (rfl | rfl)
    · cases mode with
      | both | regexOnly | expressionOnly => rfl
    · cases mode with
      | both | regexOnly | expressionOnly => rfl

theorem namesMode_iff {t : Text} {mode : MatchMode} :
    NamesMode t mode ↔ (Text.trim t).lowerAscii = mode.word ∨
      (Text.trim t).lowerAscii = mode.word ++ "-only" := by
  constructor
  · rintro ⟨hbefore, hbehind, rfl, hname⟩
    rename_i before name behind
    have hbare : Text.BareEnds name := by
      apply Text.bareEnds_lowerAscii
      rcases hname with h | h
      · rw [h]
        cases mode with
        | both | regexOnly | expressionOnly => decide
      · rw [h]
        cases mode with
        | both | regexOnly | expressionOnly => decide
    rw [Text.trim_append hbefore hbehind, hbare.trim_eq]
    exact hname
  · intro h
    obtain ⟨before, behind, hbefore, hbehind, ht⟩ := Text.exists_trim t
    exact ⟨hbefore, hbehind, ht, h⟩

theorem named?_eq_some_iff {t : Text} {mode : MatchMode} :
    named? t = some mode ↔ NamesMode t mode := by
  rw [namesMode_iff, ← stem_eq_word_iff, ← ofWord?_eq_some_iff, named?, ← stem]

theorem parse_decides (refuse : Value → Refusal) :
    Decides (MatchMode.parse refuse) fun v => NamesMode v.plain := by
  constructor
  intro v mode
  rw [← named?_eq_some_iff, MatchMode.parse]
  cases named? v.plain with
  | none => simp
  | some mode => simp

end MatchMode
end StepAtlas
