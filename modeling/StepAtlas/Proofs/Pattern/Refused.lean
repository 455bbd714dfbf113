import StepAtlas.Proofs.Log
import StepAtlas.Proofs.Matching
import StepAtlas.Proofs.Pattern.GroupNames
import StepAtlas.Proofs.Pattern.Meaning
import StepAtlas.Proofs.Regex.Complaints

/-
Matching with patterns that are refused.

A regular expression literal that cannot be read, or that has a flag without a meaning, is refused
with a warning and matches nothing.  Some things go further than that and stop the matching of all
steps: a count that is too large or too long, two repertoires at once, groups that nest too deep for
the machine, and a warning that cannot be shown because the pattern in it reads like a closing tag.
Matching gives an answer exactly when no literal that is tried on a step does one of them, and then
the literals that are refused might as well not be there.
-/

namespace StepAtlas

namespace RegexLiteral

open Regex

/-! ## What becomes of a literal -/

def badFlag? (flags : Option Text) : Option CodePoint :=
  (flags.getD []).find? fun p => (flag? p).isNone

def matchingFlags (flags : Option Text) : List Flag :=
  (flags.getD []).filterMap fun p => (flag? p).getD none

def reading (m : Machine) (body : Text) (flags : Option Text) : Except Failure Pattern :=
  Pattern.parse m.named? (nameGroups body) (matchingFlags flags)

/-- The flags have a meaning, and the literal does not nest too deep for the machine. -/
structure Readable (m : Machine) (body : Text) (flags : Option Text) : Prop where
  flags_ok : badFlag? flags = none
  fits : m.exhausted? (.compile (nameGroups body) (matchingFlags flags)) = none

/-- The flags have a meaning, and the body reads as a pattern. -/
structure Compiles (m : Machine) (body : Text) (flags : Option Text) (p : Pattern) : Prop
    extends Readable m body flags where
  reading_eq : reading m body flags = .ok p

inductive Refused (m : Machine) (body : Text) (flags : Option Text) : (line : Text) → Prop
  | flag {bad : CodePoint} (h : badFlag? flags = some bad) :
    Refused m body flags
      (warning ++ "Invalid regex flag " ++ Text.quoted [bad] ++ " in /" ++ body ++ "/" ++
        flags.getD [])
  | body {c : Complaint} {place : Option Nat} (h : Readable m body flags)
    (hread : reading m body flags = .error (.complaint c place)) :
    Refused m body flags
      (warning ++ ("Invalid regex pattern /" ++ body ++ "/") ++ ": " ++
        placedMessage (nameGroups body) c place)

/-- Compiling the literal fails in a way that is no complaint about it. -/
inductive Overtaxes (m : Machine) (body : Text) (flags : Option Text) : Fault → Prop
  | exhausts {words : Text} (h : badFlag? flags = none)
    (hdeep : m.exhausted? (.compile (nameGroups body) (matchingFlags flags)) = some words) :
    Overtaxes m body flags (.stackExhausted words)
  | repeats (h : Readable m body flags)
      (hread : reading m body flags = .error .repetitionTooLarge) :
    Overtaxes m body flags .repetitionTooLarge
  | counts {digits : Nat} (h : Readable m body flags)
      (hread : reading m body flags = .error (.numberTooLong digits)) :
    Overtaxes m body flags (.numberTooLong digits)
  | clashes (h : Readable m body flags) (hread : reading m body flags = .error .repertoiresClash) :
    Overtaxes m body flags .repertoiresClash

/-- Compiling the literal brings a pattern, or a warning that can be shown. -/
structure Harmless (m : Machine) (body : Text) (flags : Option Text) : Prop where
  not_overtaxes : ∀ fault, ¬ Overtaxes m body flags fault
  shows : ∀ line, Refused m body flags line → Markup.shows line = true

section Compile

variable {m : Machine} {body line : Text} {flags : Option Text} {p : Pattern}

theorem compiles_or_refused_or_overtaxes (m : Machine) (body : Text) (flags : Option Text) :
    (∃ p, Compiles m body flags p) ∨ (∃ line, Refused m body flags line) ∨
      ∃ fault, Overtaxes m body flags fault := by
  cases hflags : badFlag? flags with
  | some bad => exact .inr (.inl ⟨_, .flag hflags⟩)
  | none =>
    cases hdeep : m.exhausted? (.compile (nameGroups body) (matchingFlags flags)) with
    | some words => exact .inr (.inr ⟨_, .exhausts hflags hdeep⟩)
    | none =>
      have hreadable : Readable m body flags := ⟨hflags, hdeep⟩
      cases hread : reading m body flags with
      | ok p => exact .inl ⟨p, hreadable, hread⟩
      | error failure =>
        cases failure with
        | complaint c place => exact .inr (.inl ⟨_, .body hreadable hread⟩)
        | repetitionTooLarge => exact .inr (.inr ⟨_, .repeats hreadable hread⟩)
        | numberTooLong digits => exact .inr (.inr ⟨_, .counts hreadable hread⟩)
        | repertoiresClash => exact .inr (.inr ⟨_, .clashes hreadable hread⟩)

theorem isSome_flag? (h : badFlag? flags = none) (p : CodePoint) (hp : p ∈ flags.getD []) :
    (flag? p).isSome = true := by
  have hnone := List.find?_eq_none.mp h p hp
  rwa [Option.isNone_iff_eq_none, ← ne_eq, ← Option.isSome_iff_ne_none] at hnone

theorem compile_eq_pattern (h : badFlag? flags = none) :
    compile m body flags =
      Pattern.compile m ("Invalid regex pattern /" ++ body ++ "/") (nameGroups body)
      (matchingFlags flags) :=
  compile_of_flags (isSome_flag? h) m body

theorem Readable.compile_eq (h : Readable m body flags) :
    compile m body flags =
      Pattern.ofReading ("Invalid regex pattern /" ++ body ++ "/") (nameGroups body)
      (reading m body flags) := by
  rw [compile_eq_pattern h.flags_ok, Pattern.compile, h.fits, reading]

theorem Compiles.compile_eq (h : Compiles m body flags p) :
    compile m body flags = .ok (some p) := by
  rw [h.toReadable.compile_eq, h.reading_eq, Pattern.ofReading]

theorem Refused.compile_eq (h : Refused m body flags line) :
    compile m body flags = log line >>= fun _ => pure none := by
  cases h with
  | flag h =>
    rw [badFlag?] at h
    rw [compile, h]
  | body h hread => rw [h.compile_eq, hread, Pattern.ofReading]

theorem Overtaxes.compile_eq {fault : Fault} (h : Overtaxes m body flags fault) :
    compile m body flags = .error fault := by
  cases h with
  | exhausts h hdeep => rw [compile_eq_pattern h, Pattern.compile, hdeep]
  | repeats h hread | counts h hread | clashes h hread =>
    rw [h.compile_eq, hread, Pattern.ofReading]

theorem Refused.compile_eq_ok_iff (h : Refused m body flags line) {x : Option Pattern} :
    compile m body flags = .ok x ↔ Markup.shows line = true ∧ x = none := by
  rw [h.compile_eq, bind_eq_ok_iff, ← log_eq_ok_iff]
  constructor
  · rintro ⟨_, hlog, hx⟩
    exact ⟨hlog, (pure_eq_ok_iff.mp hx).symm⟩
  · rintro ⟨hlog, rfl⟩
    exact ⟨(), hlog, rfl⟩

/-- A literal brings a pattern exactly when it compiles, whatever else might become of it. -/
theorem compile_eq_some_iff : compile m body flags = .ok (some p) ↔ Compiles m body flags p := by
  constructor
  · intro h
    rcases compiles_or_refused_or_overtaxes m body flags with ⟨q, hq⟩ | ⟨line, hline⟩
      | ⟨fault, hover⟩
    · have hqp := hq.compile_eq.symm.trans h
      cases hqp
      exact hq
    · exact absurd (hline.compile_eq_ok_iff.mp h).2 nofun
    · have hfault := hover.compile_eq.symm.trans h
      cases hfault
  · exact Compiles.compile_eq

theorem exists_compile_iff : (∃ x, compile m body flags = .ok x) ↔ Harmless m body flags := by
  constructor
  · rintro ⟨x, hx⟩
    refine ⟨fun fault hover => ?_, fun line hline => (hline.compile_eq_ok_iff.mp hx).1⟩
    have hfault := hover.compile_eq.symm.trans hx
    cases hfault
  · rintro ⟨hover, hshows⟩
    rcases compiles_or_refused_or_overtaxes m body flags with ⟨p, hp⟩ | ⟨line, hline⟩ | ⟨fault, h⟩
    · exact ⟨_, hp.compile_eq⟩
    · exact ⟨none, hline.compile_eq_ok_iff.mpr ⟨hshows line hline, rfl⟩⟩
    · exact absurd h (hover fault)

end Compile

/-! ## Literals that are harmless -/

theorem take_two_nameGroups (t : Text) : (nameGroups t).take 2 = t.take 2 := by
  fun_induction nameGroups t with
  | case1 r ih => rfl
  | case2 r ih => rfl
  | case3 r h ih => rfl
  | case4 p r h ih =>
    have hone : (nameGroups r).take 1 = r.take 1 := by
      have := congrArg (List.take 1) ih
      rwa [List.take_take, List.take_take] at this
    rw [List.take_succ_cons, List.take_succ_cons, hone]
  | case5 => rfl

theorem takeWhile_nameGroups (t : Text) :
    (nameGroups t).takeWhile (·.test Char.isDigit) = t.takeWhile (·.test Char.isDigit) := by
  fun_induction nameGroups t with
  | case1 r ih => rfl
  | case2 r ih => rfl
  | case3 r h ih => rfl
  | case4 p r h ih => rw [List.takeWhile_cons, List.takeWhile_cons, ih]
  | case5 => rfl

theorem bracketsFrom_nameGroups (t : Text) : BracketsFrom t (nameGroups t) := by
  have hold : Text.ofString "(?<" = [.scalar '(', .scalar '?', .scalar '<'] := rfl
  have hnew : Text.ofString "(?P<" = [.scalar '(', .scalar '?', .scalar 'P', .scalar '<'] := rfl
  fun_induction nameGroups t <;> grind [BracketsFrom]

/-- Named groups can be spelled anew without making a long number or inline flags. -/
theorem moderate_nameGroups {t : Text} (h : Moderate t) : Moderate (nameGroups t) := by
  fun_induction nameGroups t with
  | case1 r ih | case2 r ih =>
    exact .cons rfl rfl (.cons rfl rfl (.cons rfl rfl (ih h.tail.tail.tail)))
  | case3 r _ _ ih =>
    exact .cons rfl rfl (.cons rfl rfl (.cons rfl rfl (.cons rfl rfl (ih h.tail.tail.tail))))
  | case4 p r hp ih =>
    rw [moderate_cons_iff] at h ⊢
    refine ⟨⟨?_, ?_⟩, ih h.2⟩
    · rw [List.takeWhile_cons, takeWhile_nameGroups, ← List.takeWhile_cons]
      exact h.1.1
    · rw [opensFlags_congr (t := p :: r)
        (by rw [List.take_succ_cons, List.take_succ_cons, take_two_nameGroups])]
      exact h.1.2
  | case5 => exact h

theorem not_mem_ascii (flags : Option Text) : Flag.ascii ∉ matchingFlags flags := by
  intro hmem
  obtain ⟨p, -, hp⟩ := List.mem_filterMap.mp hmem
  unfold flag? at hp
  split at hp
  case h_4 => split at hp <;> cases hp
  all_goals cases hp

section Criterion

variable {m : Machine} {body : Text} {flags : Option Text}

theorem told_of_reading (hm : Moderate body) {failure : Failure}
    (h : reading m body flags = .error failure) :
    failure.Told (nameGroups body) := by
  refine Pattern.told_of_parse (moderate_nameGroups hm) ?_ h
  have hascii : (matchingFlags flags).contains .ascii = false := by simpa using not_mem_ascii flags
  rw [hascii, Bool.false_and]

theorem Compiles.harmless {p : Pattern} (h : Compiles m body flags p) : Harmless m body flags :=
  exists_compile_iff.mp ⟨_, h.compile_eq⟩

/-- A literal without ten digits in a row, without inline flags and without brackets, which does not
nest too deep. -/
structure Tame (m : Machine) (body : Text) (flags : Option Text) : Prop where
  fits : m.exhausted? (.compile (nameGroups body) (matchingFlags flags)) = none
  moderate : Moderate body
  body_brackets : .scalar '[' ∉ body
  flags_brackets : .scalar '[' ∉ flags.getD []

/-- In the warning about a tame literal, no brackets follow but those of its first word. -/
theorem Tame.exists_line (h : Tame m body flags) {line : Text} (hline : Refused m body flags line) :
    ∃ told, line = warning ++ told ∧ .scalar '[' ∉ told := by
  have hself : BracketsFrom body body := .self body
  have hflags : BracketsFrom body (flags.getD []) := fun hmem => absurd hmem h.flags_brackets
  cases hline with
  | @flag bad hbad =>
    have hquoted : BracketsFrom body (Text.quoted [bad]) := by
      refine BracketsFrom.quoted fun hmem => hflags ?_
      rw [List.mem_singleton.mp hmem]
      exact List.mem_of_find?_eq_some hbad
    have htold :
        BracketsFrom body
          ("Invalid regex flag " ++
            (Text.quoted [bad] ++ (" in /" ++ (body ++ ("/" ++ flags.getD []))))) :=
      .append (.of_string (by decide))
        (.append hquoted (.append (.of_string (by decide)) (.append hself
          (.append (.of_string (by decide)) hflags))))
    exact ⟨_, by simp only [List.append_assoc], mt htold h.body_brackets⟩
  | @body c place _ hread =>
    have hplaced : BracketsFrom body (placedMessage (nameGroups body) c place) := fun hmem =>
      bracketsFrom_nameGroups body
        (bracketsFrom_placedMessage (told_of_reading h.moderate hread) place hmem)
    have htold : BracketsFrom body ("Invalid regex pattern /" ++ (body ++ ("/" ++ (": " ++
        placedMessage (nameGroups body) c place)))) :=
      .append (.of_string (by decide)) (.append hself (.append (.of_string (by decide))
        (.append (.of_string (by decide)) hplaced)))
    exact ⟨_, by simp only [List.append_assoc], mt htold h.body_brackets⟩

/-- A tame literal brings a pattern, or a warning that can be shown. -/
theorem Tame.harmless (h : Tame m body flags) : Harmless m body flags where
  not_overtaxes fault hover := by
    cases hover with
    | exhausts _ hdeep => exact absurd (h.fits.symm.trans hdeep) nofun
    | repeats _ hread | counts _ hread | clashes _ hread => exact told_of_reading h.moderate hread
  shows line hline := by
    obtain ⟨told, rfl, htold⟩ := h.exists_line hline
    exact shows_warning htold

end Criterion

end RegexLiteral

/-! ## Matching -/

section Matching

variable {matcher : Matcher} {s : Step} {d : Definition}

structure Definition.Tries (matcher : Matcher) (s : Step) (d : Definition) : Prop where
  accepts : s.keyword.accepts d.keyword = true
  allows : matcher.mode.allows d.kind = true
  regex : d.kind = .regex

/-- The definition's pattern is a literal that does not compile. -/
structure Definition.Idle (m : Machine) (d : Definition) : Prop where
  regex : d.kind = .regex
  not_compiles : ∀ p, ¬ RegexLiteral.Compiles m d.pattern d.flags p

theorem Definition.Tries.serves_eq (h : d.Tries matcher s) :
    d.serves matcher s = RegexLiteral.compile matcher.machine d.pattern d.flags >>= fun x =>
      pure (x.bind (·.search s.text)).isSome := by
  rw [serves, if_pos h.accepts, isMatch, search, h.allows, h.regex]
  cases RegexLiteral.compile matcher.machine d.pattern d.flags <;> rfl

theorem Definition.serves_of_regex (hkind : d.kind = .regex) (h : ¬ d.Tries matcher s) :
    d.serves matcher s = .ok false := by
  rw [serves]
  split
  case isFalse => rfl
  case isTrue haccepts =>
    have hallows : matcher.mode.allows d.kind = false := by
      rw [← Bool.not_eq_true]
      exact fun hallows => h ⟨haccepts, hallows, hkind⟩
    rw [isMatch, search, hallows]
    rfl

/-- An expression always gives an answer. -/
theorem Definition.exists_serves_of_expression (hkind : d.kind = .expression) :
    ∃ b, d.serves matcher s = .ok b := by
  rw [serves]
  split
  case isFalse => exact ⟨false, rfl⟩
  case isTrue =>
    cases hallows : matcher.mode.allows .expression with
    | true => exact ⟨_, Expression.isMatch_eq hallows hkind s.text⟩
    | false =>
      rw [isMatch, search, hkind, hallows]
      exact ⟨false, rfl⟩

theorem Definition.exists_serves_iff :
    (∃ b, d.serves matcher s = .ok b) ↔
      (d.Tries matcher s → RegexLiteral.Harmless matcher.machine d.pattern d.flags) := by
  by_cases htries : d.Tries matcher s
  · simp only [htries, true_imp_iff, htries.serves_eq, bind_eq_ok_iff,
      ← RegexLiteral.exists_compile_iff]
    constructor
    · rintro ⟨b, x, hx, -⟩
      exact ⟨x, hx⟩
    · rintro ⟨x, hx⟩
      exact ⟨_, x, hx, rfl⟩
  · refine iff_of_true ?_ fun h => absurd h htries
    cases hkind : d.kind with
    | regex => exact ⟨false, serves_of_regex hkind htries⟩
    | expression => exact exists_serves_of_expression hkind

theorem Definition.Idle.servesStep_eq (h : d.Idle matcher.machine) :
    d.servesStep matcher s = false := by
  by_cases htries : d.Tries matcher s
  · rw [servesStep, htries.serves_eq]
    cases hx : RegexLiteral.compile matcher.machine d.pattern d.flags with
    | error fault => rfl
    | ok x =>
      cases x with
      | none => rfl
      | some p => exact absurd (RegexLiteral.compile_eq_some_iff.mp hx) (h.not_compiles p)
  · exact servesStep_of_serves d false (serves_of_regex h.regex htries)

theorem eq_map_of_matchSteps {ds : List Definition} {ss : List Step} {rs : List MatchResult}
    (h : matchSteps matcher ss ds = .ok rs) :
    rs = ss.map fun s => { step := s, found := ds.filter (·.servesStep matcher s) } := by
  rw [matchSteps_eq_ok_iff] at h
  induction h with
  | nil => rfl
  | cons hr _ ih => rw [List.map_cons, (matchStep_eq_ok_iff.mp hr).2, ← ih]

/-- Definitions that serve no step can be left out. -/
theorem matchSteps_filter_definitions {ds : List Definition} {ss : List Step}
    {rs : List MatchResult} {keep : Definition → Bool}
    (hkeep : ∀ d ∈ ds, keep d = false → ∀ s ∈ ss, d.servesStep matcher s = false)
    (h : matchSteps matcher ss ds = .ok rs) : matchSteps matcher ss (ds.filter keep) = .ok rs := by
  have hall := exists_matchSteps_iff.mp ⟨rs, h⟩
  obtain ⟨rs', hrs'⟩ :=
    exists_matchSteps_iff.mpr fun s hs d hd => hall s hs d (List.mem_of_mem_filter hd)
  have hfound : ∀ s ∈ ss, (ds.filter keep).filter (·.servesStep matcher s) =
      ds.filter (·.servesStep matcher s) := by
    intro s hs
    rw [List.filter_filter]
    refine List.filter_congr fun d hd => ?_
    cases hd' : keep d with
    | true => simp
    | false => simp [hkeep d hd hd' s hs]
  rw [hrs', eq_map_of_matchSteps hrs', eq_map_of_matchSteps h]
  refine congrArg _ (List.map_congr_left fun s hs => ?_)
  rw [hfound s hs]

end Matching

/-! A step that an expression matches, beside one literal more. -/

def givenStep (t : Text) : Step where
  keyword := .given
  text := t
  line := 3
  source := Path.ofText "a.feature"
  scenario := []
  feature := []

def ofRegex (body : Text) : Definition := { Expression.ofExpression body with kind := .regex }

def matchBeside (body : Text) : Except Fault (List MatchResult) :=
  matchSteps ⟨.both, .boundless⟩ [givenStep "a"] [Expression.ofExpression "a", ofRegex body]

def unclosed : Text := "(?<n>a\x7b3\x7d(?=b)\\d*"

end StepAtlas
