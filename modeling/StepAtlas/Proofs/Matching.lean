import Mathlib.Data.List.Forall2
import Mathlib.Data.List.Perm.Basic
import StepAtlas.Matching

/-
What matching brings when it does not fail.  A step gets the definitions that serve it, in their
order, and steps are matched one by one: taking some of the steps takes their results, and another
order of the definitions changes nothing but the order in which they are found.
-/

namespace StepAtlas

theorem bind_eq_ok_iff {α β : Type} {x : Except Fault α} {f : α → Except Fault β} {b : β} :
    (x >>= f) = .ok b ↔ ∃ a, x = .ok a ∧ f a = .ok b := by
  cases x with
  | error fault => simp [bind, Except.bind]
  | ok a => simp [bind, Except.bind]

theorem pure_eq_ok_iff {α : Type} {a b : α} : (pure a : Except Fault α) = .ok b ↔ a = b := by
  simp [pure, Except.pure]

theorem filterAuxM_eq_ok_iff {α : Type} {test : α → Except Fault Bool} {keep : α → Bool}
    (hkeep : ∀ a b, test a = .ok b → keep a = b) (xs acc ys : List α) :
    List.filterAuxM test xs acc = .ok ys ↔
      (∀ a ∈ xs, ∃ b, test a = .ok b) ∧ ys = (xs.filter keep).reverse ++ acc := by
  induction xs generalizing acc with
  | nil =>
    rw [List.filterAuxM, pure_eq_ok_iff]
    simp [eq_comm]
  | cons a xs ih =>
    rw [List.filterAuxM, bind_eq_ok_iff]
    constructor
    · rintro ⟨b, ha, h⟩
      rw [ih] at h
      refine ⟨?_, ?_⟩
      · intro x hx
        rcases List.mem_cons.mp hx with rfl | hx
        · exact ⟨b, ha⟩
        · exact h.1 x hx
      · rw [h.2, List.filter_cons, hkeep a b ha]
        cases b <;> simp [cond]
    · rintro ⟨hall, rfl⟩
      obtain ⟨b, ha⟩ := hall a List.mem_cons_self
      refine ⟨b, ha, (ih _).mpr ⟨fun x hx => hall x (List.mem_cons_of_mem a hx), ?_⟩⟩
      rw [List.filter_cons, hkeep a b ha]
      cases b <;> simp [cond]

theorem filterM_eq_ok_iff {α : Type} {test : α → Except Fault Bool} {keep : α → Bool}
    (hkeep : ∀ a b, test a = .ok b → keep a = b) (xs ys : List α) :
    xs.filterM test = .ok ys ↔ (∀ a ∈ xs, ∃ b, test a = .ok b) ∧ ys = xs.filter keep := by
  rw [List.filterM, bind_eq_ok_iff]
  simp only [filterAuxM_eq_ok_iff hkeep, pure_eq_ok_iff, List.append_nil]
  constructor
  · rintro ⟨as, ⟨hall, rfl⟩, rfl⟩
    exact ⟨hall, List.reverse_reverse _⟩
  · rintro ⟨hall, rfl⟩
    exact ⟨_, ⟨hall, rfl⟩, List.reverse_reverse _⟩

namespace Definition

/-- Whether a definition is known to serve a step. -/
def servesStep (matcher : Matcher) (s : Step) (d : Definition) : Bool :=
  match d.serves matcher s with
  | .ok b => b
  | .error _ => false

theorem servesStep_of_serves {matcher : Matcher} {s : Step} (d : Definition) (b : Bool)
    (h : d.serves matcher s = .ok b) : d.servesStep matcher s = b := by
  rw [servesStep, h]

end Definition

theorem matchStep_eq_ok_iff {matcher : Matcher} {ds : List Definition} {s : Step}
    {r : MatchResult} :
    matchStep matcher ds s = .ok r ↔
      (∀ d ∈ ds, ∃ b, d.serves matcher s = .ok b) ∧
      r = { step := s, found := ds.filter (·.servesStep matcher s) } := by
  rw [matchStep, bind_eq_ok_iff]
  simp only [filterM_eq_ok_iff Definition.servesStep_of_serves, pure_eq_ok_iff]
  constructor
  · rintro ⟨found, ⟨hall, rfl⟩, rfl⟩
    exact ⟨hall, rfl⟩
  · rintro ⟨hall, rfl⟩
    exact ⟨_, ⟨hall, rfl⟩, rfl⟩

theorem step_of_matchStep {matcher : Matcher} {ds : List Definition} {s : Step} {r : MatchResult}
    (h : matchStep matcher ds s = .ok r) : r.step = s := by
  rw [(matchStep_eq_ok_iff.mp h).2]

/-- Steps are matched one by one. -/
theorem matchSteps_eq_ok_iff {matcher : Matcher} {ds : List Definition} {ss : List Step}
    {rs : List MatchResult} :
    matchSteps matcher ss ds = .ok rs ↔
      List.Forall₂ (fun s r => matchStep matcher ds s = .ok r) ss rs := by
  rw [matchSteps]
  induction ss generalizing rs with
  | nil =>
    rw [List.mapM_nil, pure_eq_ok_iff, List.forall₂_nil_left_iff, eq_comm]
  | cons s ss ih =>
    simp only [List.mapM_cons, bind_eq_ok_iff, pure_eq_ok_iff, List.forall₂_cons_left_iff]
    constructor
    · rintro ⟨r, hr, rs', hrs, rfl⟩
      exact ⟨r, rs', hr, ih.mp hrs, rfl⟩
    · rintro ⟨r, rs', hr, hrs, rfl⟩
      exact ⟨r, hr, rs', ih.mpr hrs, rfl⟩

/-- Steps can be matched exactly when no pattern fails on any of them. -/
theorem exists_matchSteps_iff {matcher : Matcher} {ds : List Definition} {ss : List Step} :
    (∃ rs, matchSteps matcher ss ds = .ok rs) ↔
      ∀ s ∈ ss, ∀ d ∈ ds, ∃ b, d.serves matcher s = .ok b := by
  simp only [matchSteps_eq_ok_iff]
  induction ss with
  | nil => simp
  | cons s ss ih =>
    simp only [List.forall₂_cons_left_iff, List.mem_cons, forall_eq_or_imp, ← ih]
    constructor
    · rintro ⟨_, r, rs, hr, hrs, rfl⟩
      exact ⟨(matchStep_eq_ok_iff.mp hr).1, rs, hrs⟩
    · rintro ⟨hs, rs, hrs⟩
      exact ⟨_, _, rs, matchStep_eq_ok_iff.mpr ⟨hs, rfl⟩, hrs, rfl⟩

theorem map_step_of_matchSteps {matcher : Matcher} {ds : List Definition} {ss : List Step}
    {rs : List MatchResult} (h : matchSteps matcher ss ds = .ok rs) : rs.map (·.step) = ss := by
  rw [matchSteps_eq_ok_iff] at h
  induction h with
  | nil => rfl
  | cons hr _ ih => rw [List.map_cons, step_of_matchStep hr, ih]

/-- The results of some of the steps are some of the results. -/
theorem matchSteps_filter {matcher : Matcher} {ds : List Definition} {ss : List Step}
    {rs : List MatchResult} (keep : Step → Bool) (h : matchSteps matcher ss ds = .ok rs) :
    matchSteps matcher (ss.filter keep) ds = .ok (rs.filter fun r => keep r.step) := by
  rw [matchSteps_eq_ok_iff] at h ⊢
  induction h with
  | nil => exact .nil
  | @cons s r ss rs hr _ ih =>
    have hs : r.step = s := step_of_matchStep hr
    rw [List.filter_cons, List.filter_cons, hs]
    split
    · exact .cons hr ih
    · exact ih

end StepAtlas
