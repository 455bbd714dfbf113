import Mathlib.Data.List.Nodup
import StepAtlas.Glob.Braces
import StepAtlas.Proofs.Text

/-
Expanding the braces of any text.  The first group with a comma and without braces inside is taken,
and each of its options is put in its place.  The texts that this gives have fewer braces, so the
recursion ends, and none of the texts that are left has such a group.
-/

namespace StepAtlas
namespace Glob

/-! ## The first group -/

theorem body?_eq_some_iff {t body rest : Text} :
    body? t = some (body, rest) ↔ t = body ++ .scalar '\x7d' :: rest ∧
      ∀ p ∈ body, isBrace p = false := by
  constructor
  · intro h
    unfold body? at h
    dsimp only at h
    split at h
    · rename_i rest' hdrop
      cases h
      refine ⟨?_, fun p hp => by simpa using List.mem_takeWhile_imp hp⟩
      rw [← hdrop]
      exact (List.prefix_iff_eq_append.mp (List.takeWhile_prefix _)).symm
    · cases h
  · rintro ⟨rfl, hbody⟩
    have htake : (body ++ .scalar '\x7d' :: rest).takeWhile (fun p => !isBrace p) = body := by
      rw [List.takeWhile_append_of_pos (by simpa using hbody),
        List.takeWhile_cons_of_neg (by decide), List.append_nil]
    simp only [body?, htake, List.drop_left]

/-- A brace that is followed by an opening one starts no group. -/
theorem body?_eq_none {s : Text} (hs : ∀ p ∈ s, isBrace p = false) (t : Text) :
    body? (s ++ .scalar '\x7b' :: t) = none := by
  have htake : (s ++ .scalar '\x7b' :: t).takeWhile (fun p => !isBrace p) = s := by
    rw [List.takeWhile_append_of_pos (by simpa using hs), List.takeWhile_cons_of_neg (by decide),
      List.append_nil]
  simp only [body?, htake, List.drop_left]
  rfl

theorem group?_cons_of_ne {p : CodePoint} (hp : p ≠ .scalar '\x7b') (t : Text) :
    group? (p :: t) = (group? t).map fun (head, body, rest) => (p :: head, body, rest) := by
  simp only [group?, if_neg hp]

theorem group?_cons_of_body {t body rest : Text} (h : body? t = some (body, rest))
    (hc : .scalar ',' ∈ body) :
    group? (.scalar '\x7b' :: t) = some ([], body, rest) := by
  simp [group?, h, hc]

theorem group?_cons_of_not {t : Text}
    (h : ∀ body rest, body? t = some (body, rest) → .scalar ',' ∉ body) :
    group? (.scalar '\x7b' :: t) =
      (group? t).map fun (head, body, rest) => (.scalar '\x7b' :: head, body, rest) := by
  cases hb : body? t with
  | none => simp [group?, hb]
  | some found =>
    have hc := h found.1 found.2 hb
    simp [group?, hb, hc]

/-- A text is what stands before its first group, the group, and what follows. -/
theorem eq_of_group? {t head body rest : Text} (h : group? t = some (head, body, rest)) :
    t = head ++ .scalar '\x7b' :: (body ++ .scalar '\x7d' :: rest) ∧
      (∀ p ∈ body, isBrace p = false) ∧
      .scalar ',' ∈ body := by
  induction t generalizing head with
  | nil => cases h
  | cons p t ih =>
    have hrest : ((group? t).map fun (head, body, rest) => (p :: head, body, rest)) =
        some (head, body, rest) →
        p :: t = head ++ .scalar '\x7b' :: (body ++ .scalar '\x7d' :: rest) ∧
        (∀ p ∈ body, isBrace p = false) ∧
          .scalar ',' ∈ body := by
      intro h
      obtain ⟨⟨head', body', rest'⟩, hg, he⟩ := Option.map_eq_some_iff.mp h
      cases he
      obtain ⟨ht, hbody, hc⟩ := ih hg
      exact ⟨by rw [ht]; rfl, hbody, hc⟩
    by_cases hp : p = .scalar '\x7b'
    · subst hp
      by_cases hb : ∃ body rest, body? t = some (body, rest) ∧ .scalar ',' ∈ body
      · obtain ⟨body', rest', hb, hc⟩ := hb
        rw [group?_cons_of_body hb hc] at h
        cases h
        obtain ⟨ht, hbody⟩ := body?_eq_some_iff.mp hb
        exact ⟨by rw [ht]; rfl, hbody, hc⟩
      · rw [group?_cons_of_not fun body rest hb' hc => hb ⟨body, rest, hb', hc⟩] at h
        exact hrest h
    · rw [group?_cons_of_ne hp] at h
      exact hrest h

theorem group?_eq_none {t : Text} (h : .scalar '\x7b' ∉ t) : group? t = none := by
  refine Option.eq_none_iff_forall_ne_some.mpr ?_
  rintro ⟨head, body, rest⟩ hg
  rw [(eq_of_group? hg).1] at h
  simp at h

/-- What stands behind a text that has a group does not change its first group. -/
theorem group?_append {t head body rest : Text} (h : group? t = some (head, body, rest))
    (s : Text) :
    group? (t ++ s) = some (head, body, rest ++ s) := by
  induction t generalizing head with
  | nil => cases h
  | cons p t ih =>
    rw [List.cons_append]
    by_cases hp : p = .scalar '\x7b'
    · subst hp
      by_cases hb : ∃ body rest, body? t = some (body, rest) ∧ .scalar ',' ∈ body
      · obtain ⟨body', rest', hb, hc⟩ := hb
        rw [group?_cons_of_body hb hc] at h
        cases h
        obtain ⟨rfl, hbody⟩ := body?_eq_some_iff.mp hb
        refine group?_cons_of_body (body?_eq_some_iff.mpr ⟨?_, hbody⟩) hc
        rw [List.append_assoc, List.cons_append]
      · rw [group?_cons_of_not fun body rest hb' hc => hb ⟨body, rest, hb', hc⟩] at h
        obtain ⟨⟨head', body', rest'⟩, hg, he⟩ := Option.map_eq_some_iff.mp h
        cases he
        rw [group?_cons_of_not, ih hg]
        · rfl
        · -- The next brace stands in `t`, where the group is, so it is the same with `s` behind it.
          intro body₁ rest₁ hb₁ hc
          obtain ⟨happend, hbody₁⟩ := body?_eq_some_iff.mp hb₁
          have hbrace : ∀ {u}, body₁ = t ++ u → False := by
            rintro u rfl
            have hmem : CodePoint.scalar '\x7b' ∈ t := by rw [(eq_of_group? hg).1]; simp
            cases hbody₁ _ (List.mem_append_left _ hmem)
          rcases List.append_eq_append_iff.mp happend with ⟨u, hu, -⟩ | ⟨u, ht, hu⟩
          · exact hbrace hu
          · cases u with
            | nil => exact hbrace (u := []) (by rw [ht, List.append_nil, List.append_nil])
            | cons q u =>
              cases hu
              exact hb ⟨body₁, u, body?_eq_some_iff.mpr ⟨ht, hbody₁⟩, hc⟩
    · rw [group?_cons_of_ne hp] at h ⊢
      obtain ⟨⟨head', body', rest'⟩, hg, he⟩ := Option.map_eq_some_iff.mp h
      cases he
      rw [ih hg]
      rfl

theorem group?_append_left {s : Text} (hs : ∀ p ∈ s, isBrace p = false) (t : Text) :
    group? (s ++ t) = (group? t).map fun (head, body, rest) => (s ++ head, body, rest) := by
  induction s with
  | nil =>
    rw [List.nil_append]
    cases group? t with
    | none | some found => rfl
  | cons p s ih =>
    obtain ⟨hp, hs⟩ := List.forall_mem_cons.mp hs
    have hne : p ≠ .scalar '\x7b' := by
      rintro rfl
      cases hp
    rw [List.cons_append, group?_cons_of_ne hne, ih hs, Option.map_map]
    rfl

/-! ## Expanding one group after the other -/

/-- To expand a text, another one is expanded in which an option stands in the place of the first
group. -/
def Leads (t t' : Text) : Prop :=
  ∃ head body rest, group? t = some (head, body, rest) ∧
    ∃ option ∈ Text.splitAt (.scalar ',') body, t' = head ++ option ++ rest

/-- Every expansion takes a brace away. -/
theorem Leads.count_lt {t t' : Text} (h : Leads t t') :
    t'.count (.scalar '\x7b') < t.count (.scalar '\x7b') := by
  obtain ⟨head, body, rest, hg, option, ho, rfl⟩ := h
  obtain ⟨rfl, hbody, -⟩ := eq_of_group? hg
  have hnone : option.count (.scalar '\x7b') = 0 := by
    rw [List.count_eq_zero]
    intro hmem
    cases hbody _ (Text.mem_of_mem_splitAt ho hmem)
  rw [List.count_append, List.count_append, hnone, List.count_append, List.count_cons_self,
    List.count_append]
  have htail : rest.count (.scalar '\x7b') ≤
      (CodePoint.scalar '\x7d' :: rest).count (.scalar '\x7b') :=
    List.count_le_count_cons
  omega

/-- So the expansion of a text ends. -/
theorem leads_wellFounded : WellFounded fun t' t => Leads t t' :=
  Subrelation.wf (r := InvImage (· < ·) fun t : Text => t.count (.scalar '\x7b')) Leads.count_lt
    (InvImage.wf _ Nat.lt_wfRel.wf)

theorem expandFrom_congr {m n : Nat} {t : Text} (hm : t.count (.scalar '\x7b') ≤ m)
    (hn : t.count (.scalar '\x7b') ≤ n) : expandFrom m t = expandFrom n t := by
  induction m generalizing n t with
  | zero =>
    have hg : group? t = none := group?_eq_none (List.count_eq_zero.mp (Nat.le_zero.mp hm))
    cases n with
    | zero => rfl
    | succ n => rw [expandFrom, expandFrom, hg]
  | succ m ih =>
    cases n with
    | zero =>
      have hg : group? t = none := group?_eq_none (List.count_eq_zero.mp (Nat.le_zero.mp hn))
      rw [expandFrom, expandFrom, hg]
    | succ n =>
      rw [expandFrom, expandFrom]
      cases hg : group? t with
      | none => rfl
      | some found =>
        obtain ⟨head, body, rest⟩ := found
        dsimp only
        congr 1
        refine List.flatMap_congr fun option ho => ?_
        have hlt := Leads.count_lt ⟨head, body, rest, hg, option, ho, rfl⟩
        exact ih (by omega) (by omega)

theorem expand_of_none {t : Text} (h : group? t = none) : expand t = [t] := by
  unfold expand
  cases t.count (.scalar '\x7b') with
  | zero => rfl
  | succ n => rw [expandFrom, h]

/-- The bound on the expansions is never reached. -/
theorem expand_of_group {t head body rest : Text} (h : group? t = some (head, body, rest)) :
    expand t =
      ((Text.splitAt (.scalar ',') body).flatMap fun option =>
        expand (head ++ option ++ rest)).eraseDups := by
  have hstep : expand t = expandFrom (t.count (.scalar '\x7b') + 1) t :=
    expandFrom_congr (Nat.le_refl _) (by omega)
  rw [hstep, expandFrom, h]
  dsimp only
  congr 1
  refine List.flatMap_congr fun option ho => ?_
  have hlt := Leads.count_lt ⟨head, body, rest, h, option, ho, rfl⟩
  exact expandFrom_congr (Nat.le_of_lt hlt) (Nat.le_refl _)

theorem nodup_eraseDups {α : Type} [BEq α] [LawfulBEq α] (xs : List α) : xs.eraseDups.Nodup := by
  induction h : xs.length using Nat.strong_induction_on generalizing xs with
  | _ n ih =>
    cases xs with
    | nil => simp
    | cons x xs =>
      rw [List.eraseDups_cons, List.nodup_cons]
      refine ⟨by simp, ih _ ?_ _ rfl⟩
      rw [← h, List.length_cons]
      exact Nat.lt_succ_of_le (List.length_filter_le _ _)

theorem expand_nodup (t : Text) : (expand t).Nodup := by
  cases h : group? t with
  | none =>
    rw [expand_of_none h]
    exact List.nodup_singleton t
  | some found =>
    rw [expand_of_group h]
    exact nodup_eraseDups _

/-- A text stands for something, and nothing that it stands for has a group to be expanded. -/
theorem expand_ne_nil (t : Text) : expand t ≠ [] ∧ ∀ u ∈ expand t, group? u = none := by
  induction t using leads_wellFounded.induction with
  | _ t ih =>
    cases h : group? t with
    | none =>
      rw [expand_of_none h]
      simpa using h
    | some found =>
      obtain ⟨head, body, rest⟩ := found
      rw [expand_of_group h]
      constructor
      · intro hnil
        obtain ⟨option, ho⟩ := List.exists_mem_of_ne_nil _ (Text.splitAt_ne_nil (.scalar ',') body)
        obtain ⟨u, hu⟩ :=
          List.exists_mem_of_ne_nil _ (ih _ ⟨head, body, rest, h, option, ho, rfl⟩).1
        have hmem : u ∈ ((Text.splitAt (.scalar ',') body).flatMap fun option =>
            expand (head ++ option ++ rest)).eraseDups :=
          List.mem_eraseDups.mpr (List.mem_flatMap.mpr ⟨option, ho, hu⟩)
        rw [hnil] at hmem
        cases hmem
      · intro u hu
        obtain ⟨option, ho, hu⟩ := List.mem_flatMap.mp (List.mem_eraseDups.mp hu)
        exact (ih _ ⟨head, body, rest, h, option, ho, rfl⟩).2 u hu

end Glob
end StepAtlas
