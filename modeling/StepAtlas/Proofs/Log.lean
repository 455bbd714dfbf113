import StepAtlas.Log
import StepAtlas.Proofs.Markup

/-
Log lines that can be shown.  Printing a line brings a fault exactly if a closing tag in it closes
nothing, which takes a bracket.
-/

namespace StepAtlas

theorem log_eq_ok_iff {line : Text} : log line = .ok () ↔ Markup.shows line = true := by
  rw [log, Markup.shows]
  cases Markup.complaint? line <;> simp

theorem log_eq_error {line : Text} (h : ¬ Markup.shows line = true) :
    ∃ complaint, log line = .error (.unshown complaint) := by
  rw [Markup.shows, Option.isNone_iff_eq_none] at h
  obtain ⟨complaint, hc⟩ := Option.ne_none_iff_exists'.mp h
  exact ⟨complaint, by rw [log, hc]⟩

theorem neutral_warning : Markup.Neutral warning := by
  have hyellow : Markup.IsStyle "yellow" := by decide +kernel
  exact (hyellow.neutral (t := "Warning") (by decide)).append
    (Markup.Calm.neutral (t := ": ") (by decide))

/-- A warning can be shown if it has no bracket of its own. -/
theorem shows_warning {t : Text} (h : .scalar '[' ∉ t) : Markup.shows (warning ++ t) = true :=
  neutral_warning.shows_append h

end StepAtlas
