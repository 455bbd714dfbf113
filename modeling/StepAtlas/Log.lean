import StepAtlas.Fault
import StepAtlas.Markup

/-
Log lines.  A line is printed for the reader and changes nothing, except that a line which cannot be
shown stops the work that prints it.
-/

namespace StepAtlas

/-- Print a log line.  Proofs go by the outcome and never look into the line. -/
@[irreducible] def log (line : Text) : Except Fault Unit :=
  match Markup.complaint? line with
  | none => .ok ()
  | some complaint => .error (.unshown complaint)

def warning : Text := "[yellow]Warning[/yellow]: "

end StepAtlas
