import StepAtlas.Text.Basic

/-
What can go wrong while indexing, by cause.  Most causes carry the words that describe them.
-/

namespace StepAtlas

inductive Fault where
  /-- A setting has no meaning. -/
  | settings (message : Text)
  /-- A file or a directory cannot be indexed. -/
  | indexing (message : Text)
  /-- A text to be shown has a closing tag that closes nothing. -/
  | unshown (message : Text)
  /-- A regular expression repeats something too often. -/
  | repetitionTooLarge
  /-- A regular expression asks for two character repertoires at once. -/
  | repertoiresClash
  /-- An escape in a literal names a number far beyond all code points. -/
  | codePointTooLarge
  /-- A number to be read has more digits than are read. -/
  | numberTooLong (digits : Nat)
  /-- A number to be written has more digits than are written. -/
  | unwritableNumber
  /-- Something nests so deep that the work on it is given up. -/
  | stackExhausted (message : Text)
  /-- Bytes that should be text are not. -/
  | undecodable (message : Text)
  /-- A text to be printed has no encoding. -/
  | unencodable (message : Text)
  /-- A file pattern has no component. -/
  | emptyPattern
  /-- Something stands where a folder should be made. -/
  | alreadyThere (message : Text)
  /-- A folder stands where a file should be written. -/
  | folderInTheWay (message : Text)
  /-- A file may not be read. -/
  | denied (message : Text)
  /-- Something failed in a way of its own. -/
  | internal (message : Text)
deriving DecidableEq, Repr

namespace Fault

def message : Fault → Text
  | .settings m | .indexing m | .unshown m | .undecodable m | .unencodable m | .denied m => m
  | .alreadyThere m | .folderInTheWay m | .stackExhausted m | .internal m => m
  | .repetitionTooLarge => "the repetition number is too large"
  | .repertoiresClash => "ASCII and UNICODE flags are incompatible"
  | .codePointTooLarge => "Python int too large to convert to C int"
  | .numberTooLong digits =>
    digitsExceeded ++ ": value has " ++ Text.ofNat digits ++ " digits" ++ raiseLimit
  | .unwritableNumber => digitsExceeded ++ raiseLimit
  | .emptyPattern => "tuple index out of range"
where
  digitsExceeded : Text :=
    "Exceeds the limit (" ++ Text.ofNat Text.digitLimit ++ " digits) for integer string conversion"
  raiseLimit : Text := "; use sys.set_int_max_str_digits() to increase the limit"

end Fault

end StepAtlas
