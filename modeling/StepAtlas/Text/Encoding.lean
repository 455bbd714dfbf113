import StepAtlas.Text.Quoted

/-
Text that has no bytes.  A lone surrogate cannot be written in UTF-8; the complaint names the first
run of them.
-/

namespace StepAtlas
namespace Text

def encodingComplaint? (t : Text) : Option Text :=
  let isCharacter := CodePoint.test fun _ => true
  let start := (t.takeWhile isCharacter).length
  let run := (t.dropWhile isCharacter).takeWhile fun p => !isCharacter p
  match run with
  | [] => none
  | [p] =>
    some ("'utf-8' codec can't encode character " ++ quoted [p] ++ " in position " ++ ofNat start ++
      ": surrogates not allowed")
  | _ => some ("'utf-8' codec can't encode characters in position " ++ ofNat start ++ "-" ++
      ofNat (start + run.length - 1) ++ ": surrogates not allowed")

end Text
end StepAtlas
