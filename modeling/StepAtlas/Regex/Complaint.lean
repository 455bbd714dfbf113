import StepAtlas.Text.Quoted

/-
What can be wrong with a regular expression, and the words for it.  A complaint about a place names
the position of a code point, and its line and column as well when the pattern has several lines.
-/

namespace StepAtlas
namespace Regex

inductive Complaint where
  | endsInBackslash
  | missing (what : Text)
  | unterminatedName (terminator : CodePoint)
  | badGroupName (name : Text)
  | incompleteEscape (escape : Text)
  | unknownCharacterName (name : Text)
  | octalTooLarge (escape : Text)
  | badEscape (escape : Text)
  | openGroup
  | groupOfSameLookbehind
  | noSuchGroup (number : Nat)
  | unterminatedSet
  | badRange (lo hi : Text)
  | countsReversed
  | nothingToRepeat
  | multipleRepeat
  | unexpectedEnd
  | unknownGroup (name : Text)
  | unknownExtension (extension : Text)
  | unterminatedComment
  | unterminatedGroup
  | groupZero
  | threeBranches
  | lateFlags
  | nameTaken (name : Text) (number earlier : Nat)
  | localeFlag
  | clashingFlags
  | unknownFlag
  | globalFlagOn
  | globalFlagOff
  | repertoireOff
  | flagOnAndOff
  | unbalanced
  | variableLookbehind
  | farLookbehind
  | repeatInTemplate
deriving DecidableEq, Repr

namespace Complaint

def message : Complaint → Text
  | .endsInBackslash => "bad escape (end of pattern)"
  | .missing what => "missing " ++ what
  | .unterminatedName t => "missing " ++ [t] ++ ", unterminated name"
  | .badGroupName name => "bad character in group name " ++ Text.quoted name
  | .incompleteEscape e => "incomplete escape " ++ e
  | .unknownCharacterName name => "undefined character name " ++ Text.quoted name
  | .octalTooLarge e => "octal escape value " ++ e ++ " outside of range 0-0o377"
  | .badEscape e => "bad escape " ++ e
  | .openGroup => "cannot refer to an open group"
  | .groupOfSameLookbehind => "cannot refer to group defined in the same lookbehind subpattern"
  | .noSuchGroup n => "invalid group reference " ++ Text.ofNat n
  | .unterminatedSet => "unterminated character set"
  | .badRange lo hi => "bad character range " ++ lo ++ "-" ++ hi
  | .countsReversed => "min repeat greater than max repeat"
  | .nothingToRepeat => "nothing to repeat"
  | .multipleRepeat => "multiple repeat"
  | .unexpectedEnd => "unexpected end of pattern"
  | .unknownGroup name => "unknown group name " ++ Text.quoted name
  | .unknownExtension e => "unknown extension ?" ++ e
  | .unterminatedComment => "missing ), unterminated comment"
  | .unterminatedGroup => "missing ), unterminated subpattern"
  | .groupZero => "bad group number"
  | .threeBranches => "conditional backref with more than two branches"
  | .lateFlags => "global flags not at the start of the expression"
  | .nameTaken name n m =>
    "redefinition of group name " ++ Text.quoted name ++ " as group " ++ Text.ofNat n ++
      "; was group " ++ Text.ofNat m
  | .localeFlag => "bad inline flags: cannot use 'L' flag with a str pattern"
  | .clashingFlags => "bad inline flags: flags 'a', 'u' and 'L' are incompatible"
  | .unknownFlag => "unknown flag"
  | .globalFlagOn => "bad inline flags: cannot turn on global flag"
  | .globalFlagOff => "bad inline flags: cannot turn off global flag"
  | .repertoireOff => "bad inline flags: cannot turn off flags 'a', 'u' and 'L'"
  | .flagOnAndOff => "bad inline flags: flag turned on and off"
  | .unbalanced => "unbalanced parenthesis"
  | .variableLookbehind => "look-behind requires fixed-width pattern"
  | .farLookbehind => "looks too much behind"
  | .repeatInTemplate => "internal: unsupported template operator"

end Complaint

/-- Why a pattern is not compiled: a complaint, perhaps about a place, or one of three failures that
are not complaints about the pattern's form. -/
inductive Failure where
  | complaint (c : Complaint) (position : Option Nat)
  | repetitionTooLarge
  | numberTooLong (digits : Nat)
  | repertoiresClash
deriving DecidableEq, Repr

/-- The words for a complaint about a place in a pattern.  Lines end at line feeds, and columns
count from one. -/
def placedMessage (pattern : Text) (c : Complaint) : Option Nat → Text
  | none => c.message
  | some pos =>
    let told := c.message ++ " at position " ++ Text.ofNat pos
    if pattern.contains (.scalar '\n') then
      let seen := pattern.take pos
      let line := seen.count (.scalar '\n') + 1
      let column := (seen.reverse.takeWhile (· ≠ .scalar '\n')).length + 1
      told ++ " (line " ++ Text.ofNat line ++ ", column " ++ Text.ofNat column ++ ")"
    else told

end Regex
end StepAtlas
