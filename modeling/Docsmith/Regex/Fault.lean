import Docsmith.Regex.Basic
import Docsmith.Text.Utf8

/-!
# Why a pattern is refused
-/

namespace Docsmith.Regex

inductive Cause where
  | danglingBackslash
  | badEscape (escape : Text)
  | incompleteEscape (escape : Text)
  | octalTooLarge (escape : Text)
  | missingBrace
  | missingName (what : Text)
  | unterminatedName (terminator : Text)
  | undefinedCharacterName (name : Text)
  | openGroup
  | lookbehindGroup
  | invalidGroup (index : Nat)
  | unterminatedSet
  | badRange (low high : Text)
  | minAboveMax
  | nothingToRepeat
  | multipleRepeat
  | unexpectedEnd
  | badGroupName (name : Text)
  | unknownGroupName (name : Text)
  | redefinedGroup (name : Text) (new old : Nat)
  | unknownExtension (spelling : Text)
  | unterminatedComment
  | unterminatedGroup
  | badGroupNumber
  | tooManyBranches
  | lateFlags
  | localeFlag
  | clashingFlags
  | missingFlagEnd
  | unknownFlag
  | missingFlag
  | missingColon
  | globalFlagOn
  | globalFlagOff
  | typeFlagOff
  | flagOnAndOff
  | unbalanced
deriving DecidableEq, Repr

def Cause.text : Cause → Text
  | .danglingBackslash => "bad escape (end of pattern)"
  | .badEscape e => "bad escape " ++ e
  | .incompleteEscape e => "incomplete escape " ++ e
  | .octalTooLarge e => "octal escape value " ++ e ++ " outside of range 0-0o377"
  | .missingBrace => "missing \x7b"
  | .missingName what => "missing " ++ what
  | .unterminatedName terminator => "missing " ++ terminator ++ ", unterminated name"
  | .undefinedCharacterName name => "undefined character name " ++ name.quoted
  | .openGroup => "cannot refer to an open group"
  | .lookbehindGroup => "cannot refer to group defined in the same lookbehind subpattern"
  | .invalidGroup n => "invalid group reference " ++ Text.ofNat n
  | .unterminatedSet => "unterminated character set"
  | .badRange low high => "bad character range " ++ low ++ "-" ++ high
  | .minAboveMax => "min repeat greater than max repeat"
  | .nothingToRepeat => "nothing to repeat"
  | .multipleRepeat => "multiple repeat"
  | .unexpectedEnd => "unexpected end of pattern"
  | .badGroupName name => "bad character in group name " ++ name.quoted
  | .unknownGroupName name => "unknown group name " ++ name.quoted
  | .redefinedGroup name new old =>
      "redefinition of group name " ++ name.quoted ++ " as group " ++ Text.ofNat new
        ++ "; was group " ++ Text.ofNat old
  | .unknownExtension spelling => "unknown extension ?" ++ spelling
  | .unterminatedComment => "missing ), unterminated comment"
  | .unterminatedGroup => "missing ), unterminated subpattern"
  | .badGroupNumber => "bad group number"
  | .tooManyBranches => "conditional backref with more than two branches"
  | .lateFlags => "global flags not at the start of the expression"
  | .localeFlag => "bad inline flags: cannot use 'L' flag with a str pattern"
  | .clashingFlags => "bad inline flags: flags 'a', 'u' and 'L' are incompatible"
  | .missingFlagEnd => "missing -, : or )"
  | .unknownFlag => "unknown flag"
  | .missingFlag => "missing flag"
  | .missingColon => "missing :"
  | .globalFlagOn => "bad inline flags: cannot turn on global flag"
  | .globalFlagOff => "bad inline flags: cannot turn off global flag"
  | .typeFlagOff => "bad inline flags: cannot turn off flags 'a', 'u' and 'L'"
  | .flagOnAndOff => "bad inline flags: flag turned on and off"
  | .unbalanced => "unbalanced parenthesis"

inductive Fault where
  | within (cause : Cause) (source : Text) (position : Nat)
  | variableLookbehind
  | distantLookbehind
  | templateLoop (greed : Greed)
  | hugeCount
  | clashingModes
  /-- The name of a character cannot be encoded. -/
  | unencodable (e : Utf8.EncodeError)
deriving DecidableEq, Repr

/-- The fault is told as one of the pattern, and not of a number or a text. -/
def Fault.isPatternError : Fault → Bool
  | .hugeCount | .clashingModes | .unencodable _ => false
  | _ => true

def place (source : Text) (position : Nat) : Text :=
  let before := source.take position
  " at position " ++ Text.ofNat position ++
    if source.contains Text.newline then
      " (line " ++ Text.ofNat (Text.countNewlines before + 1) ++ ", column "
        ++ Text.ofNat ((before.reverse.takeWhile (· ≠ Text.newline)).length + 1) ++ ")"
    else []

def Fault.message : Fault → Text
  | .within cause source position => cause.text ++ place source position
  | .variableLookbehind => "look-behind requires fixed-width pattern"
  | .distantLookbehind => "looks too much behind"
  | .templateLoop greed =>
      "internal: unsupported template operator " ++
        match greed with
        | .greedy => "MAX_REPEAT"
        | .lazy => "MIN_REPEAT"
        | .possessive => "POSSESSIVE_REPEAT"
  | .hugeCount => "the repetition number is too large"
  | .clashingModes => "ASCII and UNICODE flags are incompatible"
  | .unencodable e => e.message

end Docsmith.Regex
