import SourceAtlas.Text.Quoted

/-!
# Faults of pattern texts

Why a text is no pattern, and at which of its characters. `Fault.message` words each cause;
`PatternError.message` adds the position, and the line and column too when the pattern text has
several lines.
-/

set_option autoImplicit false

namespace SourceAtlas

/-- Causes for which a pattern text is refused. -/
inductive Fault where
  | backslashAtEnd
  | missing (what : String)
  | unterminatedName (terminator : Char)
  | badGroupName (name : List Char)
  | unknownGroupName (name : List Char)
  | badGroupNumber
  | invalidGroup (index : Nat)
  | openGroup
  | groupInLookbehind
  | groupRedefined (name : List Char) (index earlier : Nat)
  | incompleteEscape (text : List Char)
  | badEscape (text : List Char)
  | octalRange (text : List Char)
  | undefinedCharacter (name : List Char)
  | unterminatedSet
  | badRange (low high : List Char)
  | repeatBounds
  | nothingToRepeat
  | multipleRepeat
  | unexpectedEnd
  | unknownExtension (text : List Char)
  | unterminatedComment
  | unterminatedGroup
  | manyBranches
  | lateFlags
  | unknownFlag
  | localeFlag
  | typeFlags
  | globalFlagOn
  | globalFlagOff
  | typeFlagOff
  | flagOnAndOff
  | unbalanced
  | variableLookbehind
  | farLookbehind
  | templateRepeat (operator : String)
  deriving DecidableEq, Repr

/-- The words for a cause. -/
def Fault.message : Fault → String
  | .backslashAtEnd => "bad escape (end of pattern)"
  | .missing what => "missing " ++ what
  | .unterminatedName t => "missing " ++ String.ofList [t] ++ ", unterminated name"
  | .badGroupName name => "bad character in group name " ++ String.ofList (Text.quoted name)
  | .unknownGroupName name => "unknown group name " ++ String.ofList (Text.quoted name)
  | .badGroupNumber => "bad group number"
  | .invalidGroup n => "invalid group reference " ++ toString n
  | .openGroup => "cannot refer to an open group"
  | .groupInLookbehind => "cannot refer to group defined in the same lookbehind subpattern"
  | .groupRedefined name n m =>
    "redefinition of group name " ++ String.ofList (Text.quoted name) ++ " as group " ++
      toString n ++ "; was group " ++ toString m
  | .incompleteEscape t => "incomplete escape " ++ String.ofList t
  | .badEscape t => "bad escape " ++ String.ofList t
  | .octalRange t => "octal escape value " ++ String.ofList t ++ " outside of range 0-0o377"
  | .undefinedCharacter name => "undefined character name " ++ String.ofList (Text.quoted name)
  | .unterminatedSet => "unterminated character set"
  | .badRange low high => "bad character range " ++ String.ofList low ++ "-" ++ String.ofList high
  | .repeatBounds => "min repeat greater than max repeat"
  | .nothingToRepeat => "nothing to repeat"
  | .multipleRepeat => "multiple repeat"
  | .unexpectedEnd => "unexpected end of pattern"
  | .unknownExtension t => "unknown extension ?" ++ String.ofList t
  | .unterminatedComment => "missing ), unterminated comment"
  | .unterminatedGroup => "missing ), unterminated subpattern"
  | .manyBranches => "conditional backref with more than two branches"
  | .lateFlags => "global flags not at the start of the expression"
  | .unknownFlag => "unknown flag"
  | .localeFlag => "bad inline flags: cannot use 'L' flag with a str pattern"
  | .typeFlags => "bad inline flags: flags 'a', 'u' and 'L' are incompatible"
  | .globalFlagOn => "bad inline flags: cannot turn on global flag"
  | .globalFlagOff => "bad inline flags: cannot turn off global flag"
  | .typeFlagOff => "bad inline flags: cannot turn off flags 'a', 'u' and 'L'"
  | .flagOnAndOff => "bad inline flags: flag turned on and off"
  | .unbalanced => "unbalanced parenthesis"
  | .variableLookbehind => "look-behind requires fixed-width pattern"
  | .farLookbehind => "looks too much behind"
  | .templateRepeat op => "internal: unsupported template operator " ++ op

/-- A refusal of a pattern text: a fault, at a position unless it concerns the pattern as a whole; a
repetition count beyond the limit; or two character rules at once. -/
inductive PatternError where
  | fault (cause : Fault) (position : Option Nat)
  | countTooLarge
  | asciiAndUnicode
  deriving DecidableEq, Repr

/-- The line of a position, counted from one, and its column, counted from one. -/
def linePosition (text : List Char) (position : Nat) : Nat × Nat :=
  let before := text.take position
  (before.count '\n' + 1, (before.reverse.takeWhile (· != '\n')).length + 1)

/-- The message of an error in a pattern text. -/
def PatternError.message (text : List Char) : PatternError → String
  | .countTooLarge => "the repetition number is too large"
  | .asciiAndUnicode => "ASCII and UNICODE flags are incompatible"
  | .fault cause none => cause.message
  | .fault cause (some n) =>
    let base := cause.message ++ " at position " ++ toString n
    if text.contains '\n' then
      let (line, column) := linePosition text n
      base ++ " (line " ++ toString line ++ ", column " ++ toString column ++ ")"
    else base

end SourceAtlas
