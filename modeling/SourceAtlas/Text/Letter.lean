import SourceAtlas.Text.Case
import SourceAtlas.Text.Cut
import SourceAtlas.Text.LetterTable

/-!
# Letters, digits and identifiers

Character classes over all of Unicode. Each function answers ASCII characters by plain comparison
and looks only the others up in a table, so a closed statement about an ASCII text needs no table.
-/

set_option autoImplicit false

namespace SourceAtlas.Text

/-- ASCII letters. -/
def isAsciiLetter (c : Char) : Bool := ('a' ≤ c && c ≤ 'z') || ('A' ≤ c && c ≤ 'Z')

/-- ASCII digits. -/
def isAsciiDigit (c : Char) : Bool := '0' ≤ c && c ≤ '9'

/-- Letters of any script. -/
def isAlpha (c : Char) : Bool :=
  if c.toNat < 128 then isAsciiLetter c else LetterTable.alpha.mem c.toNat

/-- The value of a decimal digit of any script. -/
def decimal? (c : Char) : Option Nat :=
  if c.toNat < 128 then (if isAsciiDigit c then some (c.toNat - 48) else none)
  else (LetterTable.decimal.find? c.toNat).map fun (low, _) => (c.toNat - low) % 10

/-- Decimal digits of any script. -/
def isDecimal (c : Char) : Bool := (decimal? c).isSome

/-- Letters and numbers of any script. -/
def isAlnum (c : Char) : Bool :=
  if c.toNat < 128 then isAsciiLetter c || isAsciiDigit c
  else isAlpha c || isDecimal c || LetterTable.numeric.mem c.toNat

/-- Word characters: letters, numbers and the underscore. -/
def isWordChar (c : Char) : Bool := isAlnum c || c == '_'

/-- Capital letters of any script. -/
def isUpper (c : Char) : Bool :=
  if c.toNat < 128 then 'A' ≤ c && c ≤ 'Z'
  else (lowerCode c.toNat != c.toNat) != LetterTable.upperOdd.mem c.toNat

/-- Characters that stay as they are when the text is put in upper case. -/
def isRaised (c : Char) : Bool :=
  if c.toNat < 128 then !('a' ≤ c && c ≤ 'z')
  else (raisedForms c.toNat).isEmpty != LetterTable.lowerOdd.mem c.toNat

/-- Characters that begin an identifier. -/
def isIdentifierStart (c : Char) : Bool :=
  if c.toNat < 128 then isAsciiLetter c || c == '_'
  else LetterTable.alpha.mem c.toNat != LetterTable.identifierOdd.mem c.toNat

/-- Characters inside of identifiers. -/
def isIdentifierContinue (c : Char) : Bool :=
  if c.toNat < 128 then isAsciiLetter c || isAsciiDigit c || c == '_'
  else isIdentifierStart c || isDecimal c || LetterTable.identifierOther.mem c.toNat

/-- Characters with a visible form, and the space. -/
def isPrintable (c : Char) : Bool :=
  if c.toNat < 128 then 32 ≤ c.toNat && c.toNat < 127
  else isIdentifierContinue c || LetterTable.sign.mem c.toNat

/-- Is the text an identifier? -/
def isIdentifier : List Char → Bool
  | [] => false
  | c :: cs => isIdentifierStart c && cs.all isIdentifierContinue

/-! ## Whole words

A text holds another as a whole word where it stands between two word boundaries. A boundary lies
between a word character and something else, an end of the text included. -/

/-- Between the two characters, or the end of the text in place of one, lies a word boundary. -/
def isBoundary (before after : Option Char) : Bool := before.any isWordChar != after.any isWordChar

/-- The word stands at the head of the text, between boundaries; `before` is the character in front
of the text. -/
def headsAsWord (word : List Char) (before : Option Char) (text : List Char) : Bool :=
  startsWith word text && isBoundary before text.head? &&
    isBoundary (word.getLast?.or before) (text.drop word.length).head?

/-- The word stands somewhere in the text that follows the character `before`. -/
def holdsWordAfter (word : List Char) (before : Option Char) : List Char → Bool
  | [] => headsAsWord word before []
  | c :: cs => headsAsWord word before (c :: cs) || holdsWordAfter word (some c) cs

/-- Does the word stand in the text? -/
def holdsWord (word text : List Char) : Bool := holdsWordAfter word none text

end SourceAtlas.Text
