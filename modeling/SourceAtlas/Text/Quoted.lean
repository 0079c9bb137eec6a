import SourceAtlas.Text.Letter

/-!
# Quoted texts

A text written between quotes, with escapes for what has no visible form. Apostrophes quote the text
unless it holds an apostrophe and no quotation mark; a quote of the chosen kind and a backslash get
a backslash in front. Texts are given by code points, since a literal can name a code point that is
no character.
-/

set_option autoImplicit false

namespace SourceAtlas.Text

/-- The lower-case hexadecimal digits of `n`, padded with zeros to `width`. -/
def hexText (width n : Nat) : List Char :=
  let digits := Nat.toDigits 16 n
  List.replicate (width - digits.length) '0' ++ digits

/-- Code points that stand for a character. -/
def isScalar (n : Nat) : Bool := n < 0xD800 || (0xE000 ≤ n && n < 0x110000)

/-- A code point between quotes of the kind `quote`; `visible` says which code points are written as
they are. -/
def quoteCode (visible : Nat → Bool) (quote : Char) (n : Nat) : List Char :=
  if n == quote.toNat || n == 92 then ['\\', Char.ofNat n]
  else if n == 9 then ['\\', 't']
  else if n == 10 then ['\\', 'n']
  else if n == 13 then ['\\', 'r']
  else if visible n then [Char.ofNat n]
  else if n < 0x100 then '\\' :: 'x' :: hexText 2 n
  else if n < 0x10000 then '\\' :: 'u' :: hexText 4 n
  else '\\' :: 'U' :: hexText 8 n

/-- The quote that is written around the code points. -/
def quoteFor (codes : List Nat) : Char :=
  if codes.contains 39 && !codes.contains 34 then '"' else '\''

/-- The code points between quotes. -/
def quotedBy (visible : Nat → Bool) (codes : List Nat) : List Char :=
  let quote := quoteFor codes
  quote :: codes.flatMap (quoteCode visible quote) ++ [quote]

/-- Code points between quotes, characters without a visible form escaped. -/
def quotedCodes (codes : List Nat) : List Char :=
  quotedBy (fun n => isScalar n && isPrintable (Char.ofNat n)) codes

/-- The text as a literal. -/
def quoted (cs : List Char) : List Char := quotedCodes (cs.map Char.toNat)

/-- Bytes between quotes: all but the visible ASCII characters are escaped. -/
def quotedBytes (bytes : List Nat) : List Char := 'b' :: quotedBy (fun n => 32 ≤ n && n < 127) bytes

end SourceAtlas.Text
