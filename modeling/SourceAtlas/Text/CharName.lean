import Std.Data.HashMap
import SourceAtlas.Text.CharNameTable
import SourceAtlas.Text.Packed
import SourceAtlas.Text.Quoted

/-!
# Character names

Every character has a name of its own, and some have aliases. Most names are looked up in a table,
without regard to case. The names of Hangul syllables are put together from the names of their
parts, and those of ideographs from their code points.
-/

set_option autoImplicit false

namespace SourceAtlas.Text

/-! ## Names in the table -/

/-- The state of a reader of the table: the code point of the next name, and the words of the last
one. -/
structure NameReader where
  next : Nat
  words : List (List Char)
  names : Std.HashMap String Nat

/-- The value of a hexadecimal digit with a capital letter. -/
def hexDigitValue? (c : Char) : Option Nat :=
  if '0' ≤ c && c ≤ '9' then some (c.toNat - 48)
  else if 'A' ≤ c && c ≤ 'F' then some (c.toNat - 55)
  else none

/-- The value of hexadecimal digits with capital letters. -/
def hexValue? (cs : List Char) : Option Nat :=
  cs.foldlM (fun n c => (hexDigitValue? c).map fun d => 16 * n + d) 0

/-- The name gets the next code point. -/
def NameReader.add (r : NameReader) (words : List (List Char)) : NameReader :=
  ⟨r.next + 1, words, r.names.insert (String.ofList (join [' '] words)) r.next⟩

/-- The word with the number at its end counted up; both are written with the last character
first. -/
def countUp : List Char → List Char
  | [] => ['1']
  | d :: ds =>
    if d == '9' then '0' :: countUp ds
    else if d.isDigit then Char.ofNat (d.toNat + 1) :: ds
    else '1' :: d :: ds

/-- Gives so many further names, each with the number of the one before counted up. -/
def NameReader.count (r : NameReader) : Nat → NameReader
  | 0 => r
  | n + 1 =>
    (r.add (r.words.dropLast ++ [(countUp (r.words.getLastD []).reverse).reverse])).count n

/-- Reads an entry. -/
def NameReader.read (r : NameReader) : List Char → NameReader
  | [] => r
  | '@' :: code => { r with next := (hexValue? code).getD 0 }
  | '-' :: amount => r.count ((hexValue? amount).getD 0)
  | shared :: rest => r.add (r.words.take (shared.toNat - 48) ++ splitOn ' ' rest)

/-- The code points of all names in the table. -/
def charNames : Std.HashMap String Nat :=
  let entries := splitOn ';' (Packed.unpack charNameLength charNameRows)
  (entries.foldl NameReader.read ⟨0, [], ∅⟩).names

/-! ## Names from code points -/

/-- Ranges of characters whose names are a common beginning and the code point. -/
structure NameFamily where
  stem : String
  ranges : List (Nat × Nat)

/-- The families of ideographs without names of their own, apart from the unified ones. -/
def nameFamilies : List NameFamily :=
  [⟨"CJK COMPATIBILITY IDEOGRAPH-", [(0xF900, 0xFA6D), (0xFA70, 0xFAD9), (0x2F800, 0x2FA1D)]⟩,
    ⟨"KHITAN SMALL SCRIPT CHARACTER-", [(0x18B00, 0x18CD5)]⟩,
    ⟨"NUSHU CHARACTER-", [(0x1B170, 0x1B2FB)]⟩]

/-- The code point is in one of the ranges. -/
def inRanges (ranges : List (Nat × Nat)) (n : Nat) : Bool :=
  ranges.any fun (low, high) => low ≤ n && n ≤ high

/-- The code point of a name of the family. -/
def NameFamily.code? (f : NameFamily) (name : List Char) : Option Nat := do
  let digits ← after? f.stem.toList name
  let n ← hexValue? digits
  if inRanges f.ranges n && digits.head? != some '0' then some n else none

/-- The unified ideographs. -/
def unifiedIdeographs : List (Nat × Nat) :=
  [(0x3400, 0x4DBF), (0x4E00, 0x9FFF), (0x20000, 0x2A6DF), (0x2A700, 0x2B738), (0x2B740, 0x2B81D),
    (0x2B820, 0x2CEA1), (0x2CEB0, 0x2EBE0), (0x30000, 0x3134A)]

/-- The unified ideograph with the code point that four or five digits give. -/
def unifiedIdeograph? (digits : List Char) : Option Nat := do
  let n ← hexValue? digits
  if (digits.length == 4 || digits.length == 5) && inRanges unifiedIdeographs n then some n
  else none

/-! ## Names of syllables -/

/-- The names of leading consonants. -/
def leadingNames : List String :=
  ["G", "GG", "N", "D", "DD", "R", "M", "B", "BB", "S", "SS", "", "J", "JJ", "C", "K", "T", "P",
    "H"]

/-- The names of vowels. -/
def vowelNames : List String :=
  ["A", "AE", "YA", "YAE", "EO", "E", "YEO", "YE", "O", "WA", "WAE", "OE", "YO", "U", "WEO", "WE",
    "WI", "YU", "EU", "YI", "I"]

/-- The names of trailing consonants, the first of which is none. -/
def trailingNames : List String :=
  ["", "G", "GG", "GS", "N", "NJ", "NH", "D", "L", "LG", "LM", "LB", "LS", "LT", "LP", "LH", "M",
    "B", "BS", "S", "SS", "NG", "J", "C", "K", "T", "P", "H"]

/-- The longest name in a list that the text begins with, by its number, and the rest of the
text. -/
def longestHead? (names : List String) (text : List Char) : Option (Nat × List Char) :=
  let hits :=
    names.zipIdx.filterMap fun (name, k) => (after? name.toList text).map fun rest => (k, rest)
  hits.foldl
    (fun best hit =>
      match best with
      | some (_, rest) => if hit.2.length < rest.length then some hit else best
      | none => some hit)
    none

/-- The syllable whose parts the text names one after the other. -/
def hangulSyllable? (text : List Char) : Option Nat := do
  let (l, rest) ← longestHead? leadingNames text
  let (v, rest) ← longestHead? vowelNames rest
  let (t, rest) ← longestHead? trailingNames rest
  if rest.isEmpty then some (0xAC00 + (l * 21 + v) * 28 + t) else none

/-! ## All names -/

/-- The code point of the character with the name. Names of syllables and unified ideographs have to
be in capital letters. -/
def charNamed? (name : List Char) : Option Nat :=
  match after? "HANGUL SYLLABLE ".toList name, after? "CJK UNIFIED IDEOGRAPH-".toList name with
  | some parts, _ => hangulSyllable? parts
  | _, some digits => unifiedIdeograph? digits
  | none, none =>
    let upper := name.map Char.toUpper
    match nameFamilies.findSome? fun f => f.code? upper with
    | some n => some n
    | none => charNames[String.ofList upper]?

end SourceAtlas.Text
