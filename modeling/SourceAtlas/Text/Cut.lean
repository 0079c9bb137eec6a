/-!
# Cutting texts

Splitting at a separator, finding one text inside another, and comparing the ends of texts. Every
function works on a list of characters, so that a statement about it is an induction over that list.
-/

set_option autoImplicit false

namespace SourceAtlas.Text

/-- One step of `splitWhere`, from the right: a separator opens a new piece, any other character
joins the first piece. -/
def splitStep (p : Char → Bool) (c : Char) : List (List Char) → List (List Char)
  | [] => if p c then [[], []] else [[c]]
  | w :: ws => if p c then [] :: w :: ws else (c :: w) :: ws

/-- The pieces between the characters of class `p`; there is always one more piece than
separators. -/
def splitWhere (p : Char → Bool) (cs : List Char) : List (List Char) := cs.foldr (splitStep p) [[]]

/-- The pieces between occurrences of `sep`. -/
def splitOn (sep : Char) (cs : List Char) : List (List Char) := splitWhere (· == sep) cs

/-- Does the text start with `pre`? -/
def startsWith (pre cs : List Char) : Bool := pre.isPrefixOf cs

/-- Does the text end with `suf`? -/
def endsWith (suf cs : List Char) : Bool := suf.isSuffixOf cs

/-- What follows `pre` at the head of `cs`, if `cs` begins with it. -/
def after? : List Char → List Char → Option (List Char)
  | [], cs => some cs
  | _ :: _, [] => none
  | p :: ps, c :: cs => if p == c then after? ps cs else none

/-- The text before the first occurrence of `needle` and the text after it. -/
def cutAt? (needle : List Char) : List Char → Option (List Char × List Char)
  | [] => if needle.isEmpty then some ([], []) else none
  | c :: cs =>
    match after? needle (c :: cs) with
    | some rest => some ([], rest)
    | none => (cutAt? needle cs).map fun (pre, rest) => (c :: pre, rest)

/-- Where the other text first stands. -/
def indexOf? (needle cs : List Char) : Option Nat := (cutAt? needle cs).map (·.1.length)

/-- Does the other text stand in it? -/
def contains (needle cs : List Char) : Bool := (cutAt? needle cs).isSome

/-- The pieces between the first `fuel` occurrences of a non-empty `sep`. -/
def splitOnTextGo (sep : List Char) : Nat → List Char → List (List Char)
  | 0, cs => [cs]
  | fuel + 1, cs =>
    match cutAt? sep cs with
    | none => [cs]
    | some (pre, rest) => pre :: splitOnTextGo sep fuel rest

/-- The pieces between the occurrences of a non-empty separator text, taken from the left without
overlap. -/
def splitOnText (sep cs : List Char) : List (List Char) := splitOnTextGo sep cs.length cs

/-- The text before the last occurrence of `sep` and the text after it. -/
def cutLast? (sep : Char) (cs : List Char) : Option (List Char × List Char) :=
  match (cs.reverse.span (· != sep)) with
  | (_, []) => none
  | (tail, _ :: head) => some (head.reverse, tail.reverse)

/-- A text without what stands between its first and its last angle bracket. -/
def withoutGenerics (cs : List Char) : List Char :=
  match cutAt? ['<'] cs with
  | some (before, rest) =>
    match cutLast? '>' rest with
    | some (_, after) => before ++ after
    | none => cs
  | none => cs

/-- The pieces with a separator between them. -/
def join (sep : List Char) (pieces : List (List Char)) : List Char := sep.intercalate pieces

/-- Every occurrence of the non-empty text `old`, from the left without overlap, replaced by
`new`. -/
def replaceAll (old new cs : List Char) : List Char := join new (splitOnText old cs)

/-! ## Lines

Two ways to cut a text into lines. `splitNewlines` cuts at the newline character alone and keeps
every piece, so joining the pieces by newlines gives the text back. `splitBreaks` cuts at every line
break that Unicode knows, takes a carriage return with a following newline as one break, and has no
line after a final break. `offsets` numbers the first character of each line as if one character
stood between two lines. -/

/-- The lines between newlines. -/
def splitNewlines (cs : List Char) : List (List Char) := splitOn '\n' cs

/-- Characters that end a line: newline, vertical tab, form feed, carriage return, the file, group
and record separators, next line, and the line and paragraph separators. -/
def isBreak (c : Char) : Bool :=
  let n := c.toNat
  (10 ≤ n && n ≤ 13) || (28 ≤ n && n ≤ 30) || n == 0x85 || n == 0x2028 || n == 0x2029

/-- The text without each newline that directly follows a carriage return. -/
def mergeReturns (cs : List Char) : List Char :=
  (((' ' :: cs).zip cs).filter fun (p, c) => !(p == '\r' && c == '\n')).map Prod.snd

/-- The lines between breaks of any kind. -/
def splitBreaks (cs : List Char) : List (List Char) :=
  let pieces := splitWhere isBreak (mergeReturns cs)
  match pieces.getLast? with
  | some [] => pieces.dropLast
  | _ => pieces

/-- The text with every carriage return, alone or before a newline, read as one newline. -/
def unifyNewlines (cs : List Char) : List Char :=
  (mergeReturns cs).map fun c => if c == '\r' then '\n' else c

/-- Offsets of the lines from `start` on, one separator character between lines. -/
def offsetsFrom (start : Nat) : List Nat → List Nat
  | [] => []
  | n :: ns => start :: offsetsFrom (start + n + 1) ns

/-- The offset of each line's first character. -/
def offsets (lines : List (List Char)) : List Nat := offsetsFrom 0 (lines.map List.length)

end SourceAtlas.Text
