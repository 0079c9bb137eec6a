import SourceAtlas.Text.Cut

/-!
# Blank characters

A character is blank when it separates words: the ASCII layout characters, the four information
separators, the next-line and no-break characters and the space separators of Unicode. `trim`
removes blanks at both ends and `words` cuts a text at runs of blanks.
-/

set_option autoImplicit false

namespace SourceAtlas.Text

/-- Blank characters: tab to carriage return, the information separators, space, next line, and the
space, line and paragraph separators. -/
def isBlank (c : Char) : Bool :=
  let n := c.toNat
  if n < 128 then (9 ≤ n && n ≤ 13) || (28 ≤ n && n ≤ 32)
  else n == 0x85 || n == 0xA0 || n == 0x1680 || (0x2000 ≤ n && n ≤ 0x200A) || n == 0x2028 ||
    n == 0x2029 ||
    n == 0x202F || n == 0x205F || n == 0x3000

/-- The text without blanks in front. -/
def trimLeft (cs : List Char) : List Char := cs.dropWhile isBlank

/-- The text without its trailing characters of class `p`. -/
def dropEndWhile (p : Char → Bool) (cs : List Char) : List Char := (cs.reverse.dropWhile p).reverse

/-- The text without blanks at its end. -/
def trimRight (cs : List Char) : List Char := dropEndWhile isBlank cs

/-- The text without blanks at either end. -/
def trim (cs : List Char) : List Char := trimRight (trimLeft cs)

/-- One step of `words`, from the right: the word being grown and the finished words. -/
def wordStep (c : Char) : List Char × List (List Char) → List Char × List (List Char)
  | (w, ws) => if isBlank c then (if w.isEmpty then ([], ws) else ([], w :: ws)) else (c :: w, ws)

/-- The maximal runs of non-blank characters, in order. -/
def words (cs : List Char) : List (List Char) :=
  match cs.foldr wordStep ([], []) with
  | (w, ws) => if w.isEmpty then ws else w :: ws

/-- The text without a word that it begins with. -/
def dropWord (cs : List Char) (word : String) : List Char :=
  match after? word.toList cs with
  | some rest => trim rest
  | none => cs

/-- What is read from the pieces between the commas of a text. -/
def readPieces (read : List Char → Option String) (text : List Char) : List String :=
  (splitOn ',' text).filterMap fun piece => read (trim piece)

/-! ## Tidy paragraphs

The text of a documentation string without the layout of the source around it: tabs widened, the
common indentation of all lines but the first removed, no blanks in front of the first line, and no
empty lines at either end. -/

/-- Spaces from `column` to the next multiple of eight for each tab; a line break starts at column
zero again. -/
def expandTabs : Nat → List Char → List Char
  | _, [] => []
  | column, c :: cs =>
    if c == '\t' then
      let width := 8 - column % 8
      List.replicate width ' ' ++ expandTabs (column + width) cs
    else if c == '\n' || c == '\r' then c :: expandTabs 0 cs
    else c :: expandTabs (column + 1) cs

/-- The indentation of a line that is not blank. -/
def indentation? (line : List Char) : Option Nat :=
  let content := (trimLeft line).length
  if content = 0 then none else some (line.length - content)

/-- The least indentation of the lines that are not blank. -/
def margin? (lines : List (List Char)) : Option Nat := (lines.filterMap indentation?).min?

/-- Lines without empty ones at the ends. -/
def dropEmptyEnds (lines : List (List Char)) : List (List Char) :=
  ((lines.reverse.dropWhile List.isEmpty).reverse).dropWhile List.isEmpty

/-- The tidy text. -/
def tidy (text : List Char) : List Char :=
  match splitOn '\n' (expandTabs 0 text) with
  | [] => []
  | first :: rest =>
    let shifted :=
      match margin? rest with
      | some m => rest.map (List.drop m)
      | none => rest
    join ['\n'] (dropEmptyEnds (trimLeft first :: shifted))

end SourceAtlas.Text
