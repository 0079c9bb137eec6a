import SourceAtlas.Outline.Basic
import SourceAtlas.Text.Letter

/-!
# Prose with headings

A line of prose is a heading when the next line underlines it, when it starts with number signs,
when it starts with a section number, or when it is a line of capitals of four words or more; the
first rule that fits decides its level. A section runs from its heading to the line before the next
heading of the same or a smaller level, or to the end of the text.
-/

set_option autoImplicit false

namespace SourceAtlas.Prose

open SourceAtlas.Text

/-- A heading: the index of its line, its title and its level. -/
structure Heading where
  line : Nat
  title : String
  level : Nat
  deriving DecidableEq, Repr

/-- The level that an underline of three or more signs gives: `=` level one, `-` level two. -/
def underlineLevel? (next : List Char) : Option Nat :=
  let under := trim next
  if under.length < 3 then none
  else if under.all (· == '=') then some 1
  else if under.all (· == '-') then some 2
  else none

/-- The level of a line that the next line underlines. A blank line, or one that starts with a
number sign, is not underlined. -/
def underlined? (line next : List Char) : Option Nat :=
  match trim line with
  | [] => none
  | c :: _ => if c == '#' then none else underlineLevel? next

/-- One to six number signs at the head of the line, then blanks, then a title. -/
def marked? (line : List Char) : Option (String × Nat) :=
  let signs := line.takeWhile (· == '#')
  let rest := line.dropWhile (· == '#')
  let title := trim rest
  match rest with
  | c :: _ =>
    if 1 ≤ signs.length ∧ signs.length ≤ 6 ∧ isBlank c ∧ title ≠ [] then
      some (String.ofList title, signs.length)
    else none
  | [] => none

/-- The numbers after the first of a section number, and what follows them. -/
def numberTail : Nat → List Char → List Char × List Char
  | 0, cs => ([], cs)
  | fuel + 1, cs =>
    match cs with
    | '.' :: d :: rest =>
      if isDecimal d then
        let digits := d :: rest.takeWhile isDecimal
        let (more, after) := numberTail fuel (rest.dropWhile isDecimal)
        ('.' :: digits ++ more, after)
      else ([], cs)
    | _ => ([], cs)

/-- A section number such as `1.2.3` at the head of the trimmed line, then blanks, then a title. -/
def numbered? (stripped : List Char) : Option (String × Nat) :=
  match stripped.takeWhile isDecimal with
  | [] => none
  | first =>
    let (more, rest) := numberTail stripped.length (stripped.dropWhile isDecimal)
    let number := first ++ more
    let title := trim rest
    match rest with
    | c :: _ =>
      if isBlank c ∧ title ≠ [] then
        some (String.ofList (number ++ ' ' :: title), number.count '.' + 1)
      else none
    | [] => none

/-- A line of capitals: four words or more, no lower-case letter, and some letter from A to Z. -/
def capitals? (stripped : List Char) : Option (String × Nat) :=
  if 4 ≤ (words stripped).length ∧ stripped.all isRaised ∧
      stripped.any (fun c => 'A' ≤ c && c ≤ 'Z') then
    some (String.ofList stripped, 2)
  else none

/-- The title and level of a line that is a heading by itself. -/
def ownHeading? (line : List Char) : Option (String × Nat) :=
  marked? line <|> numbered? (trim line) <|> capitals? (trim line)

/-- The headings of the lines, the first line having index `i`. -/
def headingsFrom : Nat → List (List Char) → List Heading
  | _, [] => []
  | i, [line] =>
    match ownHeading? line with
    | some (title, level) => [⟨i, title, level⟩]
    | none => []
  | i, line :: next :: rest =>
    match underlined? line next with
    | some level => ⟨i, String.ofList (trim line), level⟩ :: headingsFrom (i + 2) rest
    | none =>
      match ownHeading? line with
      | some (title, level) => ⟨i, title, level⟩ :: headingsFrom (i + 1) (next :: rest)
      | none => headingsFrom (i + 1) (next :: rest)

/-- The sections under the headings, in a text of `total` lines. -/
def sections (total : Nat) : List Heading → List Section
  | [] => []
  | h :: hs =>
    let last := ((hs.find? fun k => k.level ≤ h.level).map (·.line)).getD total
    ⟨h.title, h.level, ⟨h.line + 1, last⟩⟩ :: sections total hs

/-- The outline of a text. -/
def outline (sourceName : String) (text : List Char) : Outline :=
  let lines := splitNewlines text
  { Outline.ofLines sourceName text lines with
    sections := sections lines.length (headingsFrom 0 lines) }

end SourceAtlas.Prose
