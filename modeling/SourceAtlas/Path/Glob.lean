import SourceAtlas.Project.FileTree

/-!
# Globs

A glob describes paths step by step: a plain name, a wildcard for one step, or a double asterisk for
any number of folders. `Glob.select` finds what a glob fits in a file tree.
-/

set_option autoImplicit false

namespace SourceAtlas

/-! ## Wildcards

A wildcard fits whole texts: an asterisk stands for any characters, a question mark for one, and
characters in brackets for one of them. A bracket that is not closed stands for itself. Slashes and
newlines are characters like any other. -/

/-- A part of a wildcard. A set holds the characters from each range's low to its high end, or with
`negated` all others. -/
inductive WildPart where
  | star
  | any
  | char (c : Char)
  | set (ranges : List (Char × Char)) (negated : Bool)
  deriving DecidableEq, Repr

namespace WildPart

/-- Does the part fit one character? -/
def fitsChar : WildPart → Char → Bool
  | .star, _ => false
  | .any, _ => true
  | .char d, c => c == d
  | .set ranges negated, c => (ranges.any fun (low, high) => low ≤ c && c ≤ high) != negated

end WildPart

/-- A wildcard by its parts. -/
abbrev Wildcard := List WildPart

namespace Wildcard

/-- Cuts the inside of brackets at the hyphens that stand for a range. A hyphen counts from position
`from` on, and the next one from three characters further. -/
def chunks : Nat → Nat → List Char → List (List Char)
  | 0, _, cs => [cs]
  | fuel + 1, start, cs =>
    match (cs.drop start).findIdx? (· == '-') with
    | none => [cs]
    | some k => cs.take (start + k) :: chunks fuel 2 (cs.drop (start + k + 1))

/-- A hyphen at the very end belongs to the chunk before it. -/
def closeLast : List (List Char) → List (List Char)
  | [a, []] => [a ++ ['-']]
  | a :: rest => a :: closeLast rest
  | [] => []

/-- Joins chunks whose range would be empty: both ends of the range are left out. -/
def dropEmptyRanges : List (List Char) → List (List Char)
  | [] => []
  | a :: rest =>
    match dropEmptyRanges rest with
    | [] => [a]
    | b :: more =>
      match a.getLast?, b.head? with
      | some high, some low =>
        if high > low then (a.dropLast ++ b.drop 1) :: more else a :: b :: more
      | _, _ => a :: b :: more

/-- The ranges of chunks: between the last character of one and the first of the next, and each
other character by itself. -/
def ranges : List (List Char) → List (Char × Char)
  | [] => []
  | [a] => a.map fun c => (c, c)
  | a :: b :: rest =>
    match a.getLast?, b.head? with
    | some low, some high => (a.map fun c => (c, c)) ++ (low, high) :: ranges (b :: rest)
    | _, _ => (a.map fun c => (c, c)) ++ ranges (b :: rest)

/-- The part for the inside of brackets. Inside of them an exclamation mark in front stands for all
other characters. -/
def bracketPart (inside : List Char) : WildPart :=
  let start := if inside.head? == some '!' then 2 else 1
  let cut :=
    if inside.contains '-' then dropEmptyRanges (closeLast (chunks inside.length start inside))
    else [inside]
  match cut with
  | ('!' :: a) :: rest => if a.isEmpty && rest.isEmpty then .any else .set (ranges (a :: rest)) true
  | other => .set (ranges other) false

/-- The inside of brackets and the text behind them. A closing bracket in front, also behind an
exclamation mark, belongs to the inside. -/
def inside? (cs : List Char) : Option (List Char × List Char) :=
  let mark := if cs.head? == some '!' then 1 else 0
  let first := if cs[mark]? == some ']' then mark + 1 else mark
  match (cs.drop first).findIdx? (· == ']') with
  | some k => some (cs.take (first + k), cs.drop (first + k + 1))
  | none => none

/-- The parts of a wildcard from the left. -/
def parse : Nat → List Char → Wildcard
  | 0, _ => []
  | _ + 1, [] => []
  | fuel + 1, c :: cs =>
    if c == '*' then .star :: parse fuel (cs.dropWhile (· == '*'))
    else if c == '?' then .any :: parse fuel cs
    else if c == '[' then
      match inside? cs with
      | some (inside, rest) => bracketPart inside :: parse fuel rest
      | none => .char '[' :: parse fuel cs
    else .char c :: parse fuel cs

/-- The wildcard that a text stands for. -/
def ofText (text : List Char) : Wildcard := parse (text.length + 1) text

/-- All ends of a text. -/
def ends : List Char → List (List Char)
  | [] => [[]]
  | c :: cs => (c :: cs) :: ends cs

/-- Does the wildcard fit the text? -/
def fits : Wildcard → List Char → Bool
  | [], cs => cs.isEmpty
  | .star :: ps, cs => (ends cs).any (fits ps)
  | p :: ps, c :: cs => p.fitsChar c && fits ps cs
  | _ :: _, [] => false

end Wildcard

/-- A step of a glob. The last step of a glob that ends with a slash asks for a folder. -/
inductive GlobStep where
  | folders
  | wild (w : Wildcard)
  | plain (name : String)
  | folderOnly
  deriving DecidableEq, Repr

/-- Why a text is no glob. -/
inductive GlobError where
  | empty
  | absolute
  | partialFolders
  | noSteps
  | onlySlash
  deriving DecidableEq, Repr

/-- The message of an error. -/
def GlobError.message : GlobError → String
  | .empty => "Unacceptable pattern: ''"
  | .absolute => "Non-relative patterns are unsupported"
  | .partialFolders => "Invalid pattern: '**' can only be an entire path component"
  | .noSteps => "tuple index out of range"
  | .onlySlash => "'_TerminatingSelector' object has no attribute 'select_from'"

/-- A glob by its steps. -/
abbrev Glob := List GlobStep

namespace Glob

open SourceAtlas.Text

/-- The step that a text stands for. -/
def step (s : List Char) : Except GlobError GlobStep :=
  if s == ['*', '*'] then .ok .folders
  else if contains ['*', '*'] s then .error .partialFolders
  else if s.contains '*' || s.contains '?' || s.contains '[' then .ok (.wild (Wildcard.ofText s))
  else .ok (.plain (String.ofList s))

/-- The glob that a text describes. Empty and dot steps do not count, except for a slash at the
end. -/
def ofText (text : List Char) : Except GlobError Glob :=
  if text.isEmpty then .error .empty
  else if Path.isAbsolute text then .error .absolute
  else
    let parts := (Path.steps text).filter fun s => !s.isEmpty && s != ['.']
    let slash := text.getLast? == some '/'
    if parts.isEmpty then .error (if slash then .onlySlash else .noSteps)
    else
      match parts.mapM step with
      | .error e => .error e
      | .ok steps => .ok (if slash then steps ++ [.folderOnly] else steps)

/-- Something in a tree: its path from the root, and the steps by which it was found. -/
structure Spot where
  path : String
  shown : List String
  deriving DecidableEq, Repr

/-- A step further from a spot. -/
def Spot.enter (s : Spot) (name : String) : Spot := ⟨FileTree.child s.path name, s.shown ++ [name]⟩

/-- The steps from a folder to a path below it. -/
def stepsBelow (folder below : String) : List String :=
  let rest := if folder.isEmpty then below.toList else below.toList.drop (folder.length + 1)
  if rest.isEmpty then [] else (Path.steps rest).map String.ofList

/-- The spot that a plain name leads to; a double dot leads to the folder around, unless that is
above the root. -/
def Spot.toward? (s : Spot) (name : String) : Option Spot :=
  if name == ".." then
    if s.path.isEmpty then none
    else some ⟨String.ofList (Path.folder s.path.toList), s.shown ++ [name]⟩
  else some (s.enter name)

/-- All that a glob fits from a spot, which is a folder, on. -/
def select (tree : FileTree) : Glob → Spot → List Spot
  | [], s => [s]
  | .folderOnly :: _, s => [s]
  | .plain name :: rest, s =>
    match s.toward? name with
    | none => []
    | some next =>
      if tree.isFolder next.path then select tree rest next
      else if rest.isEmpty && tree.files.has next.path then [next]
      else []
  | .wild w :: rest, s =>
    ((tree.entries s.path).filter fun (name, isFolder) =>
      (rest.isEmpty || isFolder) && w.fits name.toList).flatMap fun (name, _) =>
      select tree rest (s.enter name)
  | .folders :: rest, s =>
    (tree.foldersFrom s.path).flatMap fun folder =>
      select tree rest ⟨folder, s.shown ++ stepsBelow s.path folder⟩

/-- The files that a glob fits. -/
def files (tree : FileTree) (glob : Glob) : List Spot :=
  (select tree glob ⟨"", []⟩).filter fun s => tree.files.has s.path

end Glob

end SourceAtlas
