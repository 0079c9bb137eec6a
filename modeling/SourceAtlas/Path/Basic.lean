import SourceAtlas.Text.Blank

/-!
# Paths

Paths are texts with slashes. `normalize` removes empty and dot steps and takes back a step for each
double dot where it can; `relativeTo` says how to get from one absolute path to another.
-/

set_option autoImplicit false

namespace SourceAtlas.Path

open SourceAtlas.Text

/-- The text starts at the top. -/
def isAbsolute (p : List Char) : Bool := startsWith ['/'] p

/-- The steps between slashes. -/
def steps (p : List Char) : List (List Char) := splitOn '/' p

/-- The path of steps. -/
def ofSteps (ss : List (List Char)) : List Char := join ['/'] ss

/-- The folder of a path: what stands before its last slash. -/
def folder (p : List Char) : List Char :=
  match cutLast? '/' p with
  | none => []
  | some (head, _) =>
    let bare := dropEndWhile (· == '/') head
    if bare.isEmpty then head ++ ['/'] else bare

/-- The extension of a path with its dot: what stands from the last dot of its last step on, unless
only dots come before. -/
def extension (p : List Char) : List Char :=
  let name := (steps p).getLastD []
  match cutLast? '.' name with
  | some (stem, ext) => if stem.all (· == '.') then [] else '.' :: ext
  | none => []

/-- A path seen from a folder. -/
def joinTo (base p : List Char) : List Char :=
  if isAbsolute p then p
  else if base.isEmpty || endsWith ['/'] base then base ++ p
  else base ++ '/' :: p

/-- Steps without empty and dot steps, each double dot taken with the step before it. `done` holds
the steps so far, the last first; at the top of an `absolute` path a double dot is dropped. -/
def reduce (absolute : Bool) (done : List (List Char)) : List (List Char) → List (List Char)
  | [] => done.reverse
  | s :: ss =>
    if s.isEmpty || s == ['.'] then reduce absolute done ss
    else if s == ['.', '.'] then
      match done with
      | [] => if absolute then reduce absolute [] ss else reduce absolute [s] ss
      | d :: ds => if d == ['.', '.'] then reduce absolute (s :: done) ss else reduce absolute ds ss
    else reduce absolute (s :: done) ss

/-- The slashes at the head of a normal path: two stay two, any other number becomes one. -/
def leading (p : List Char) : List Char :=
  match (p.takeWhile (· == '/')).length with
  | 0 => []
  | 2 => ['/', '/']
  | _ => ['/']

/-- The path without detours. -/
def normalize (p : List Char) : List Char :=
  match leading p ++ ofSteps (reduce (isAbsolute p) [] (steps p)) with
  | [] => ['.']
  | n => n

/-- What remains of two lists of steps behind their common beginning. -/
def afterCommon : List (List Char) → List (List Char) → List (List Char) × List (List Char)
  | a :: as, b :: bs => if a == b then afterCommon as bs else (a :: as, b :: bs)
  | as, bs => (as, bs)

/-- The way from the absolute path `base` to the absolute path `p`. -/
def relativeTo (base p : List Char) : List Char :=
  let (ups, downs) := afterCommon (reduce true [] (steps base)) (reduce true [] (steps p))
  match ups.map (fun _ => ['.', '.']) ++ downs with
  | [] => ['.']
  | ss => ofSteps ss

end SourceAtlas.Path
