import SourceAtlas.Collection.Basic
import SourceAtlas.Text.Blank

/-!
# What git says has changed

Questions to git, asked by running its commands. Which commands are run does not depend on how they
are answered, and a command that fails, cannot be found or takes too long counts as one that says
nothing. `changesSince` joins what was committed since a commit with what is staged, not staged,
and not tracked.
-/

set_option autoImplicit false

namespace SourceAtlas

/-- How the run of a command ended. -/
inductive Outcome where
  | exited (code : Int) (output : String)
  | notFound
  | timedOut
  deriving DecidableEq, Repr

/-- What a successful command wrote. -/
def Outcome.output? : Outcome → Option (List Char)
  | .exited code output => if code == 0 then some output.toList else none
  | _ => none

/-- A change of one file as reported: it was modified, added or deleted. -/
inductive Change where
  | modified (path : String)
  | added (path : String)
  | deleted (path : String)
  deriving DecidableEq, Repr

/-- Changed files, each list in the order of code points. -/
structure Changes where
  modified : List String
  added : List String
  deleted : List String
  deriving DecidableEq, Repr

namespace Changes

/-- No changes. -/
def none : Changes := ⟨[], [], []⟩

/-- Is nothing changed? -/
def isEmpty (c : Changes) : Bool := c.modified.isEmpty && c.added.isEmpty && c.deleted.isEmpty

/-- The number of changed paths. -/
def size (c : Changes) : Nat := c.modified.length + c.added.length + c.deleted.length

end Changes

namespace Git

open SourceAtlas.Text

/-- The lines of an output, without blanks around the whole. -/
def outputLines (output : List Char) : List (List Char) := splitBreaks (trim output)

/-- The changes in a line of a status report: a status, a path and for a renamed file its new path,
with tabs between them. -/
def statusChanges (line : List Char) : List Change :=
  match (splitOn '\t' line).map String.ofList with
  | status :: path :: more =>
    if status == "M" then [.modified path]
    else if status == "A" then [.added path]
    else if status == "D" then [.deleted path]
    else if startsWith ['R'] status.toList then .deleted path :: (more.take 1).map .added
    else []
  | _ => []

/-- The changes that lines of a report tell. -/
def reportChanges (output : List Char) : List Change := (outputLines output).flatMap statusChanges

/-- The files in a list of files that are not tracked. -/
def untrackedChanges (output : List Char) : List Change :=
  ((outputLines output).map trim).filterMap fun path =>
    if path.isEmpty then none else some (.added (String.ofList path))

/-- Changes put together. A file that was both added and deleted counts as modified. -/
def collectChanges (changes : List Change) : Changes :=
  let modified := changes.filterMap fun | .modified p => some p | _ => none
  let added := changes.filterMap fun | .added p => some p | _ => none
  let deleted := changes.filterMap fun | .deleted p => some p | _ => none
  let both := added.filter deleted.contains
  let arrange := fun paths => Names.sorted (Names.ofList paths)
  { modified := arrange (modified ++ both)
    added := arrange (added.filter fun p => !both.contains p)
    deleted := arrange (deleted.filter fun p => !both.contains p) }

variable {m : Type → Type} [Monad m] (run : List String → m Outcome)

/-- Does the folder belong to a work tree? -/
def isWorkTree : m Bool := do
  let outcome ← run ["git", "rev-parse", "--is-inside-work-tree"]
  return outcome.output?.any fun output => trim output == "true".toList

/-- The commit that is checked out. -/
def head : m (Option String) := do
  let outcome ← run ["git", "rev-parse", "HEAD"]
  return outcome.output?.map fun output => String.ofList (trim output)

/-- The changes that are read from what a command wrote, none if it failed. -/
def changesBy (read : List Char → List Change) (command : List String) : m (List Change) := do
  let outcome ← run command
  return (outcome.output?.map read).getD []

/-- The changes since a commit as the commands report them. -/
def reportedSince (commit : String) : m (List Change) := do
  let committed ← changesBy run reportChanges ["git", "diff", "--name-status", commit, "HEAD"]
  let unstaged ← changesBy run reportChanges ["git", "diff", "--name-status"]
  let staged ← changesBy run reportChanges ["git", "diff", "--name-status", "--cached"]
  let untracked ←
    changesBy run untrackedChanges ["git", "ls-files", "--others", "--exclude-standard"]
  return committed ++ unstaged ++ staged ++ untracked

/-- All changes since a commit. -/
def changesSince (commit : String) : m Changes := return collectChanges (← reportedSince run commit)

/-- All changes since a commit, if one is known; nothing is asked otherwise. -/
def changesSince? : Option String → m Changes
  | some commit => changesSince run commit
  | none => return .none

end Git

end SourceAtlas
