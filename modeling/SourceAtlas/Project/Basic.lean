import SourceAtlas.Index.Dependencies
import SourceAtlas.Outline.OfText
import SourceAtlas.Path.Glob

/-!
# Projects and their indexes

A project is a root, settings, and the index that was last made of it. `Index.ofTree` makes an index
of all files that the settings take from a tree.
-/

set_option autoImplicit false

namespace SourceAtlas

/-! ## What belongs to a project

The settings of an index: globs for the files to take, patterns for those to leave out, and the
largest size. An empty list of patterns stands for the usual ones. -/

/-- The settings of an index. -/
structure Settings where
  includes : List String
  excludes : List String
  maxSize : Int
  deriving DecidableEq, Repr

namespace Settings

/-- The files that are taken unless others are asked for. -/
def usualIncludes : List String :=
  ["**/*.py", "**/*.ts", "**/*.tsx", "**/*.js", "**/*.jsx", "**/*.go", "**/*.rs", "**/*.cs",
    "**/*.md", "**/*.txt", "**/*.json"]

/-- The files that are left out unless others are. -/
def usualExcludes : List String :=
  ["**/__pycache__/**", "**/node_modules/**", "**/.git/**", "**/.venv/**", "**/venv/**",
    "**/*.egg-info/**", "**/target/**", "**/vendor/**", "**/package-lock.json",
    "**/.package-lock.json", "**/composer.lock"]

/-- The largest size of a file in bytes, unless another is given. -/
def usualMaxSize : Int := 500000

/-- Settings with the usual patterns in place of empty lists. -/
def of (includes excludes : List String) (maxSize : Int) : Settings :=
  ⟨if includes.isEmpty then usualIncludes else includes,
    if excludes.isEmpty then usualExcludes else excludes, maxSize⟩

/-- The usual settings. -/
def usual : Settings := of [] [] usualMaxSize

open SourceAtlas.Text

/-- The name that a pattern excludes wherever it stands in a path: the pattern without double
asterisks and outer slashes. -/
def excludedName (pattern : List Char) : List Char :=
  let bare := replaceAll "/**".toList [] (replaceAll "**/".toList [] pattern)
  dropEndWhile (· == '/') (bare.dropWhile (· == '/'))

/-- The pattern leaves out the path: it fits the path, or one of the steps is the name it
excludes. -/
def patternExcludes (path pattern : List Char) : Bool :=
  (Wildcard.ofText pattern).fits path || (Path.steps path).contains (excludedName pattern)

/-- Do the settings leave the path out? -/
def isExcluded (s : Settings) (path : String) : Bool :=
  s.excludes.any fun pattern => patternExcludes path.toList pattern.toList

/-- One of the patterns, read as a wildcard, fits the path. -/
def fitsAny (patterns : List String) (path : String) : Bool :=
  patterns.any fun p => (Wildcard.ofText p.toList).fits path.toList

/-- The path is taken by an update. -/
def isIncluded (s : Settings) (path : String) : Bool := fitsAny s.includes path

/-- A file of a tree that the settings take: its path with the steps by which it was found, and its
path from the root. -/
structure Discovered where
  shown : String
  key : String
  deriving DecidableEq, Repr

/-- A file that was discovered. -/
def discovered (s : Glob.Spot) : Discovered := ⟨"/".intercalate s.shown, s.path⟩

/-- The files that one glob finds and no pattern leaves out, within the size. -/
def globbed (s : Settings) (tree : FileTree) (pattern : String) :
    Except GlobError (List Discovered) := do
  let glob ← Glob.ofText pattern.toList
  return ((Glob.files tree glob).filter fun spot =>
    !s.isExcluded spot.path &&
      ((tree.files.get? spot.path).any fun bytes => (bytes.length : Int) ≤ s.maxSize)).map
        discovered

/-- The files that the settings take from a tree, in the order of their paths, each once. -/
def discover (s : Settings) (tree : FileTree) : Except GlobError (List Discovered) := do
  let found ← s.includes.mapM (s.globbed tree)
  return (found.flatten.eraseDups).mergeSort fun a b => a.shown ≤ b.shown

end Settings

/-- Why an index was not made. -/
inductive IndexError where
  | glob (cause : GlobError)
  | outline (cause : OutlineError)
  deriving DecidableEq, Repr

/-- The message of an error. -/
def IndexError.message : IndexError → String
  | .glob cause => cause.message
  | .outline cause => cause.message

namespace Index

/-- The index with its four graphs made anew from its files and symbols. -/
def rebuild (index : Index) : Index :=
  let imports := Graph.ofImports index.files
  let dependencies := Graph.ofDependencies index.files index.symbols
  { index with
    imports, importers := imports.transpose
    dependencies, dependents := dependencies.transpose }

/-- The outlines of discovered files. -/
def outlines (tree : FileTree) (found : List Settings.Discovered) :
    Except OutlineError (List (String × Outline)) :=
  found.mapM fun d => do
    let bytes := (tree.files.get? d.key).getD []
    let outline ← Outline.ofText (String.ofList (Text.ofBytes bytes)) d.key none
    return (d.key, outline)

/-- The index of a table of files, with nothing counted. -/
def ofFiles (root : String) (files : Assoc Outline) : Index :=
  rebuild { Index.empty root with files, symbols := Symbols.ofFiles files }

/-- The index of outlines found one after the other. A file that was found twice counts twice,
except in the number of files. -/
def ofOutlines (root : String) (found : List (String × Outline)) : Index :=
  let files := Assoc.ofPairs found
  { ofFiles root files with totals := { Totals.ofFiles found with files := files.length } }

/-- The index of all files that the settings take from a tree. -/
def ofTree (root : String) (settings : Settings) (tree : FileTree) : Except IndexError Index := do
  let found ← (settings.discover tree).mapError .glob
  let outlines ← (outlines tree found).mapError .outline
  return ofOutlines root outlines

end Index

/-- A project and the index last made of it. -/
structure Project where
  root : String
  settings : Settings
  index : Option Index

namespace Project

/-- A project of which no index has been made. -/
def fresh (root : String) (settings : Settings) : Project := ⟨root, settings, none⟩

/-- The absolute path that a path stands for: an absolute path without its detours, and any other
from the root. -/
def absolute (root path : String) : List Char :=
  if Path.isAbsolute path.toList then Path.normalize path.toList
  else Path.joinTo root.toList path.toList

/-- The path by which the index knows a file. -/
def key (root path : String) : String :=
  String.ofList (Path.relativeTo root.toList (absolute root path))

end Project

end SourceAtlas
