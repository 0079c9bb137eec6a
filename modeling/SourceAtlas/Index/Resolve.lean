import SourceAtlas.Path.Basic

/-!
# Where imports lead

An import names a module, and each language has its own rules for the files of a project that the
name may stand for. Most rules list candidates, of which the first that is a file of the project is
meant; a Go import stands for a folder, and the longest end of its path that names one counts.
-/

set_option autoImplicit false

namespace SourceAtlas.Resolve

open SourceAtlas.Text

/-- The languages with rules for imports. -/
inductive Language where
  | python | script | rust | go | csharp
  deriving DecidableEq, Repr

/-- The language of a file, by its extension. -/
def language? (file : String) : Option Language :=
  match String.ofList ((Path.extension file.toList).map Char.toLower) with
  | ".py" => some .python
  | ".ts" => some .script
  | ".tsx" => some .script
  | ".js" => some .script
  | ".jsx" => some .script
  | ".rs" => some .rust
  | ".go" => some .go
  | ".cs" => some .csharp
  | _ => none

/-- Names with slashes in place of a separator. -/
def slashed (sep : String) (name : List Char) : String :=
  String.ofList (replaceAll sep.toList ['/'] name)

/-- The folders, with a slash behind them, that modules are looked for in. -/
def sourceFolders : List String := ["", "src/", "lib/"]

/-- The files that a dotted module name may stand for: a file, or the file of a package. -/
def pythonCandidates (target : String) : List String :=
  sourceFolders.flatMap fun folder =>
    let path := folder ++ slashed "." target.toList
    [path ++ ".py", path ++ "/__init__.py"]

/-- The path that a script's import describes: from the importing file's folder if it starts with a
dot, or from the source folder if it starts with an at sign and a slash. -/
def scriptBase? (file target : String) : Option String :=
  match target.toList with
  | '.' :: _ =>
    some (String.ofList (Path.normalize (Path.joinTo (Path.folder file.toList) target.toList)))
  | '@' :: '/' :: rest => some ("src/" ++ String.ofList rest)
  | _ => none

/-- The extensions of scripts. -/
def scriptExtensions : List String := [".ts", ".tsx", ".js", ".jsx"]

/-- The files that a script's import may stand for: the path as it is, with an extension, or the
index of a folder. -/
def scriptCandidates (file target : String) : List String :=
  match scriptBase? file target with
  | none => []
  | some base =>
    base :: (scriptExtensions.map (base ++ ·) ++ scriptExtensions.map (base ++ "/index" ++ ·))

/-- A folder with a slash behind it, unless it is the root. -/
def folderPath (folder : List Char) : String :=
  if folder.isEmpty then "" else String.ofList (folder ++ ['/'])

/-- The folders that a Rust path is looked for in, and the path within them. -/
def rustPlaces (file target : String) : List String × List Char :=
  let folder := Path.folder file.toList
  match after? "crate::".toList target.toList, after? "super::".toList target.toList,
      after? "self::".toList target.toList with
  | some rest, _, _ => (["src/", ""], rest)
  | _, some rest, _ => ([folderPath (Path.folder folder)], rest)
  | _, _, some rest => ([folderPath folder], rest)
  | _, _, _ => ([], [])

/-- The two files that a Rust module may be in. -/
def rustFiles (path : String) : List String := [path ++ ".rs", path ++ "/mod.rs"]

/-- The files that a Rust path may stand for: the module it names, or the one around it. -/
def rustCandidates (file target : String) : List String :=
  let (folders, path) := rustPlaces file target
  let steps := slashed "::" path
  folders.flatMap fun folder =>
    rustFiles (folder ++ steps) ++
      match cutLast? '/' steps.toList with
      | some (around, _) => rustFiles (folder ++ String.ofList around)
      | none => []

/-- Namespaces that no project defines itself. -/
def foreignNamespaces : List String :=
  ["System", "Microsoft", "Newtonsoft", "NUnit", "Xunit", "Moq"]

/-- The files that a C# namespace may stand for. -/
def csharpCandidates (target : String) : List String :=
  if foreignNamespaces.any fun n => startsWith n.toList target.toList then []
  else sourceFolders.map fun folder => folder ++ slashed "." target.toList ++ ".cs"

/-- The first candidate that is a file. -/
def firstPresent? (candidates files : List String) : Option String :=
  candidates.find? files.contains

/-- The folders with Go files, each with the first of them. -/
def goFolders (files : List String) : List (List Char × String) :=
  (files.filter fun f => endsWith ".go".toList f.toList).foldl
    (fun folders f =>
      let folder := Path.folder f.toList
      if folders.any (·.1 == folder) then folders else folders ++ [(folder, f)])
    []

/-- The folder is named by the ending, or ends with it behind a slash. -/
def namesFolder (ending folder : List Char) : Bool :=
  folder == ending || endsWith ('/' :: ending) folder

/-- The ends of a path, the longest first, each of at least one step. -/
def pathEnds : List (List Char) → List (List Char)
  | [] => []
  | s :: ss => Path.ofSteps (s :: ss) :: pathEnds ss

/-- The file of the folder that the longest possible end of a Go import path names. -/
def goFile? (target : String) (files : List String) : Option String :=
  (pathEnds (Path.steps target.toList)).findSome? fun ending =>
    ((goFolders files).find? fun (folder, _) => namesFolder ending folder).map Prod.snd

/-- The file that an import leads to by the rules of a language. -/
def byLanguage? (language : Language) (file target : String) (files : List String) :
    Option String :=
  match language with
  | .python => firstPresent? (pythonCandidates target) files
  | .script => firstPresent? (scriptCandidates file target) files
  | .rust => firstPresent? (rustCandidates file target) files
  | .go => if target.isEmpty then none else goFile? target files
  | .csharp => if target.isEmpty then none else firstPresent? (csharpCandidates target) files

/-- The file of the project that an import in a file leads to. -/
def import? (file target : String) (files : List String) : Option String :=
  if target.isEmpty then none
  else (language? file).bind fun language => byLanguage? language file target files

end SourceAtlas.Resolve
