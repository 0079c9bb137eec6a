import SourceAtlas.Collection.Basic
import SourceAtlas.Path.Basic
import SourceAtlas.Text.Encoding

/-!
# File trees

The files and folders below the root of a project. Files are known by their paths from the root. A
path with detours leads to a file only if every folder on the way exists.
-/

set_option autoImplicit false

namespace SourceAtlas

/-- The files of a project by path, and its folders besides the root. -/
structure FileTree where
  files : Assoc (List UInt8)
  folders : List String

namespace FileTree

/-- No files. -/
def empty : FileTree := ⟨[], []⟩

/-- The paths of all folders that a path lies in, apart from the root. -/
def ancestors (path : String) : List String :=
  let steps := Path.steps path.toList
  (List.range (steps.length - 1)).map fun n => String.ofList (Path.ofSteps (steps.take (n + 1)))

/-- The tree with more folders. -/
def addFolders (tree : FileTree) (paths : List String) : FileTree :=
  { tree with folders := tree.folders ++ paths.filter fun p => !tree.folders.contains p }

/-- The tree with a file, and with the folders it lies in. -/
def write (tree : FileTree) (path : String) (bytes : List UInt8) : FileTree :=
  let grown := tree.addFolders (ancestors path)
  { grown with files := grown.files.put path bytes }

/-- The tree with a folder, and with the folders it lies in. -/
def makeFolder (tree : FileTree) (path : String) : FileTree :=
  tree.addFolders (ancestors path ++ [path])

/-- Does the path lie below the folder? -/
def isBelow (folder path : String) : Bool := Text.startsWith (folder.toList ++ ['/']) path.toList

/-- The tree without a file, or without a folder and all that it holds. -/
def delete (tree : FileTree) (path : String) : FileTree :=
  if tree.files.has path then { tree with files := tree.files.erase path }
  else
    { files := tree.files.filter fun (p, _) => !isBelow path p
      folders := tree.folders.filter fun p => p != path && !isBelow path p }

/-- Is the path a folder? -/
def isFolder (tree : FileTree) (path : String) : Bool := path.isEmpty || tree.folders.contains path

/-- A folder and those below it. -/
def foldersFrom (tree : FileTree) (path : String) : List String :=
  path :: tree.folders.filter fun p => path.isEmpty || isBelow path p

/-- The path of something in a folder. -/
def child (folder name : String) : String := if folder.isEmpty then name else folder ++ "/" ++ name

/-- The name of something if it lies directly in the folder. -/
def childName? (folder path : String) : Option String :=
  match Text.cutLast? '/' path.toList with
  | none => if folder.isEmpty then some path else none
  | some (parent, name) =>
    if String.ofList parent == folder then some (String.ofList name) else none

/-- The names of all that lies directly in a folder, and whether each is a folder. -/
def entries (tree : FileTree) (folder : String) : List (String × Bool) :=
  (tree.folders.filterMap fun p => (childName? folder p).map fun n => (n, true)) ++
    (tree.files.keys.filterMap fun p => (childName? folder p).map fun n => (n, false))

/-- Follows steps from the absolute place `here`, where `root` is the place of the project. Only
folders can be passed through. -/
def follow (tree : FileTree) (root : List (List Char)) (here : List (List Char)) :
    List (List Char) → Option (List (List Char))
  | [] => some here
  | s :: ss =>
    let isPassable :=
      match Path.afterCommon root here with
      | (_, []) => true
      | ([], below) => tree.isFolder (String.ofList (Path.ofSteps below))
      | _ => false
    if !isPassable then none
    else if s.isEmpty || s == ['.'] then follow tree root here ss
    else if s == ['.', '.'] then follow tree root here.dropLast ss
    else follow tree root (here ++ [s]) ss

/-- The path from the root of the file that an absolute path leads to. -/
def locate? (tree : FileTree) (root path : List Char) : Option String :=
  let rootSteps := Path.reduce true [] (Path.steps root)
  match tree.follow rootSteps [] ((Path.steps path).drop 1) with
  | none => none
  | some place =>
    match Path.afterCommon rootSteps place with
    | ([], below) =>
      let key := String.ofList (Path.ofSteps below)
      if tree.files.has key then some key else none
    | _ => none

/-- The bytes of the file that an absolute path leads to. -/
def read? (tree : FileTree) (root path : List Char) : Option (List UInt8) :=
  (tree.locate? root path).bind tree.files.get?

end FileTree

end SourceAtlas
