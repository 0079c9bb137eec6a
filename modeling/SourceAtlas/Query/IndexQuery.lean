import SourceAtlas.Index.Basic
import SourceAtlas.Path.Glob
import SourceAtlas.Query.OutlineQuery

/-!
# Questions about an index

Files, definitions and their sources, the two graphs in both directions, shortest chains of
dependencies, what a change may affect, and lines that match a pattern.
-/

set_option autoImplicit false

namespace SourceAtlas

/-- A definition and the file it was found in. -/
structure Located where
  file : String
  outline : Outline
  definition : Definition
  deriving Repr

/-- A line of a file that matches a pattern. -/
structure FileHit where
  file : String
  hit : Hit
  deriving DecidableEq, Repr

namespace Index

/-- The files in the order of their paths. -/
def sortedFiles (index : Index) : Assoc Outline := index.files.mergeSort fun a b => a.1 ≤ b.1

/-- The outline of a file. A path that is no key stands for the first file whose path it ends, or
which ends it. -/
def resolveFile? (index : Index) (path : String) : Option Outline :=
  match index.files.get? path with
  | some o => some o
  | none =>
    let fits (stored : String) :=
      Text.endsWith path.toList stored.toList || Text.endsWith stored.toList path.toList
    (index.files.find? fun (stored, _) => fits stored).map Prod.snd

/-- The outline of the file meant by a path. -/
def fileOutline (index : Index) (path : String) : Except QueryError Outline :=
  match index.resolveFile? path with
  | some o => .ok o
  | none => .error (.noFile path)

/-! ## Overviews -/

/-- Items with commas between them, the first twenty and the number of the others. -/
def firstTwenty (label : String) (items : List String) : List String :=
  if items.isEmpty then []
  else
    (label ++ Outline.commaList (items.take 20)) ::
      (if items.length > 20 then ["  ... and " ++ toString (items.length - 20) ++ " more"] else [])

/-- The folders that hold files. -/
def packages (index : Index) : List String :=
  let folders := index.files.keys.filterMap fun p =>
    (Text.cutLast? '/' p.toList).map fun (folder, _) => String.ofList folder
  Names.sorted (Names.ofList folders)

/-- An overview of the project. -/
def summary (index : Index) : String :=
  let t := index.totals
  let counts :=
    "Files: " ++ toString t.files ++ ", Lines: " ++ toString t.lines ++ ", Functions: " ++
      toString t.functions ++ ", Classes: " ++ toString t.classes
  let folders :=
    if index.packages.isEmpty then [] else ["Packages: " ++ Outline.commaList index.packages]
  let classes :=
    index.files.flatMap fun (path, o) => o.classes.map fun c => c.name ++ " (" ++ path ++ ")"
  let functions :=
    index.files.flatMap fun (path, o) => (o.functions.filter (!·.isMethod)).map fun f =>
      f.name ++ " (" ++ path ++ ")"
  Outline.joinLines
    (("Project: " ++ index.root) :: counts :: folders ++ firstTwenty "Classes: " classes ++
      firstTwenty "Functions: " functions)

/-- The paths of the files, those that fit a wildcard if one is given. -/
def listFiles (index : Index) (pattern : Option String) (limit : Int) : List String :=
  let paths := Names.sorted index.files.keys
  limited limit <|
    match pattern with
    | some p =>
      if p.isEmpty then paths
      else paths.filter fun path => (Wildcard.ofText p.toList).fits path.toList
    | none => paths

/-! ## Sources -/

/-- A text of at most `limit` lines, with a remark if lines were left out. -/
def truncated (limit : Int) (text : String) : String :=
  let lines := Text.splitOn '\n' text.toList
  if limit > 0 ∧ (lines.length : Int) > limit then
    String.ofList (Text.join ['\n'] (lines.take limit.toNat)) ++ "\n... (truncated to " ++
      toString limit ++ " lines)"
  else text

/-- A source from the file of its symbol, if that file has it and it does not read like an error. -/
def symbolSource? (index : Index) (source : Outline → String → Except QueryError String)
    (name : String) : Option String :=
  match (index.symbols.get? name).bind index.resolveFile? with
  | some o =>
    match source o name with
    | .ok text => if Text.startsWith "Error:".toList text.toList then none else some text
    | .error _ => none
  | none => none

/-- A source by name: from the given file, or from the file of its symbol, or from the first file
that has it. -/
def sourceByName (index : Index) (source : Outline → String → Except QueryError String)
    (missing : QueryError) (name : String)
    (path : Option String) (limit : Int) : String :=
  match path with
  | some p =>
    match index.resolveFile? p with
    | none => (QueryError.noFile p).asText
    | some o =>
      match source o name with
      | .ok text => truncated limit text
      | .error e => truncated limit e.asText
  | none =>
    let elsewhere := index.sortedFiles.findSome? fun (_, o) => (source o name).toOption
    match index.symbolSource? source name <|> elsewhere with
    | some text => truncated limit text
    | none => missing.asText

/-- The source of a function of the project. -/
def functionSource (index : Index) (name : String) (path : Option String) (limit : Int) : String :=
  index.sourceByName Outline.functionSource (.noFunctionInProject name) name path limit

/-- The source of a class of the project. -/
def classSource (index : Index) (name : String) (path : Option String) (limit : Int) : String :=
  index.sourceByName Outline.classSource (.noClassInProject name) name path limit

/-! ## Definitions -/

/-- The definition of a symbol in the file that the table of symbols gives. -/
def tableDefinition? (index : Index) (name : String) : Option Located :=
  match index.symbols.get? name with
  | some path =>
    (index.resolveFile? path).bind fun o => (o.definition? name).map fun d => ⟨path, o, d⟩
  | none => none

/-- The definition that goes by a name: by the table of symbols, or else in the first file that has
one. -/
def findDefinition? (index : Index) (name : String) : Option Located :=
  index.tableDefinition? name <|>
    index.sortedFiles.findSome? fun (path, o) => (o.definition? name).map fun d => ⟨path, o, d⟩

/-- The definition that goes by a name. -/
def findSymbol (index : Index) (name : String) : Except QueryError Located :=
  match index.findDefinition? name with
  | some found => .ok found
  | none => .error (.noSymbol name)

/-! ## Dependencies -/

/-- The names that a definition depends on. -/
def dependenciesOf (index : Index) (name : String) (limit : Int) :
    Except QueryError (List String) :=
  match index.dependencies.get? name with
  | some names => .ok (limited limit (Names.sorted names))
  | none => .error (.noDependencies name)

/-- The names that depend directly on a name, or else on the class in front of its first dot. -/
def directDependents? (index : Index) (name : String) : Option Names :=
  match index.dependents.get? name with
  | some names => some names
  | none =>
    match Text.splitOn '.' name.toList with
    | first :: _ :: _ => index.dependents.get? (String.ofList first)
    | _ => none

/-- What depends on a name. -/
def dependentsOf (index : Index) (name : String) (limit : Int) : Except QueryError (List String) :=
  match index.directDependents? name with
  | some names => .ok (limited limit (Names.sorted names))
  | none => .error (.noDependents name)

/-- The names along a shortest chain of dependencies. -/
def callChain (index : Index) (start goal : String) : Except QueryError (List String) :=
  if !index.dependencies.has start then .error (.noDependencies start)
  else if start == goal then .ok [start]
  else
    match index.dependencies.path? start goal with
    | some names => .ok names
    | none => .error (.noPath start goal)

/-- The names that a change of a definition affects: those that depend on it directly, and all
others that depend on those. -/
def changeImpact (index : Index) (name : String) (maxDirect maxTransitive : Int) :
    Except QueryError (List String × List String) :=
  match index.directDependents? name with
  | none => .error (.noDependents name)
  | some direct =>
    .ok (limited maxDirect (Names.sorted direct),
      limited maxTransitive (Names.sorted (index.dependents.beyond direct name)))

/-- The files that a file imports. -/
def importsOf (index : Index) (path : String) (limit : Int) : Except QueryError (List String) :=
  match index.imports.get? path with
  | some paths => .ok (limited limit (Names.sorted paths))
  | none => .error (.noImports path)

/-- The files that import a file. -/
def importersOf (index : Index) (path : String) (limit : Int) : Except QueryError (List String) :=
  match index.importers.get? path with
  | some paths => .ok (limited limit (Names.sorted paths))
  | none => .error (.noImporters path)

/-! ## Search -/

/-- The first lines of all files that satisfy a test; a limit that is not positive is none. -/
def searchWhere (index : Index) (test : List Char → Bool) (limit : Int) : List FileHit :=
  let searched := index.sortedFiles.foldl
    (fun s (path, o) => s.lines test limit.toNat (fun h => ⟨path, h⟩) 0 o.lines) Search.start
  searched.results

/-- The first lines of all files that match a pattern. -/
def search (index : Index) (p : Pattern) (limit : Int) : List FileHit :=
  index.searchWhere p.occursIn limit

end Index

end SourceAtlas
