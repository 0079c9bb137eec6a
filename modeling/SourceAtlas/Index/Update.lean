import SourceAtlas.Project.Basic

/-!
# Updates of an index

An index follows its files one by one. `release` takes out what a file has entered; `reindex` enters
the present text of a file, and `remove` takes the file out. Neither has to touch the graphs of
dependencies: `rebuild` makes all graphs anew.
-/

set_option autoImplicit false

namespace SourceAtlas

/-- Why a file was not entered again. -/
inductive ReindexError where
  | nulInPath
  | outline (cause : OutlineError)
  deriving DecidableEq, Repr

/-- The message of an error. -/
def ReindexError.message : ReindexError → String
  | .nulInPath => "embedded null byte"
  | .outline cause => cause.message

namespace Index

/-- The index without the symbols, imports and counts of a file, which is still in the table of
files. -/
def release (index : Index) (path : String) (o : Outline) : Index :=
  { index with
    symbols := Symbols.release index.symbols path o.updatedNames
    imports := index.imports.erase path
    importers := index.importers.dropTarget path
    totals := index.totals.subtract o }

/-- The index with the file released, if it has the file. -/
def releaseFile (index : Index) (path : String) : Index :=
  match index.files.get? path with
  | some o => index.release path o
  | none => index

/-- The index without an entry in the table of files. -/
def dropFile (index : Index) (path : String) : Index :=
  if index.files.has path then
    let files := index.files.erase path
    { index with files, totals := { index.totals with files := files.length } }
  else index

/-- The graph of imports with the targets of one file; without targets the file leaves the graph. -/
def putImports (imports : Graph) (path : String) (targets : Names) : Graph :=
  if targets.isEmpty then imports.erase path else imports.put path targets

/-- The index with the outline of a file, which was released before. -/
def enter (index : Index) (path : String) (o : Outline) : Index :=
  let files := index.files.put path o
  { index with
    files
    totals := { index.totals.add o with files := files.length }
    symbols := Symbols.enter index.symbols path o.updatedNames
    imports := putImports index.imports path (o.importTargets path files.keys) }

/-- The index with the graphs that one file changes made anew, the graph of imports apart. -/
def refresh (index : Index) : Index :=
  let dependencies := Graph.ofDependencies index.files index.symbols
  { index with
    importers := index.imports.transpose
    dependencies, dependents := dependencies.transpose }

/-- The index with the present text of a file. A file that cannot be read is taken out, and the
graphs stay. An error leaves the file released. -/
def reindex (index : Index) (tree : FileTree) (path : String) (skipGraphs : Bool) :
    Index × Option ReindexError :=
  let key := Project.key index.root path
  let released := index.releaseFile key
  let place := Project.absolute index.root path
  if place.contains '\x00' then (released, some .nulInPath)
  else
    match tree.read? index.root.toList place with
    | none => (released.dropFile key, none)
    | some bytes =>
      match Outline.ofText (String.ofList (Text.ofBytes bytes)) key none with
      | .error e => (released, some (.outline e))
      | .ok o =>
        let entered := released.enter key o
        (if skipGraphs then entered else entered.refresh, none)

/-- The index without a file. -/
def remove (index : Index) (path : String) : Index :=
  let key := Project.key index.root path
  (index.releaseFile key).dropFile key

end Index

end SourceAtlas
