import SourceAtlas.Index.Update

/-!
# Work on a project

What can be done with a project: make its index, enter or take out a file, make the graphs anew, and
look up the outline of a file. All but the first need an index.
-/

set_option autoImplicit false

namespace SourceAtlas

/-- What needs an index. -/
inductive Operation where
  | reindex | remove | rebuild
  deriving DecidableEq, Repr

/-- What an operation is called when it is refused. -/
def Operation.name : Operation → String
  | .reindex => "reindex"
  | .remove => "remove_file"
  | .rebuild => "rebuild_graphs"

/-- Why an operation on a project failed. -/
inductive ProjectError where
  | index (cause : IndexError)
  | reindex (cause : ReindexError)
  | notIndexed (operation : Operation)
  | noFile (path : String)
  deriving DecidableEq, Repr

/-- The message of an error. -/
def ProjectError.message : ProjectError → String
  | .index cause => cause.message
  | .reindex cause => cause.message
  | .notIndexed operation => "Cannot " ++ operation.name ++ " before initial index() call."
  | .noFile path => String.ofList (Text.quoted path.toList)

namespace Project

/-- The project with an index of a tree. A failure keeps the index it had. -/
def makeIndex (p : Project) (tree : FileTree) : Project × Option ProjectError :=
  match Index.ofTree p.root p.settings tree with
  | .ok index => ({ p with index := some index }, none)
  | .error e => (p, some (.index e))

/-- The project with the present text of a file in its index. -/
def reindex (p : Project) (tree : FileTree) (path : String) (skipGraphs : Bool) :
    Project × Option ProjectError :=
  match p.index with
  | none => (p, some (.notIndexed .reindex))
  | some index =>
    let (next, fault) := index.reindex tree path skipGraphs
    ({ p with index := some next }, fault.map .reindex)

/-- Changes the index, if there is one. -/
def change (p : Project) (operation : Operation) (f : Index → Index) :
    Project × Option ProjectError :=
  match p.index with
  | none => (p, some (.notIndexed operation))
  | some index => ({ p with index := some (f index) }, none)

/-- The project without a file in its index. -/
def remove (p : Project) (path : String) : Project × Option ProjectError :=
  p.change .remove fun index => index.remove path

/-- The project with the graphs of its index made anew. -/
def rebuild (p : Project) : Project × Option ProjectError := p.change .rebuild Index.rebuild

end Project

/-- The outline of a file of the index. -/
def Index.outline (index : Index) (path : String) : Except ProjectError Outline :=
  match index.files.get? path with
  | some o => .ok o
  | none => .error (.noFile path)

end SourceAtlas
