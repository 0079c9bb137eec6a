import SourceAtlas.Service.Basic

/-!
# Upkeep of the index

The index is made when the first question comes, or taken from the cache file if git says that
little has changed since. Before later questions it follows the changes that git reports, file by
file, or as a whole if there are many.
-/

set_option autoImplicit false

namespace SourceAtlas

/-- The largest number of changes that are followed file by file in any case. -/
def fewChanges : Nat := 20

namespace Index

/-- The index without deleted files that it has. -/
def removeAll (index : Index) (paths : List String) : Index :=
  paths.foldl (fun i path => if i.files.has path then i.remove path else i) index

/-- The path is one that an update takes. -/
def admits (root : String) (settings : Settings) (tree : FileTree) (path : String) : Bool :=
  !settings.isExcluded path && settings.isIncluded path &&
    (tree.locate? root.toList (Path.joinTo root.toList path.toList)).isSome

/-- The index with the present texts of files, up to the first that cannot be entered. -/
def reindexAll (index : Index) (tree : FileTree) : List String → Index × Option ReindexError
  | [] => (index, none)
  | path :: paths =>
    match index.reindex tree path true with
    | (next, none) => reindexAll next tree paths
    | (next, some e) => (next, some e)

/-- The index after changes, with its graphs still to be made anew. -/
def follow (index : Index) (settings : Settings) (tree : FileTree) (changes : Changes) :
    Index × Option ReindexError :=
  (index.removeAll changes.deleted).reindexAll tree
    ((changes.modified ++ changes.added).filter (admits index.root settings tree))

end Index

namespace Service

/-- The path of the cache. -/
def cachePath (root : String) : String := String.ofList (Path.joinTo root.toList cacheName.toList)

/-- Writes the cache file. That fails if a folder stands in its place. -/
def saveCache (snapshot : Snapshot) : Work Unit := do
  let world ← read
  if world.tree.isFolder cacheName then note "Cache save failed"
  else
    modify fun s => { s with cache := some (.snapshot snapshot) }
    note ("Cache saved → " ++ cachePath snapshot.index.root)

/-- What the cache file holds, if it is of use. -/
def loadCache : Work (Option Snapshot) := do
  let world ← read
  if world.tree.isFolder cacheName then
    note "Cache load failed"
    return none
  match (← get).cache with
  | some (.snapshot s) => return some s
  | some .unreadable | some .noIndex =>
    note "Cache load failed"
    return none
  | some .otherVersion =>
    note "Cache version mismatch, ignoring"
    return none
  | some .otherValue | none => return none

/-- What the log says of the counts of an index. -/
def countsLine (t : Totals) : String :=
  "Indexed " ++ toString t.files ++ " files, " ++ toString t.lines ++ " lines, " ++
    toString t.functions ++ " functions, " ++ toString t.classes ++ " classes"

/-- Makes the index from all files. -/
def build : Work Unit := do
  let world ← read
  note ("Indexing project: " ++ world.root)
  enterStage (.failed (← get).stage.answering?)
  match Index.ofTree world.root .usual world.tree with
  | .error e => throw (.index e)
  | .ok index =>
    enterStage (.ready ⟨index, none⟩)
    if !(← get).isGit then
      let isGit : Bool := Id.run (Git.isWorkTree world.git)
      modify fun s => { s with isGit }
    if (← get).isGit then
      let snapshot : Snapshot := ⟨index, Id.run (Git.head world.git)⟩
      enterStage (.ready snapshot)
      saveCache snapshot
    note (countsLine index.totals)

/-- Takes the index from a snapshot made at a commit, if there are only few changes since, and makes
it anew otherwise. -/
def adopt (snapshot : Snapshot) (commit : String) : Work Unit := do
  let world ← read
  if Id.run (Git.head world.git) == some commit then
    note "Cache hit (git ref matches)"
    enterStage (.ready snapshot)
  else
    let changes : Changes := Id.run (Git.changesSince world.git commit)
    if !changes.isEmpty && changes.size ≤ fewChanges then
      note ("Cache hit with " ++ toString changes.size ++
        " changed files, applying incremental update")
      enterStage (.ready snapshot)
    else
      note ("Cache stale (" ++ toString changes.size ++ " changes), full rebuild")
      build

/-- Sees to it that there is an index when the first question comes. -/
def ensureIndex : Work Unit := do
  match (← get).stage with
  | .unbuilt =>
    let isGit : Bool := Id.run (Git.isWorkTree (← read).git)
    modify fun s => { s with isGit }
    match ← loadCache with
    | none => build
    | some snapshot =>
      match snapshot.commit with
      | none => build
      | some commit => if isGit && commit != "" then adopt snapshot commit else build
  | _ => return

/-- What the log says of an update. -/
def updateLine (c : Changes) : String :=
  "Incremental update: " ++ toString c.modified.length ++ " modified, " ++
    toString c.added.length ++ " added, " ++ toString c.deleted.length ++ " deleted"

/-- Changes are too many to follow file by file: more than a few, and more than half the files. -/
def areMany (changes : Changes) (index : Index) : Bool :=
  changes.size > fewChanges && (2 * changes.size : Int) > index.totals.files

/-- Lets the index follow the changes that git reports since its commit. -/
def update : Work Unit := do
  let world ← read
  match (← get).isGit, (← get).stage with
  | true, .ready snapshot =>
    let changes : Changes := Id.run (Git.changesSince? world.git snapshot.commit)
    if changes.isEmpty then return
    if areMany changes snapshot.index then
      note ("Large changeset (" ++ toString changes.size ++ " files), doing full rebuild")
      build
    else
      let (index, fault) := snapshot.index.follow .usual world.tree changes
      enterStage (.ready { snapshot with index })
      if let some e := fault then throw (.reindex e)
      let next : Snapshot := ⟨index.rebuild, Id.run (Git.head world.git)⟩
      enterStage (.ready next)
      note (updateLine changes)
      saveCache next
  | _, _ => return

end Service

end SourceAtlas
