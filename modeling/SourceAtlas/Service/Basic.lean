import SourceAtlas.Git.Changes
import SourceAtlas.Index.Update
import SourceAtlas.Pattern.Fault
import SourceAtlas.Service.Usage

/-!
# The service

A service answers questions about one project and keeps its index up to date. This module has its
state, what it sees of the world, and the reasons for which a call can fail. Work of the service
changes the state also when it fails.
-/

set_option autoImplicit false

namespace SourceAtlas

/-- An index and the commit it stands for, as far as that is known. -/
structure Snapshot where
  index : Index
  commit : Option String

/-- What the cache file of a project holds. -/
inductive CacheFile where
  | snapshot (s : Snapshot)
  | unreadable
  | otherVersion
  | noIndex
  | otherValue

/-- How far the service has come. After a failed build it goes on to answer from the index it had
before, if there was one. -/
inductive Stage where
  | unbuilt
  | failed (kept : Option Index)
  | ready (s : Snapshot)

/-- The state of a service, and the cache file it leaves behind. -/
structure Service where
  stage : Stage
  isGit : Bool
  usage : Usage
  cache : Option CacheFile
  log : List String

/-- What a service sees of the world. -/
structure World where
  root : String
  tree : FileTree
  git : List String → Outcome
  now : Seconds

/-- Why a call failed. -/
inductive CallFault where
  | index (cause : IndexError)
  | reindex (cause : ReindexError)
  | pattern (cause : PatternError) (text : String)
  | missing (argument : String)
  | endlessTime
  deriving DecidableEq, Repr

/-- The message of a fault. -/
def CallFault.message : CallFault → String
  | .index cause => cause.message
  | .reindex cause => cause.message
  | .pattern cause text => cause.message text.toList
  | .missing argument => "'" ++ argument ++ "'"
  | .endlessTime => "cannot convert float NaN to integer"

/-- Work of a service. -/
abbrev Work := ReaderT World (ExceptT CallFault (StateM Service))

namespace Stage

/-- The index that questions are put to. -/
def answering? : Stage → Option Index
  | .unbuilt => none
  | .failed kept => kept
  | .ready s => some s.index

/-- The index that is kept up to date. -/
def current? : Stage → Option Snapshot
  | .ready s => some s
  | _ => none

end Stage

namespace Service

/-- A service that starts at a time and finds a cache file. -/
def start (now : Seconds) (cache : Option CacheFile) : Service :=
  ⟨.unbuilt, false, .since now, cache, []⟩

/-- The file name of the cache. -/
def cacheName : String := ".codebase-index-cache.pkl"

/-- The characters of all files. -/
def sourceChars (s : Service) : Nat :=
  match s.stage.current? with
  | some snapshot => (snapshot.index.files.map fun (_, o) => o.totalChars).foldr (· + ·) 0
  | none => 0

/-- Adds a line to the log. -/
def note (line : String) : Work Unit := modify fun s => { s with log := s.log ++ [line] }

/-- Goes over to a stage. -/
def enterStage (stage : Stage) : Work Unit := modify fun s => { s with stage }

end Service

end SourceAtlas
