import SourceAtlas.Query.Request
import SourceAtlas.Service.Upkeep

/-!
# Calls of tools

A call names a tool and gives arguments. Most tools ask a question about the index, once it is up to
date; one makes the index anew, and one reports the usage. Whatever happens, a call is answered with
a text.
-/

set_option autoImplicit false

namespace SourceAtlas

/-- The arguments of a call. -/
structure Arguments where
  fields : List (String × Json)

namespace Arguments

/-- An argument that has to be there. -/
def required (a : Arguments) (name : String) : Except CallFault String :=
  match a.fields.lookup name with
  | some (.text s) => .ok s
  | some _ => .ok ""
  | none => .error (.missing name)

/-- A text that may be given. -/
def optional (a : Arguments) (name : String) : Option String :=
  (a.fields.lookup name).bind Json.text?

/-- A number that may be given. -/
def number (a : Arguments) (name : String) (default : Int) : Int :=
  match a.fields.lookup name with
  | some (.int n) => n
  | some (.bool b) => if b then 1 else 0
  | _ => default

end Arguments

/-- The question that a tool asks, if it asks one. -/
def Tool.request? (tool : String) (a : Arguments) : Option (Except CallFault IndexRequest) :=
  let path := a.optional "file_path"
  let limit := a.number "max_results" 0
  let lines := a.number "max_lines" 0
  match tool with
  | "get_project_summary" => some (.ok .summary)
  | "list_files" => some (.ok (.listFiles (a.optional "pattern") limit))
  | "get_structure_summary" => some (.ok (.structureSummary path))
  | "get_function_source" => some ((a.required "name").map fun n => .functionSource n path lines)
  | "get_class_source" => some ((a.required "name").map fun n => .classSource n path lines)
  | "get_functions" => some (.ok (.functions path limit))
  | "get_classes" => some (.ok (.classes path limit))
  | "get_imports" => some (.ok (.imports path limit))
  | "find_symbol" => some ((a.required "name").map .findSymbol)
  | "get_dependencies" => some ((a.required "name").map fun n => .dependencies n limit)
  | "get_dependents" => some ((a.required "name").map fun n => .dependents n limit)
  | "get_change_impact" =>
    some ((a.required "name").map fun n =>
      .changeImpact n (a.number "max_direct" 0) (a.number "max_transitive" 0))
  | "get_call_chain" => some do
    let start ← a.required "from_name"
    let goal ← a.required "to_name"
    return .callChain start goal
  | "get_file_dependencies" =>
    some ((a.required "file_path").map fun p => .fileDependencies p limit)
  | "get_file_dependents" => some ((a.required "file_path").map fun p => .fileDependents p limit)
  | "search_codebase" =>
    some ((a.required "pattern").map fun p => .search p (a.number "max_results" 100))
  | _ => none

/-- A value as the text of an answer: a text as it is, lists and records as indented JSON. -/
def Json.shown : Json → String
  | .text s => s
  | .null => "None"
  | .bool true => "True"
  | .bool false => "False"
  | .int n => toString n
  | v => v.indented

/-- The answer of an index to a question, or the fault of its pattern. -/
def Index.reply (index : Index) (request : IndexRequest) : Except CallFault Json :=
  match index.answer request with
  | .ok v => .ok v
  | .error e =>
    match request with
    | .search pattern _ => .error (.pattern e pattern)
    | _ => .error (.pattern e "")

namespace Service

/-- Asks a question of the index and counts the characters of the answer. -/
def ask (index : Index) (request : IndexRequest) : Work String := do
  let text := (← liftExcept (index.reply request)).shown
  modify fun s => { s with usage := s.usage.addChars text.length }
  return text
where
  /-- A fault, or a value, as work. -/
  liftExcept {α : Type} : Except CallFault α → Work α
    | .ok a => return a
    | .error e => throw e

/-- The usage so far. -/
def reportUsage : Work String := do
  let s ← get
  match s.usage.report? (← read).now s.sourceChars with
  | some text => return text
  | none => throw .endlessTime

/-- The text that answers a call. -/
def perform (tool : String) (a : Arguments) : Work String := do
  ensureIndex
  if tool == "reindex" then
    build
    return "Project re-indexed successfully."
  if tool == Usage.reportTool then return ← reportUsage
  update
  match (← get).stage.answering? with
  | none => return "Error: index not built yet. Call reindex first."
  | some index =>
    match Tool.request? tool a with
    | none => return "Error: unknown tool '" ++ tool ++ "'"
    | some (.error e) => throw e
    | some (.ok request) => ask index request

/-- Does work with an empty log. -/
def run {α : Type} (s : Service) (world : World) (work : Work α) : Except CallFault α × Service :=
  (work.run world).run { s with log := [] }

/-- Answers a call. A fault is answered by its wording. -/
def call (s : Service) (world : World) (tool : String) (a : Arguments) : String × Service :=
  match ({ s with usage := s.usage.count tool }).run world (perform tool a) with
  | (.ok text, next) => (text, next)
  | (.error fault, next) =>
    ("Error: " ++ fault.message, { next with log := next.log ++ ["Error in " ++ tool] })

end Service

end SourceAtlas
