import SourceAtlas.Json.Basic

/-!
# The tools of the service

Each tool has a name, a description, and parameters, some of which have to be given. `Tool.all`
lists them, and `Tool.schema` describes the parameters of one.
-/

set_option autoImplicit false

namespace SourceAtlas

/-- What a parameter takes. -/
inductive ParameterKind where
  | text | whole
  deriving DecidableEq, Repr

/-- A parameter of a tool. -/
structure ToolParameter where
  name : String
  kind : ParameterKind
  required : Bool
  description : String
  deriving DecidableEq, Repr

/-- A tool of the service. -/
structure Tool where
  name : String
  description : String
  parameters : List ToolParameter
  deriving DecidableEq, Repr

/-- The name of a kind. -/
def ParameterKind.name : ParameterKind → String
  | .text => "string"
  | .whole => "integer"

namespace Tool

/-- The schema of a parameter. -/
def parameterSchema (p : ToolParameter) : Json :=
  .object [("type", .text p.kind.name), ("description", .text p.description)]

/-- The description of the parameters of a tool. The required ones are only listed if there are
any. -/
def schema (t : Tool) : Json :=
  let required := (t.parameters.filter ToolParameter.required).map ToolParameter.name
  .object
    ([("type", .text "object"),
        ("properties", .object (t.parameters.map fun p => (p.name, parameterSchema p)))] ++
      if required.isEmpty then [] else [("required", .texts required)])

/-- A text that has to be given. -/
def given (name description : String) : ToolParameter := ⟨name, .text, true, description⟩

/-- A bound on how much is returned. -/
def limit (name what : String) : ToolParameter :=
  ⟨name, .whole, false, "Maximum number of " ++ what ++ " to return (0 = unlimited, default 0)."⟩

/-- The limit for results. -/
def maxResults : ToolParameter := limit "max_results" "results"

/-- The file to search in. -/
def fileToSearch : ToolParameter :=
  ⟨"file_path", .text, false, "Optional file path to narrow the search."⟩

/-- The file to keep to. -/
def singleFile (what : String) : ToolParameter :=
  ⟨"file_path", .text, false,
    "Relative path to filter to a single file. Omit for all project " ++ what ++ "."⟩

/-- All tools. -/
def all : List Tool :=
  [⟨"get_project_summary",
      "High-level overview of the project: file count, packages, top classes/functions.",
      []⟩,
    ⟨"list_files",
      "List indexed files. Optional glob pattern to filter (e.g. '*.py', 'src/**/*.ts').",
      [⟨"pattern", .text, false,
        "Glob pattern to filter files (uses fnmatch)."⟩, maxResults]⟩,
    ⟨"get_structure_summary",
      "Structure summary for a file (functions, classes, imports, line counts) or the whole " ++
      "project if no file specified.",
      [⟨"file_path", .text, false,
        "Relative path to a file in the project. Omit for project-level summary."⟩]⟩,
    ⟨"get_function_source",
      "Get the full source code of a function or method by name. Uses the symbol table to " ++
      "locate the file automatically.",
      [given "name" "Function or method name (e.g. 'my_func' or 'MyClass.my_method').",
        fileToSearch, limit "max_lines" "source lines"]⟩,
    ⟨"get_class_source",
      "Get the full source code of a class by name. Uses the symbol table to locate the file " ++
      "automatically.",
      [given "name" "Class name.", fileToSearch, limit "max_lines" "source lines"]⟩,
    ⟨"get_functions",
      "List all functions (with name, lines, params, file). Filter to a specific file or get " ++
      "all project functions.",
      [singleFile "functions", maxResults]⟩,
    ⟨"get_classes",
      "List all classes (with name, lines, methods, bases, file). Filter to a specific file or " ++
      "get all project classes.",
      [singleFile "classes", maxResults]⟩,
    ⟨"get_imports",
      "List all imports (with module, names, line). Filter to a specific file or get all " ++
      "project imports.",
      [singleFile "imports", maxResults]⟩,
    ⟨"find_symbol",
      "Find where a symbol (function, method, class) is defined. Returns file path, line range, " ++
      "type, signature, and a source preview (~20 lines).",
      [given "name" "Symbol name to find (e.g. 'ProjectIndexer', 'annotate', 'MyClass.run')."]⟩,
    ⟨"get_dependencies",
      "What does this symbol call/use? Returns list of symbols referenced by the named function " ++
      "or class.",
      [given "name" "Symbol name to query.", maxResults]⟩,
    ⟨"get_dependents",
      "What calls/uses this symbol? Returns list of symbols that reference the named function " ++
      "or class.",
      [given "name" "Symbol name to query.", maxResults]⟩,
    ⟨"get_change_impact",
      "Analyze the impact of changing a symbol. Returns direct dependents and transitive " ++
      "(cascading) dependents.",
      [given "name" "Symbol name to analyze.", limit "max_direct" "direct dependents",
        limit "max_transitive" "transitive dependents"]⟩,
    ⟨"get_call_chain",
      "Find the shortest dependency path between two symbols (BFS through the dependency " ++
      "graph).",
      [given "from_name" "Starting symbol name.", given "to_name" "Target symbol name."]⟩,
    ⟨"get_file_dependencies",
      "List files that this file imports from (file-level import graph).",
      [given "file_path" "Relative path to the file.", maxResults]⟩,
    ⟨"get_file_dependents",
      "List files that import from this file (reverse import graph).",
      [given "file_path" "Relative path to the file.", maxResults]⟩,
    ⟨"search_codebase",
      "Regex search across all indexed files. Returns up to 100 matches with file, line number, " ++
      "and content.",
      [given "pattern" "Regular expression pattern to search for.",
      ⟨"max_results", .whole, false,
        "Maximum number of results to return (default 100, 0 = unlimited)."⟩]⟩,
    ⟨"reindex",
      "Re-index the entire project. Use after making significant file changes to refresh the " ++
      "structural index.",
      []⟩,
    ⟨"get_usage_stats",
      "Session efficiency stats: tool calls, characters returned vs total source, estimated " ++
      "token savings.",
      []⟩]

end Tool

end SourceAtlas
