/-!
# How to ask

A text for those who ask questions about a project: what can be asked, and in which order to ask it.
-/

set_option autoImplicit false

namespace SourceAtlas

/-- The lines of the guide. -/
def guideLines : List String :=
  ["Your REPL environment includes structural navigation functions for the codebase.",
    "These let you explore code structure without reading entire files into context.",
    "",
    "PROJECT OVERVIEW:",
    "  get_project_summary() -> str                  # File count, packages, entry points",
    "  list_files(pattern?) -> list[str]             # List files, optional glob (e.g. \"*.py\")",
    "",
    "FILE STRUCTURE:",
    "  get_structure_summary(file?) -> str           # Functions, classes, line counts for a file",
    "  get_lines(file, start, end) -> str            # Specific lines (1-indexed, inclusive)",
    "",
    "CODE NAVIGATION:",
    "  get_functions(file?) -> list[dict]            # All functions: name, lines, params",
    "  get_classes(file?) -> list[dict]              # All classes: name, lines, methods, bases",
    "  get_imports(file?) -> list[dict]              # All imports: module, names, line",
    "  get_function_source(name, file?) -> str       # Full source of a specific function",
    "  get_class_source(name, file?) -> str          # Full source of a specific class",
    "",
    "DEPENDENCY ANALYSIS:",
    "  find_symbol(name) -> dict                     # Where is this symbol defined?",
    "  get_dependencies(name) -> list[dict]           # What does it call/use? (rich info per dep)",
    "  get_dependents(name) -> list[dict]             # What calls/uses it? (rich info per dep)",
    "  get_call_chain(from, to) -> list              # Shortest dependency path",
    "  get_change_impact(name) -> dict               # Transitive impact of changing this symbol",
    "  get_file_dependencies(file) -> list[str]      # Files this file imports from",
    "  get_file_dependents(file) -> list[str]        # Files that import from this file",
    "",
    "SEARCH:",
    "  search_codebase(pattern) -> list[dict]        # Regex across all files (max 100 results)",
    "",
    "STRATEGY: Start with get_project_summary() to understand the repo layout. Use",
    "get_structure_summary(file) to understand a file before reading it. Use",
    "get_function_source(name) to read only what you need. Use dependency analysis",
    "to trace connections. This is dramatically cheaper than reading entire files.",
    ""]

/-- The text. -/
def guide : String := "\n".intercalate guideLines

end SourceAtlas
