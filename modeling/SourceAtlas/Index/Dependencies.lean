import SourceAtlas.Index.Basic
import SourceAtlas.Index.Resolve
import SourceAtlas.Text.Letter

/-!
# The graph of dependencies

A definition depends on the symbols that its outline says it mentions, and on the imported symbols
that stand as whole words in its lines. Only names in the symbol table count.
-/

set_option autoImplicit false

namespace SourceAtlas

/-- A name and the names it depends on. -/
structure Dependence where
  source : String
  targets : List String
  deriving DecidableEq, Repr

namespace Outline

/-- The symbols among the names that a file imports. -/
def importedSymbols (o : Outline) (symbols : Symbols) : Names :=
  Names.ofList ((o.imports.flatMap ImportItem.names).filter symbols.has)

/-- What each definition depends on by what the outline says it mentions. -/
def mentionedSymbols (o : Outline) (symbols : Symbols) : List Dependence :=
  o.mentions.map fun (source, names) =>
    ⟨source, names.filter fun n => n != "" && n != source && symbols.has n⟩

/-- Lines with blanks between them. -/
def joinedLines (o : Outline) (span : Span) : List Char :=
  Text.join [' '] ((slice o.lines (span.first - 1) span.last).map String.toList)

/-- The names that stand as whole words in the lines of a definition, apart from its own. -/
def wordsWithin (o : Outline) (names : Names) (source : String) (span : Span) : Dependence :=
  let body := o.joinedLines span
  ⟨source, names.filter fun n => n != source && Text.holdsWord n.toList body⟩

/-- What the functions and classes depend on by the imported symbols in their lines. -/
def importedWords (o : Outline) (symbols : Symbols) : List Dependence :=
  match o.importedSymbols symbols with
  | [] => []
  | names =>
    (o.functions.map fun f => o.wordsWithin names f.qualifiedName f.span) ++
      o.classes.map fun c => o.wordsWithin names c.name c.span

/-- All that the definitions of a file depend on. -/
def dependences (o : Outline) (symbols : Symbols) : List Dependence :=
  o.mentionedSymbols symbols ++ o.importedWords symbols

end Outline

/-- The graph of the dependences of all files. -/
def Graph.ofDependencies (files : Assoc Outline) (symbols : Symbols) : Graph :=
  (files.flatMap fun (_, o) => o.dependences symbols).foldl
    (fun g d => (g.addNode d.source).addEdges d.source d.targets) []

/-! ## The graph of imports

Each file points to the files that its imports lead to. A file never points to itself, and files
that point nowhere are not in the graph. -/

/-- The files that the imports of one file lead to, apart from itself. -/
def Outline.importTargets (o : Outline) (path : String) (files : List String) : Names :=
  Names.ofList
    ((o.imports.filterMap fun i => Resolve.import? path i.source files).filter (· != path))

/-- The graph of imports, with the files that they can lead to in a given order. -/
def Graph.ofImportsIn (order : List String) (files : Assoc Outline) : Graph :=
  files.filterMap fun (path, o) =>
    match o.importTargets path order with
    | [] => none
    | targets => some (path, targets)

/-- The graph of imports among files. -/
def Graph.ofImports (files : Assoc Outline) : Graph := ofImportsIn files.keys files

end SourceAtlas
