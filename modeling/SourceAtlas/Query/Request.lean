import SourceAtlas.Json.Basic
import SourceAtlas.Query.IndexQuery

/-!
# Requests

The questions that can be asked of an outline or of an index, each with its answer. A search fails,
without an answer, when its pattern asks for more than a pattern may.
-/

set_option autoImplicit false

namespace SourceAtlas

/-! ## Answers as JSON

The form in which answers are given: the fields of each kind of item and their order, and how a
cause for no answer is shown. -/

namespace Render

/-- The ends of a span. -/
def lines (s : Span) : Json := .array [.int s.first, .int s.last]

/-- The fields of a function. -/
def functionFields (f : Callable) : List (String × Json) :=
  [("name", .text f.name), ("qualified_name", .text f.qualifiedName), ("lines", lines f.span),
    ("params", .texts f.parameters),
    ("is_method", .bool f.isMethod), ("parent_class", .ofText? f.parent)]

/-- The fields of a class. -/
def classFields (c : ClassItem) : List (String × Json) :=
  [("name", .text c.name), ("lines", lines c.span), ("methods", .texts (c.methods.map (·.name))),
    ("bases", .texts c.bases)]

/-- The fields of an import. -/
def importFields (i : ImportItem) : List (String × Json) :=
  [("module", .text i.source), ("names", .texts i.names), ("line", .int i.line),
    ("is_from_import", .bool i.isFrom)]

/-- A section. -/
def section_ (s : Section) : Json :=
  .object [("title", .text s.title), ("level", .int s.level), ("lines", lines s.span)]

/-- The fields of a line that was found. -/
def hitFields (h : Hit) : List (String × Json) :=
  [("line_number", .int h.line), ("content", .text h.content)]

/-- The fields of a definition in a file. -/
def placeFields (d : Definition) (file : String) : List (String × Json) :=
  [("name", .text d.name), ("file", .text file), ("line", .int d.span.first),
    ("end_line", .int d.span.last), ("type", .text d.kind)]

/-- How many lines a preview has. -/
def previewLines : Int := 20

/-- The first lines of a definition. -/
def preview (o : Outline) (s : Span) : Json :=
  .text (Outline.joinLines (slice o.lines (s.first - 1) (s.first - 1 + previewLines)))

/-- A definition with its place, what is known of it, and its first lines. -/
def located (found : Located) : Json :=
  let details :=
    match found.definition with
    | .callable f =>
      [("signature", .text ("def " ++ f.name ++ "(" ++ Outline.commaList f.parameters ++ ")"))]
    | .type c => [("methods", Json.texts (c.methods.map (·.name))), ("bases", .texts c.bases)]
  .object
    (placeFields found.definition found.file ++ details ++
      [("source_preview", preview found.outline found.definition.span)])

/-- A name and its place in an outline. -/
def nameIn (o : Outline) (name : String) : Json :=
  match o.definition? name with
  | some d => .object (placeFields d o.sourceName)
  | none => .object [("name", .text name)]

/-- A name and its place in a project. -/
def nameInProject (index : Index) (name : String) : Json :=
  match index.findDefinition? name with
  | some found => located found
  | none => .object [("name", .text name)]

/-- A cause for no answer. -/
def cause (e : QueryError) : Json := .object [("error", .text e.message)]

/-- A text, or why there is none. -/
def text : Except QueryError String → Json
  | .ok s => .text s
  | .error e => .text e.asText

/-- An answer with several items. -/
def items {α : Type} (item : α → Json) : Except QueryError (List α) → Json
  | .ok xs => .array (xs.map item)
  | .error e => .array [cause e]

/-- An answer with several paths. -/
def paths : Except QueryError (List String) → Json
  | .ok ps => .texts ps
  | .error e => .texts [e.asText]

/-- Items with the file they come from. -/
def withFile (file : String) (fields : List (String × Json)) : Json :=
  .object (fields ++ [("file", .text file)])

end Render

/-- The lines that a pattern given as text finds. A pattern with a fault is a cause for no answer;
one that asks for too much fails. -/
def searchBy {α : Type} (pattern : String) (find : Pattern → List α) :
    Except PatternError (Except QueryError (List α)) :=
  match Pattern.ofText pattern.toList with
  | .ok p => .ok (.ok (find p))
  | .error (.fault cause position) =>
    .ok (.error (.badPattern ((PatternError.fault cause position).message pattern.toList)))
  | .error e => .error e

/-- Questions about one outline. -/
inductive OutlineRequest where
  | structureSummary
  | lines (start last : Int)
  | lineCount
  | functions
  | classes
  | imports
  | functionSource (name : String)
  | classSource (name : String)
  | sections
  | sectionContent (title : String)
  | dependencies (name : String)
  | dependents (name : String)
  | search (pattern : String)
  deriving DecidableEq, Repr

/-- The answer to a request about an outline. -/
def Outline.answer (o : Outline) : OutlineRequest → Except PatternError Json
  | .structureSummary => .ok (.text o.structureSummary)
  | .lines start last => .ok (Render.text (o.excerpt start last))
  | .lineCount => .ok (.int o.totalLines)
  | .functions => .ok (.array (o.functions.map fun f => .object (Render.functionFields f)))
  | .classes => .ok (.array (o.classes.map fun c => .object (Render.classFields c)))
  | .imports => .ok (.array (o.imports.map fun i => .object (Render.importFields i)))
  | .functionSource name => .ok (Render.text (o.functionSource name))
  | .classSource name => .ok (Render.text (o.classSource name))
  | .sections => .ok (.array (o.sections.map Render.section_))
  | .sectionContent title => .ok (Render.text (o.sectionContent title))
  | .dependencies name => .ok (Render.items (Render.nameIn o) (o.mentioned name))
  | .dependents name => .ok (.array ((o.mentioning name).map (Render.nameIn o)))
  | .search pattern => do
    let found ← searchBy pattern o.search
    return Render.items (fun h => .object (Render.hitFields h)) found

/-- Questions about an index. A limit that is not positive is none. -/
inductive IndexRequest where
  | summary
  | listFiles (pattern : Option String) (limit : Int)
  | structureSummary (path : Option String)
  | lines (path : String) (start last : Int)
  | functions (path : Option String) (limit : Int)
  | classes (path : Option String) (limit : Int)
  | imports (path : Option String) (limit : Int)
  | functionSource (name : String) (path : Option String) (limit : Int)
  | classSource (name : String) (path : Option String) (limit : Int)
  | findSymbol (name : String)
  | dependencies (name : String) (limit : Int)
  | dependents (name : String) (limit : Int)
  | callChain (start goal : String)
  | fileDependencies (path : String) (limit : Int)
  | fileDependents (path : String) (limit : Int)
  | search (pattern : String) (limit : Int)
  | changeImpact (name : String) (maxDirect maxTransitive : Int)
  deriving DecidableEq, Repr

namespace Index

/-- Items of one file, or of all files with the file they come from. -/
def listed {α : Type} (index : Index) (path : Option String) (limit : Int) (get : Outline → List α)
    (fields : α → List (String × Json)) :
    Json :=
  match path with
  | some p =>
    match index.resolveFile? p with
    | some o => .array (limited limit ((get o).map fun a => .object (fields a)))
    | none => .array [Render.cause (.noFile p)]
  | none =>
    .array
      (limited limit
        (index.sortedFiles.flatMap fun (file, o) => (get o).map fun a =>
          Render.withFile file (fields a)))

/-- The answer to a request about an index. -/
def answer (index : Index) : IndexRequest → Except PatternError Json
  | .summary => .ok (.text index.summary)
  | .listFiles pattern limit => .ok (.texts (index.listFiles pattern limit))
  | .structureSummary none => .ok (.text index.summary)
  | .structureSummary (some path) =>
    .ok (Render.text ((index.fileOutline path).map Outline.structureSummary))
  | .lines path start last =>
    .ok (Render.text ((index.fileOutline path).bind fun o => o.excerpt start last))
  | .functions path limit => .ok (index.listed path limit Outline.functions Render.functionFields)
  | .classes path limit => .ok (index.listed path limit Outline.classes Render.classFields)
  | .imports path limit => .ok (index.listed path limit Outline.imports Render.importFields)
  | .functionSource name path limit => .ok (.text (index.functionSource name path limit))
  | .classSource name path limit => .ok (.text (index.classSource name path limit))
  | .findSymbol name =>
    match index.findSymbol name with
    | .ok found => .ok (Render.located found)
    | .error e => .ok (Render.cause e)
  | .dependencies name limit =>
    .ok (Render.items (Render.nameInProject index) (index.dependenciesOf name limit))
  | .dependents name limit =>
    .ok (Render.items (Render.nameInProject index) (index.dependentsOf name limit))
  | .callChain start goal =>
    match index.callChain start goal with
    | .ok names => .ok (.object [("chain", .array (names.map (Render.nameInProject index)))])
    | .error e => .ok (Render.cause e)
  | .fileDependencies path limit => .ok (Render.paths (index.importsOf path limit))
  | .fileDependents path limit => .ok (Render.paths (index.importersOf path limit))
  | .search pattern limit => do
    let found ← searchBy pattern fun p => index.search p limit
    return Render.items (fun h => .object (("file", .text h.file) :: Render.hitFields h.hit)) found
  | .changeImpact name maxDirect maxTransitive =>
    match index.changeImpact name maxDirect maxTransitive with
    | .ok (direct, transitive) =>
      .ok (.object [("direct", .array (direct.map (Render.nameInProject index))),
        ("transitive", .array (transitive.map (Render.nameInProject index)))])
    | .error e => .ok (Render.cause e)

end Index

end SourceAtlas
