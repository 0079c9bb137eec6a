import SourceAtlas.Collection.Basic
import SourceAtlas.Outline.Basic
import SourceAtlas.Pattern.Parser

/-!
# Questions about one outline

Summaries, lines, sources by name, mentions in both directions, and lines that match a pattern.
-/

set_option autoImplicit false

namespace SourceAtlas

/-! ## Unanswered questions

Why a question about an outline or an index has no answer. -/

/-- Causes for which a question has no answer. -/
inductive QueryError where
  | startTooSmall
  | startAfterEnd (start last : Int)
  | noFunction (name : String)
  | noClass (name : String)
  | noSection (title : String)
  | noFile (path : String)
  | noFunctionInProject (name : String)
  | noClassInProject (name : String)
  | noSymbol (name : String)
  | noDependencies (name : String)
  | noDependents (name : String)
  | noPath (start goal : String)
  | noImports (path : String)
  | noImporters (path : String)
  | badPattern (message : String)
  deriving DecidableEq, Repr

/-- A text between apostrophes. -/
def QueryError.cite (s : String) : String := "'" ++ s ++ "'"

/-- The wording of a cause. -/
def QueryError.message : QueryError → String
  | .startTooSmall => "start must be >= 1"
  | .startAfterEnd start last => "start (" ++ toString start ++ ") > end (" ++ toString last ++ ")"
  | .noFunction name => "function " ++ cite name ++ " not found"
  | .noClass name => "class " ++ cite name ++ " not found"
  | .noSection title => "section " ++ cite title ++ " not found"
  | .noFile path => "file " ++ cite path ++ " not found in index"
  | .noFunctionInProject name => "function " ++ cite name ++ " not found in project"
  | .noClassInProject name => "class " ++ cite name ++ " not found in project"
  | .noSymbol name => "symbol " ++ cite name ++ " not found"
  | .noDependencies name => cite name ++ " not found in dependency graph"
  | .noDependents name => cite name ++ " not found in reverse dependency graph"
  | .noPath start goal => "no path from " ++ cite start ++ " to " ++ cite goal
  | .noImports path => cite path ++ " not found in import graph"
  | .noImporters path => cite path ++ " not found in reverse import graph"
  | .badPattern message => "Invalid regex: " ++ message

/-- The wording of a cause where the answer would have been a text. -/
def QueryError.asText (e : QueryError) : String := "Error: " ++ e.message

/-! ## Definitions by name

What an outline knows under a name: a function, method or class, and the lines it occupies. -/

/-- A function, method or class. -/
inductive Definition where
  | callable (f : Callable)
  | type (c : ClassItem)
  deriving DecidableEq, Repr

namespace Definition

/-- The name of a definition. -/
def name : Definition → String
  | .callable f => f.qualifiedName
  | .type c => c.name

/-- The lines of a definition. -/
def span : Definition → Span
  | .callable f => f.span
  | .type c => c.span

/-- What a definition is. -/
def kind : Definition → String
  | .callable f => if f.isMethod then "method" else "function"
  | .type _ => "class"

end Definition

/-- The function goes by the name, in short or with its class in front. -/
def Callable.isCalled (f : Callable) (name : String) : Bool :=
  f.name == name || f.qualifiedName == name

namespace Outline

/-- The first function of that name. -/
def function? (o : Outline) (name : String) : Option Callable := o.functions.find? (·.isCalled name)

/-- The first class of that name. -/
def class? (o : Outline) (name : String) : Option ClassItem := o.classes.find? (·.name == name)

/-- The definition that goes by the name; functions come before classes. -/
def definition? (o : Outline) (name : String) : Option Definition :=
  (o.function? name).map .callable <|> (o.class? name).map .type

/-- Lines as one text. -/
def joinLines (lines : List String) : String := "\n".intercalate lines

/-- The lines of a span. -/
def linesOf (o : Outline) (span : Span) : List String := slice o.lines (span.first - 1) span.last

/-- The text of a span. -/
def textOf (o : Outline) (span : Span) : String := joinLines (o.linesOf span)

end Outline

/-! ## Searches with a limit

A search goes through lines from top to bottom and is over as soon as it has as many hits as it may
have. What it has found is carried from one file to the next. -/

/-- A line that matches a pattern: its number and its text. -/
structure Hit where
  line : Nat
  content : String
  deriving DecidableEq, Repr

/-- How a search stands: it goes on, with what it has found so far, the latest first, or it is over,
with all that it gives. -/
inductive Search (α : Type) where
  | going (found : List α)
  | ended (results : List α)
  deriving DecidableEq, Repr

namespace Search

variable {α : Type}

/-- A search that has found nothing yet. -/
def start : Search α := .going []

/-- What a search found. -/
def results : Search α → List α
  | going found => found.reverse
  | ended results => results

/-- The search with one more hit, which is its last if there are `limit` of them now. A limit of
zero is none. -/
def enter (limit : Nat) (found : List α) (hit : α) : Search α :=
  if 0 < limit ∧ limit ≤ found.length + 1 then .ended (hit :: found).reverse
  else .going (hit :: found)

/-- The search after lines, of which the first has the number `n + 1`. The lines that satisfy the
test are entered as `item` shows them. -/
def lines (test : List Char → Bool) (limit : Nat) (item : Hit → α) :
    Search α → Nat → List String → Search α
  | .ended results, _, _ => .ended results
  | .going found, _, [] => .going found
  | .going found, n, line :: rest =>
    let next := if test line.toList then enter limit found (item ⟨n + 1, line⟩) else .going found
    lines test limit item next (n + 1) rest

end Search

namespace Outline

/-- The most lines that a search in one outline gives. -/
def searchLimit : Nat := 100

/-- Names with commas between them. -/
def commaList (names : List String) : String := ", ".intercalate names

/-- The lines of a span as a summary shows them. -/
def spanText (s : Span) : String := "(lines " ++ toString s.first ++ "-" ++ toString s.last ++ ")"

/-- A class in a summary. -/
def classLine (c : ClassItem) : String :=
  let bases := if c.bases.isEmpty then "" else "(" ++ commaList c.bases ++ ")"
  let methods := if c.methods.isEmpty then "none" else commaList (c.methods.map (·.name))
  "Class " ++ c.name ++ bases ++ " " ++ spanText c.span ++ ": methods: " ++ methods

/-- A function in a summary. -/
def functionLine (f : Callable) : String :=
  "Function " ++ f.name ++ "(" ++ commaList f.parameters ++ ") " ++ spanText f.span

/-- A section in a summary, indented by its level. -/
def sectionLine (s : Section) : String :=
  String.ofList (List.replicate (2 * (s.level - 1).toNat) ' ') ++ "Section: " ++ s.title ++ " " ++
    spanText s.span

/-- An overview: imports, classes, functions that are no methods, and sections. -/
def structureSummary (o : Outline) : String :=
  let head := "File: " ++ o.sourceName ++ " (" ++ toString o.totalLines ++ " lines)"
  let imports :=
    if o.imports.isEmpty then []
    else ["Imports: " ++ commaList (Names.sorted (Names.ofList (o.imports.map (·.source))))]
  joinLines
    (head :: imports ++ o.classes.map classLine ++
      (o.functions.filter (!·.isMethod)).map functionLine ++ o.sections.map sectionLine)

/-- The lines from `start` to `last`; a last line beyond the end is the end. -/
def excerpt (o : Outline) (start last : Int) : Except QueryError String :=
  let last := if last > o.totalLines then (o.totalLines : Int) else last
  if start < 1 then .error .startTooSmall
  else if start > last then .error (.startAfterEnd start last)
  else .ok (o.textOf ⟨start, last⟩)

/-- The source of a function. -/
def functionSource (o : Outline) (name : String) : Except QueryError String :=
  match o.function? name with
  | some f => .ok (o.textOf f.span)
  | none => .error (.noFunction name)

/-- The source of a class. -/
def classSource (o : Outline) (name : String) : Except QueryError String :=
  match o.class? name with
  | some c => .ok (o.textOf c.span)
  | none => .error (.noClass name)

/-- The text of a section. -/
def sectionContent (o : Outline) (title : String) : Except QueryError String :=
  match o.sections.find? (·.title == title) with
  | some s => .ok (o.textOf s.span)
  | none => .error (.noSection title)

/-- The names that a definition mentions. -/
def mentioned (o : Outline) (name : String) : Except QueryError (List String) :=
  match Assoc.get? o.mentions name with
  | some names => .ok (Names.sorted names)
  | none => .error (.noDependencies name)

/-- The definitions that mention a name. -/
def mentioning (o : Outline) (name : String) : List String :=
  Names.sorted ((o.mentions.filter fun (_, names) => names.contains name).map Prod.fst)

/-- The first lines that satisfy a test. -/
def searchWhere (o : Outline) (test : List Char → Bool) : List Hit :=
  (Search.start.lines test searchLimit id 0 o.lines).results

/-- The first lines that match a pattern. -/
def search (o : Outline) (p : Pattern) : List Hit := o.searchWhere p.occursIn

end Outline

end SourceAtlas
