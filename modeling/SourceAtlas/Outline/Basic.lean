import SourceAtlas.Source.Place

/-!
# Outlines

An `Outline` says what a reader needs to know of a source text without reading it: its lines with
their offsets, the functions, classes, imports and titled sections in it with the lines that each
occupies, and for each top-level definition the other definitions it mentions. Line numbers count
from one.
-/

set_option autoImplicit false

namespace SourceAtlas

/-- A range of lines, both ends included. -/
structure Span where
  first : Int
  last : Int
  deriving DecidableEq, Repr, Inhabited

/-- The lines of what starts at a place and goes on for so many further lines. -/
def spanOf (p : Place) (extent : Nat) : Span := ⟨p.index + 1, p.index + extent + 1⟩

/-- Is the line a documentation comment? -/
def isDocumentation (stripped : Line) : Bool := Text.startsWith "///".toList stripped

/-- The attributes and comments directly above a place, in order. -/
def preamble (isAttribute : Line → Bool) (p : Place) : List Line :=
  ((p.before.map Text.trim).takeWhile fun l => isDocumentation l || isAttribute l).reverse

/-- The text of comments without the `n` characters that mark each. -/
def commentText? (n : Nat) : List Line → Option String
  | [] => none
  | comments =>
    some (String.ofList (Text.join ['\n'] (comments.map fun c => Text.trim (c.drop n))))

/-- A function or method. A method's `qualifiedName` carries the name of its class in front. -/
structure Callable where
  name : String
  qualifiedName : String
  span : Span
  parameters : List String
  decorators : List String
  docstring : Option String
  isMethod : Bool
  parent : Option String
  deriving DecidableEq, Repr, Inhabited

/-- A class, or what a language has in its place: a structure, an interface, a type. -/
structure ClassItem where
  name : String
  span : Span
  bases : List String
  methods : List Callable
  decorators : List String
  docstring : Option String
  deriving DecidableEq, Repr, Inhabited

/-- An import: the module it names, the names it takes from there, and its alias. -/
structure ImportItem where
  source : String
  names : List String
  newName : Option String
  line : Int
  isFrom : Bool
  deriving DecidableEq, Repr, Inhabited

/-- A titled section of a text. -/
structure Section where
  title : String
  level : Int
  span : Span
  deriving DecidableEq, Repr, Inhabited

/-- The names that each definition mentions. -/
abbrev Mentions := List (String × List String)

/-- The outline of one source text. -/
structure Outline where
  sourceName : String
  totalLines : Nat
  totalChars : Nat
  lines : List String
  offsets : List Nat
  functions : List Callable
  classes : List ClassItem
  imports : List ImportItem
  sections : List Section
  mentions : Mentions
  deriving DecidableEq, Repr, Inhabited

namespace Outline

/-- The outline of a text of which only the lines are known. -/
def ofLines (sourceName : String) (text : List Char) (lines : List (List Char)) : Outline where
  sourceName := sourceName
  totalLines := lines.length
  totalChars := text.length
  lines := lines.map String.ofList
  offsets := Text.offsets lines
  functions := []
  classes := []
  imports := []
  sections := []
  mentions := []

/-- The outline of a text of no known kind: its lines only, cut at every line break. -/
def plain (sourceName : String) (text : List Char) : Outline :=
  ofLines sourceName text (Text.splitBreaks text)

end Outline

/-- A plain function: it belongs to no class, so its qualified name is its name. -/
def Callable.plain (name : String) (span : Span) (parameters decorators : List String)
    (docstring : Option String) : Callable :=
  ⟨name, name, span, parameters, decorators, docstring, false, none⟩

/-- A method of a class. -/
def Callable.method (parent name : String) (span : Span) (parameters decorators : List String)
    (docstring : Option String) :
    Callable :=
  ⟨name, parent ++ "." ++ name, span, parameters, decorators, docstring, true, some parent⟩

/-- Why a text has no outline: its values are nested too deeply, or its syntax tree is. -/
inductive OutlineError where
  | nestedTooDeep (inObject : Bool)
  | treeTooDeep
  deriving DecidableEq, Repr

/-- What is said of a text without an outline. -/
def OutlineError.message : OutlineError → String
  | .nestedTooDeep inObject =>
    "maximum recursion depth exceeded while decoding a JSON " ++
      (if inObject then "object" else "array") ++ " from a unicode string"
  | .treeTooDeep => "maximum recursion depth exceeded during ast construction"

end SourceAtlas
