import SourceAtlas.Collection.Basic
import SourceAtlas.Grammar.Describe
import SourceAtlas.Grammar.Statement
import SourceAtlas.Outline.Basic

/-!
# Python sources

The outline holds the functions and classes at the top of a source, the methods directly in those
classes, and every import wherever it stands. A source that is not well formed has its lines only,
and one whose tree is too deep has no outline.
-/

set_option autoImplicit false

namespace SourceAtlas.Python

open SourceAtlas.Grammar
open SourceAtlas.Text

/-- The names along a chain of attributes, the root first; a root that is no name is left out. -/
def attributeChain : Expr → List String
  | .attribute value attr => attributeChain value ++ [attr]
  | .name id => [id]
  | _ => []

/-- What a decorator is called: its name, with the arguments of a call left out. -/
def decoratorName : Expr → String
  | .name id => id
  | .attribute value attr => ".".intercalate (attributeChain (.attribute value attr))
  | .call func _ _ => decoratorName func
  | e => e.describe .load

/-- What a base class is called: its name, with what stands in brackets left out. -/
def baseName : Expr → String
  | .name id => id
  | .attribute value attr => ".".intercalate (attributeChain (.attribute value attr))
  | .subscript value _ => baseName value
  | e => e.describe .load

/-- The text of code points; one that is no character is shown as the replacement character. -/
def textOfCodes (codes : List Nat) : List Char :=
  codes.map fun n => if isScalar n then Char.ofNat n else '�'

/-- The documentation at the head of a body. -/
def docstring? : List Stmt → Option String
  | .expression (.constant (.text codes _)) :: _ => some (String.ofList (tidy (textOfCodes codes)))
  | _ => none

/-- The names of parameters as an outline shows them. Those given by position only are left out, and
so are the usual names of a method's receiver. -/
def parameterNames (isMethod : Bool) : Params → List String
  | .mk _ regular extra namedOnly extraNamed =>
    ((regular.map Param.name).filter fun n => !(isMethod && (n == "self" || n == "cls"))) ++
      (extra.toList.map fun p => "*" ++ p.name) ++ namedOnly.map Param.name ++
        (extraNamed.toList.map fun p => "**" ++ p.name)

/-- The line a definition starts on: that of its first decorator, or of its keyword. -/
def firstLine (decorators : List Decorator) (line : Nat) : Nat :=
  ((decorators.map (·.line)).min?).getD line

/-- The method of the class `parent` that a statement defines. -/
def method? (parent : String) : Stmt → Option Callable
  | .function name params _ decorators body line last =>
    some (.method parent name ⟨firstLine decorators line, last⟩ (parameterNames true params)
      (decorators.map fun d => decoratorName d.expr) (docstring? body))
  | _ => none

/-- The function that a statement defines. -/
def function? : Stmt → Option Callable
  | .function name params _ decorators body line last =>
    some (.plain name ⟨firstLine decorators line, last⟩ (parameterNames false params)
      (decorators.map fun d => decoratorName d.expr) (docstring? body))
  | _ => none

/-- The class that a statement defines. -/
def class? : Stmt → Option ClassItem
  | .classDef name bases _ decorators body line last =>
    some ⟨name, ⟨firstLine decorators line, last⟩, bases.map baseName,
      body.filterMap (method? name),
      decorators.map fun d => decoratorName d.expr, docstring? body⟩
  | _ => none

/-- The functions and methods that a statement defines. -/
def callables (s : Stmt) : List Callable :=
  match class? s with
  | some c => c.methods
  | none => (function? s).toList

/-- The imports of a statement. -/
def importItems : Stmt → List ImportItem
  | .importNames names line => names.map fun (source, newName) => ⟨source, [], newName, line, false⟩
  | .importFrom source names line =>
    let newName :=
      match names with
      | [(_, newName)] => newName
      | _ => none
    [⟨source, names.map Prod.fst, newName, line, true⟩]
  | _ => []

/-- The name that a statement defines. -/
def definedName? : Stmt → Option String
  | .function name _ _ _ _ _ _ => some name
  | .classDef name _ _ _ _ _ _ => some name
  | _ => none

/-- For each definition at the top, the other defined names that it uses. -/
def mentions (defined : Names) (body : List Stmt) : Mentions :=
  Assoc.ofPairs <| body.filterMap fun s =>
    (definedName? s).map fun name =>
      let used := s.gather uses
      (name, Names.sorted (defined.filter fun d => d != name && used.contains d))

/-- Trees of fewer nodes on every way down can be built. -/
def treeLimit : Nat := 2970

/-- The outline of a source with these statements. -/
def outlineOf (sourceName : String) (text : List Char) (body : List Stmt) : Outline :=
  let functions := body.flatMap callables
  let classes := body.filterMap class?
  let defined := Names.ofList (functions.map (·.name) ++ classes.map (·.name))
  { Outline.plain sourceName text with
    functions := functions
    classes := classes
    imports := (breadthFirst body).flatMap importItems
    mentions := mentions defined body }

/-- The outline of a source, which fails if its tree is too deep. -/
def outline (sourceName : String) (text : List Char) : Except OutlineError Outline :=
  match Stmt.ofSource? text with
  | none => .ok (Outline.plain sourceName text)
  | some body =>
    if treeLimit ≤ gatherBody depth body then .error .treeTooDeep
    else .ok (outlineOf sourceName text body)

end SourceAtlas.Python
