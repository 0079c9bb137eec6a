/-!
# Expressions of Python sources

The tree of an expression, and what can be gathered over it: the names that it uses, and how deep it
is. A name is used by an expression when it stands there as an operand, a target or the root of an
attribute; the names of parameters, keywords and attributes are no uses.
-/

set_option autoImplicit false

namespace SourceAtlas.Grammar

/-- Literal values. A number keeps its digits as written; a text is a list of code points, which
escapes may put outside of the characters, with a mark for the letter `u` in front of its quote. -/
inductive Constant where
  | none
  | true
  | false
  | ellipsis
  | number (literal : List Char)
  | text (codes : List Nat) (marked : Bool)
  | bytes (values : List Nat)
  deriving DecidableEq, Repr

/-- The four displays that comprehensions fill. -/
inductive Display where
  | list | set | dict | generator
  deriving DecidableEq, Repr

mutual

/-- Expressions. Operators are given by the name of what they do, such as `Add`. -/
inductive Expr where
  | name (id : String)
  | constant (value : Constant)
  | attribute (value : Expr) (attr : String)
  | subscript (value index : Expr)
  | call (func : Expr) (args : List Expr) (keywords : List Keyword)
  | starred (value : Expr)
  | unary (op : String) (operand : Expr)
  | binary (op : String) (left right : Expr)
  | boolean (op : String) (values : List Expr)
  | compare (left : Expr) (ops : List String) (comparators : List Expr)
  | conditional (test body orelse : Expr)
  | named (target : String) (value : Expr)
  | lambda (params : Params) (body : Expr)
  | tuple (items : List Expr)
  | list (items : List Expr)
  | set (items : List Expr)
  | dict (items : List DictItem)
  | comprehension (display : Display) (element : Expr) (value : Option Expr) (clauses : List Clause)
  | await (value : Expr)
  | yield (value : Option Expr)
  | yieldFrom (value : Expr)
  | slice (lower upper step : Option Expr)
  | formatted (value : Expr) (conversion : Option Char) (spec : Option Expr)
  | joined (parts : List Expr)

/-- A keyword argument, or with no name the arguments of a mapping. -/
inductive Keyword where
  | mk (arg : Option String) (value : Expr)

/-- An entry of a dictionary display, or with no key the entries of a mapping. -/
inductive DictItem where
  | mk (key : Option Expr) (value : Expr)

/-- A clause of a comprehension. -/
inductive Clause where
  | mk (target iter : Expr) (conditions : List Expr) (isAsync : Bool)

/-- A parameter. -/
inductive Param where
  | mk (name : String) (hint : Option Expr) (default : Option Expr)

/-- The parameters of a function: those given by position only, those given by position or name, the
one that takes further arguments, those given by name only, and the one that takes further named
arguments. -/
inductive Params where
  | mk (positional : List Param) (regular : List Param) (extra : Option Param)
    (namedOnly : List Param) (extraNamed : Option Param)

end

/-- No parameters. -/
def Params.none : Params := .mk [] [] .none [] .none

namespace Param

/-- The name of a parameter. -/
def name : Param → String
  | .mk n _ _ => n

end Param

/-- How something is gathered over a tree: what there is without any part, what two parts make, and
what a node makes of its parts. A node may hold a name. -/
structure Gather (α : Type) where
  nothing : α
  both : α → α → α
  node : Option String → α → α

section Gather

variable {α : Type} (g : Gather α)

mutual

/-- What is gathered over an expression. -/
def Expr.gather : Expr → α
  | .name id => g.node (some id) g.nothing
  | .constant _ => g.node none g.nothing
  | .attribute value _ => g.node none value.gather
  | .subscript value index => g.node none (g.both value.gather index.gather)
  | .call func args keywords =>
    g.node none (g.both func.gather (g.both (gatherAll args) (gatherKeywords keywords)))
  | .starred value => g.node none value.gather
  | .unary _ operand => g.node none operand.gather
  | .binary _ left right => g.node none (g.both left.gather right.gather)
  | .boolean _ values => g.node none (gatherAll values)
  | .compare left _ comparators => g.node none (g.both left.gather (gatherAll comparators))
  | .conditional test body orelse =>
    g.node none (g.both test.gather (g.both body.gather orelse.gather))
  | .named target value => g.node none (g.both (g.node (some target) g.nothing) value.gather)
  | .lambda params body => g.node none (g.both params.gather body.gather)
  | .tuple items | .list items | .set items => g.node none (gatherAll items)
  | .dict items => g.node none (gatherItems items)
  | .comprehension _ element value clauses =>
    g.node none (g.both element.gather (g.both (gatherOption value) (gatherClauses clauses)))
  | .await value => g.node none value.gather
  | .yield value => g.node none (gatherOption value)
  | .yieldFrom value => g.node none value.gather
  | .slice lower upper step =>
    g.node none (g.both (gatherOption lower) (g.both (gatherOption upper) (gatherOption step)))
  | .formatted value _ spec => g.node none (g.both value.gather (gatherOption spec))
  | .joined parts => g.node none (gatherAll parts)

/-- What is gathered over expressions. -/
def gatherAll : List Expr → α
  | [] => g.nothing
  | e :: es => g.both e.gather (gatherAll es)

/-- What is gathered over an expression that may be absent. -/
def gatherOption : Option Expr → α
  | .none => g.nothing
  | .some e => e.gather

/-- What is gathered over keyword arguments. -/
def gatherKeywords : List Keyword → α
  | [] => g.nothing
  | .mk _ value :: ks => g.both (g.node none value.gather) (gatherKeywords ks)

/-- What is gathered over the entries of a dictionary. -/
def gatherItems : List DictItem → α
  | [] => g.nothing
  | .mk key value :: rest =>
    g.both (g.both (gatherOption key) value.gather) (gatherItems rest)

/-- What is gathered over the clauses of a comprehension. -/
def gatherClauses : List Clause → α
  | [] => g.nothing
  | .mk target iter conditions _ :: rest =>
    g.both (g.node none (g.both target.gather (g.both iter.gather (gatherAll conditions))))
      (gatherClauses rest)

/-- What is gathered over the annotations and defaults of parameters. -/
def gatherParams : List Param → α
  | [] => g.nothing
  | .mk _ hint default :: rest =>
    g.both (g.both (g.node none (gatherOption hint)) (gatherOption default)) (gatherParams rest)

/-- What is gathered over a parameter that may be absent. -/
def gatherParam : Option Param → α
  | .none => g.nothing
  | .some (.mk _ hint default) =>
    g.both (g.node none (gatherOption hint)) (gatherOption default)

/-- What is gathered over all parameters. -/
def Params.gather : Params → α
  | .mk positional regular extra namedOnly extraNamed =>
    g.node none (g.both (g.both (gatherParams positional) (gatherParams regular))
      (g.both (gatherParam extra) (g.both (gatherParams namedOnly) (gatherParam extraNamed))))

end

end Gather

/-- Gathers the names that are used. -/
def uses : Gather (List String) := ⟨[], (· ++ ·), fun name parts => name.toList ++ parts⟩

/-- Counts how many nodes deep a tree is. -/
def depth : Gather Nat := ⟨0, max, fun _ parts => parts + 1⟩

/-! ## Statements of Python sources

What an outline needs of a statement: definitions and imports with their lines, expressions that
stand as statements, and of every other statement the expressions and the statements in it. The
parts of a statement that hold statements of their own, such as handlers and cases, are statements
here too. -/

/-- A decorator and the line its expression starts on. -/
structure Decorator where
  expr : Expr
  line : Nat

/-- An imported name and its alias. -/
abbrev Alias := String × Option String

/-- Statements. A definition carries the line of its keyword and the last line of its body. -/
inductive Stmt where
  | function (name : String) (params : Params) (returns : Option Expr) (decorators : List Decorator)
    (body : List Stmt)
      (line last : Nat)
  | classDef (name : String) (bases : List Expr) (keywords : List Keyword)
    (decorators : List Decorator) (body : List Stmt)
      (line last : Nat)
  | importNames (names : List Alias) (line : Nat)
  | importFrom (source : String) (names : List Alias) (line : Nat)
  | expression (value : Expr)
  | other (parts : List Expr) (body : List Stmt)

section Gather

variable {α : Type} (g : Gather α)

mutual

/-- What is gathered over a statement. -/
def Stmt.gather : Stmt → α
  | .function _ params returns decorators body _ _ =>
    g.node none (g.both (g.both (params.gather g) (gatherAll g (decorators.map (·.expr))))
      (g.both (gatherOption g returns) (gatherBody body)))
  | .classDef _ bases keywords decorators body _ _ =>
    g.node none (g.both (g.both (gatherAll g bases) (gatherKeywords g keywords))
      (g.both (gatherAll g (decorators.map (·.expr))) (gatherBody body)))
  | .importNames _ _ | .importFrom _ _ _ => g.node none g.nothing
  | .expression value => g.node none (value.gather g)
  | .other parts body => g.node none (g.both (gatherAll g parts) (gatherBody body))

/-- What is gathered over statements. -/
def gatherBody : List Stmt → α
  | [] => g.nothing
  | s :: ss => g.both s.gather (gatherBody ss)

end

end Gather

/-- Two trees level by level. -/
def mergeLevels {α : Type} : List (List α) → List (List α) → List (List α)
  | [], ys => ys
  | xs, [] => xs
  | x :: xs, y :: ys => (x ++ y) :: mergeLevels xs ys

mutual

/-- The statements of a tree by their depth: the statement itself, those directly in it, and so
on. -/
def Stmt.levels : Stmt → List (List Stmt)
  | .function name params returns decorators body line last =>
    [.function name params returns decorators body line last] :: levelsOf body
  | .classDef name bases keywords decorators body line last =>
    [.classDef name bases keywords decorators body line last] :: levelsOf body
  | .other parts body => [.other parts body] :: levelsOf body
  | s => [[s]]

/-- The statements of several trees by their depth. -/
def levelsOf : List Stmt → List (List Stmt)
  | [] => []
  | s :: ss => mergeLevels s.levels (levelsOf ss)

end

/-- All statements, those nearer to the top first and those of one depth in the order of the
source. -/
def breadthFirst (body : List Stmt) : List Stmt := (levelsOf body).flatten

end SourceAtlas.Grammar
