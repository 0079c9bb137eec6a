import SourceAtlas.Grammar.Expression

/-!
# Reading statements

The statements of a source and the blocks in them. As for expressions, every function takes a bound
on the depth of the tree first. `Stmt.ofSource?` reads a whole source and gives nothing if it is not
well formed.
-/

set_option autoImplicit false

namespace SourceAtlas.Grammar

open Parse

/-- The operators that change a target in place. -/
def augmentedOperators : List String :=
  ["+=", "-=", "*=", "/=", "//=", "%=", "@=", "&=", "|=", "^=", "<<=", ">>=", "**="]

mutual

/-- May the expression be deleted? -/
def Expr.isDeletable : Expr → Bool
  | .name _ => true
  | .attribute _ _ => true
  | .subscript _ _ => true
  | .tuple items | .list items => areDeletable items
  | _ => false

/-- May all expressions be deleted? -/
def areDeletable : List Expr → Bool
  | [] => true
  | e :: es => e.isDeletable && areDeletable es

end

/-- The names after `global` or `nonlocal`. -/
def nameList : Nat → Parse Unit
  | 0 => failure
  | n + 1 => do
    let _ ← name
    if ← acceptOp "," then nameList n

/-- Names with dots between them. -/
def dottedName : Nat → Parse String
  | 0 => failure
  | n + 1 => do
    let first ← name
    if ← acceptOp "." then return first ++ "." ++ (← dottedName n) else return first

/-- An alias, if one follows. -/
def newName? : Parse (Option String) := do
  if ← acceptWord "as" then return some (← name) else return none

/-- Modules with their new names. -/
def importedModules : Nat → Parse (List Alias)
  | 0 => failure
  | n + 1 => do
    let source ← dottedName n
    let item := (source, ← newName?)
    if ← acceptOp "," then return item :: (← importedModules n) else return [item]

/-- The names of an import from a module. Only within parentheses may a comma follow the last. -/
def importedNames : Nat → Bool → Parse (List Alias)
  | 0, _ => failure
  | n + 1, isEnclosed => do
    let item := (← name, ← newName?)
    if ← acceptOp "," then
      if isEnclosed && (← atOp ")") then return [item]
      else return item :: (← importedNames n isEnclosed)
    else return [item]

/-- The dots in front of a module's name, and whether there were any. -/
def leadingDots : Nat → Parse Bool
  | 0 => return false
  | n + 1 => do
    if (← acceptOp ".") then
      let _ ← leadingDots n
      return true
    else if (← acceptOp "...") then
      let _ ← leadingDots n
      return true
    else return false

/-- An import from a module, its first keyword taken. The dots of a relative import are not kept. -/
def importFrom (n line : Nat) : Parse Stmt := do
  let isRelative ← leadingDots n
  let source ← if isRelative && (← atWord "import") then pure "" else dottedName n
  expectWord "import"
  if ← acceptOp "*" then return .importFrom source [("*", none)] line
  else if ← acceptOp "(" then
    let names ← importedNames n true
    expectOp ")"
    return .importFrom source names line
  else return .importFrom source (← importedNames n false) line

/-- The targets of a deletion. -/
def deletions : Nat → Parse (List Expr)
  | 0 => failure
  | n + 1 => do
    let e ← primary n
    if !e.expr.isDeletable then failure
    if ← acceptOp "," then
      if (← atOp ";") || (← at_ .newline) then return [e.expr] else return e.expr :: (← deletions n)
    else return [e.expr]

/-- The right-hand side of an assignment. -/
def assigned (n : Nat) : Parse Expr := do
  if ← atWord "yield" then return (← yieldExpr n).expr else return (← starExpressions n).expr

/-- What follows the first equals sign of an assignment: further targets and the value. -/
def assignments : Nat → Parse (List Expr)
  | 0 => failure
  | n + 1 => do
    if ← atWord "yield" then return [(← yieldExpr n).expr]
    let e ← starExpressions n
    if ← acceptOp "=" then
      if e.expr.isStarTarget then return e.expr :: (← assignments n) else failure
    else return [e.expr]

/-- What follows the colon of an annotated target: the annotation and the value, if there is one. -/
def typeAndValue (n : Nat) : Parse (List Expr) := do
  let kind ← expression n
  if ← acceptOp "=" then return [kind.expr, ← assigned n] else return [kind.expr]

/-- An assignment, or an expression that stands alone. -/
def assignment (n : Nat) : Parse Stmt := do
  if ← atNameThen ":" then
    let target ← name
    expectOp ":"
    return .other (.name target :: (← typeAndValue n)) []
  let e ← starExpressions n
  match ← peek with
  | .op ":" =>
    skip
    if e.expr.isSingleTarget then return .other (e.expr :: (← typeAndValue n)) [] else failure
  | .op "=" =>
    skip
    if e.expr.isStarTarget then return .other (e.expr :: (← assignments n)) [] else failure
  | .op op =>
    if augmentedOperators.contains op then
      skip
      if e.expr.isSingleTarget then return .other [e.expr, ← assigned n] [] else failure
    else return .expression e.expr
  | _ => return .expression e.expr

/-- The next token ends a simple statement. -/
def atStatementEnd : Parse Bool := do return (← atOp ";") || (← at_ .newline)

/-- A statement without a block. -/
def simpleStatement (n : Nat) : Parse Stmt := do
  let start ← line
  match ← peek with
  | .keyword word =>
    match word with
    | "pass" | "break" | "continue" =>
      skip
      return .other [] []
    | "return" =>
      skip
      if ← atStatementEnd then return .other [] []
      else return .other [(← starExpressions n).expr] []
    | "raise" =>
      skip
      if ← atStatementEnd then return .other [] []
      let e ← expression n
      if ← acceptWord "from" then return .other [e.expr, (← expression n).expr] []
      else return .other [e.expr] []
    | "global" | "nonlocal" =>
      skip
      nameList n
      return .other [] []
    | "del" =>
      skip
      return .other (← deletions n) []
    | "assert" =>
      skip
      let e ← expression n
      if ← acceptOp "," then return .other [e.expr, (← expression n).expr] []
      else return .other [e.expr] []
    | "import" =>
      skip
      return .importNames (← importedModules n) start
    | "from" =>
      skip
      importFrom n start
    | "yield" => return .expression (← yieldExpr n).expr
    | _ => assignment n
  | _ => assignment n

/-- The statements of one line. -/
def simpleStatements : Nat → Parse (List Stmt)
  | 0 => failure
  | n + 1 => do
    let s ← simpleStatement n
    if ← acceptOp ";" then
      if ← accept .newline then return [s] else return s :: (← simpleStatements n)
    else
      expect .newline
      return [s]

/-- A number of a case pattern, and whether it is imaginary. -/
def patternNumber : Parse Bool := do
  return (← number).getLast?.any fun c => c == 'j' || c == 'J'

/-- A number with an optional sign in front, or the sum or difference of a real and an imaginary
one. -/
def patternNumeral : Parse Unit := do
  let _ ← acceptOp "-"
  let isImaginary ← patternNumber
  if (← atOp "+") || (← atOp "-") then
    skip
    if isImaginary then failure
    if !(← patternNumber) then failure

/-- A name that a pattern binds. It is not the underscore, and no dot, parenthesis or equals sign
follows. -/
def captureName : Parse Unit := do
  if ← atSpelling "_" then failure
  let _ ← name
  if (← atOp ".") || (← atOp "(") || (← atOp "=") then failure

/-- The attributes behind the first name of a value pattern. -/
def valueAttributes : Nat → Expr → Parse Expr
  | 0, _ => failure
  | n + 1, e => do
    if ← acceptOp "." then valueAttributes n (.attribute e (← name)) else return e

mutual

/-- The pattern of a case: one pattern, or several with commas. The readers of patterns give the
expressions in them. -/
def casePatterns : Nat → Parse (List Expr)
  | 0 => failure
  | n + 1 => do
    let isStar ← atOp "*"
    let first ← starPattern n
    if ← acceptOp "," then return first ++ (← patternList n)
    else if isStar then failure
    else return first

/-- Patterns after a comma, up to a closing bracket, a colon or a guard. -/
def patternList : Nat → Parse (List Expr)
  | 0 => failure
  | n + 1 => do
    if (← atOp ")") || (← atOp "]") || (← atOp ":") || (← atWord "if") then return []
    let first ← starPattern n
    if ← acceptOp "," then return first ++ (← patternList n) else return first

/-- A pattern that may be starred. -/
def starPattern : Nat → Parse (List Expr)
  | 0 => failure
  | n + 1 => do
    if ← acceptOp "*" then
      if ← atSpelling "_" then skip else captureName
      return []
    else casePattern n

/-- Alternatives, and the name they are bound to. -/
def casePattern : Nat → Parse (List Expr)
  | 0 => failure
  | n + 1 => do
    let es ← patternAlternatives n
    if ← acceptWord "as" then captureName
    return es

/-- Patterns joined by bars. -/
def patternAlternatives : Nat → Parse (List Expr)
  | 0 => failure
  | n + 1 => do
    let es ← closedPattern n
    if ← acceptOp "|" then return es ++ (← patternAlternatives n) else return es

/-- A literal, a name, a value, a class or a bracketed pattern. -/
def closedPattern : Nat → Parse (List Expr)
  | 0 => failure
  | n + 1 => do
    match ← peek with
    | .number _ | .op "-" =>
      patternNumeral
      return []
    | .string _ => return [← strings n]
    | .keyword "None" | .keyword "True" | .keyword "False" | .name "_" =>
      skip
      return []
    | .name _ =>
      let first ← name
      let e ← valueAttributes n (.name first)
      if ← acceptOp "(" then return e :: (← classPatterns n false)
      else if ← atOp "=" then failure
      else
        match e with
        | .name _ => return []
        | _ => return [e]
    | .op "(" =>
      skip
      if ← acceptOp ")" then return []
      let es ← casePatterns n
      expectOp ")"
      return es
    | .op "[" =>
      skip
      let es ← patternList n
      expectOp "]"
      return es
    | .op "\x7b" =>
      skip
      mappingPatterns n
    | _ => failure

/-- The patterns of a class pattern and its closing parenthesis; with `isNamed` only named ones may
follow. -/
def classPatterns : Nat → Bool → Parse (List Expr)
  | 0, _ => failure
  | n + 1, isNamed => do
    if ← acceptOp ")" then return []
    let keyed ← atNameThen "="
    if keyed then
      skip
      skip
    else if isNamed then failure
    let es ← casePattern n
    if ← acceptOp "," then return es ++ (← classPatterns n keyed)
    else
      expectOp ")"
      return es

/-- The entries of a mapping pattern and its closing brace. -/
def mappingPatterns : Nat → Parse (List Expr)
  | 0 => failure
  | n + 1 => do
    if ← acceptOp "\x7d" then return []
    if ← acceptOp "**" then
      captureName
      let _ ← acceptOp ","
      expectOp "\x7d"
      return []
    let key ← mappingKey n
    expectOp ":"
    let es ← casePattern n
    if ← acceptOp "," then return key ++ es ++ (← mappingPatterns n)
    else
      expectOp "\x7d"
      return key ++ es

/-- The key of an entry: a literal, or a value with a dot in its name. -/
def mappingKey : Nat → Parse (List Expr)
  | 0 => failure
  | n + 1 => do
    match ← peek with
    | .number _ | .op "-" =>
      patternNumeral
      return []
    | .string _ => return [← strings n]
    | .keyword "None" | .keyword "True" | .keyword "False" =>
      skip
      return []
    | .name _ =>
      let first ← name
      if !(← atOp ".") then failure
      return [← valueAttributes n (.name first)]
    | _ => failure

end

/-- One item of a with statement: an expression, and the target it is bound to. -/
def withItem (n : Nat) : Parse (List Expr) := do
  let e ← expression n
  if ← acceptWord "as" then
    let target ← starTarget n
    if (← atOp ",") || (← atOp ")") || (← atOp ":") then return [e.expr, target] else failure
  else return [e.expr]

/-- Items of a with statement; with `isEnclosed` a comma may follow the last. -/
def withItems : Nat → Bool → Parse (List Expr)
  | 0, _ => failure
  | n + 1, isEnclosed => do
    let es ← withItem n
    if ← acceptOp "," then
      if isEnclosed && (← atOp ")") then return es else return es ++ (← withItems n isEnclosed)
    else return es

/-- The items of a with statement in parentheses, and the colon. -/
def enclosedItems (n : Nat) : Parse (List Expr) := do
  expectOp "("
  let es ← withItems n true
  expectOp ")"
  expectOp ":"
  return es

/-- The items of a with statement, and the colon. -/
def withHeader (n : Nat) : Parse (List Expr) := do
  match ← attempt (enclosedItems n) with
  | some es => return es
  | none =>
    let es ← withItems n false
    expectOp ":"
    return es

/-- The head of a match statement up to its first case, if there is one here. -/
def matchHeader (n : Nat) : Parse Expr := do
  expect (.name "match")
  let first ← starNamed n
  let subject ←
    (do
      if ← acceptOp "," then
        return Expr.tuple (first.expr :: (← starNamedList n ":"))
      else if first.expr.isStarred then failure
      else return first.expr)
  expectOp ":"
  expect .newline
  expect .indent
  if ← atSpelling "case" then return subject else failure

/-- Decorators, one a line. -/
def decorators : Nat → Parse (List Decorator)
  | 0 => failure
  | n + 1 => do
    if ← acceptOp "@" then
      let e ← namedExpression n
      expect .newline
      return ⟨e.expr, e.line⟩ :: (← decorators n)
    else return []

/-- The head of a function behind its keyword, up to the colon. -/
def functionHeader (n : Nat) : Parse (String × Params × Option Expr) := do
  let functionName ← name
  expectOp "("
  let params ← parameters n ")" true
  expectOp ")"
  let returns ← if ← acceptOp "->" then (some ∘ Placed.expr) <$> expression n else pure none
  expectOp ":"
  return (functionName, params, returns)

/-- The head of a class behind its keyword, up to the colon. -/
def classHeader (n : Nat) : Parse (String × List Expr × List Keyword) := do
  let className ← name
  let (bases, keywords) ←
    (do
      if ← acceptOp "(" then
        let args ← arguments n false
        expectOp ")"
        return args
      else return ([], []))
  expectOp ":"
  return (className, bases, keywords)

mutual

/-- Statements up to the end of a block or of the source. -/
def statements : Nat → Parse (List Stmt)
  | 0 => failure
  | n + 1 => do
    match ← peek with
    | .dedent | .finish => return []
    | _ =>
      let ss ← statement n
      return ss ++ (← statements n)

/-- A statement with a block, or simple statements on one line. -/
def statement : Nat → Parse (List Stmt)
  | 0 => failure
  | n + 1 => do
    match ← peek with
    | .op "@" => return [← definition n (← decorators n)]
    | .keyword "def" | .keyword "class" => return [← definition n []]
    | .keyword "async" =>
      match ← peekSecond with
      | some (.keyword "def") => return [← definition n []]
      | some (.keyword "for") =>
        skip
        return [← forStatement n]
      | some (.keyword "with") =>
        skip
        return [← withStatement n]
      | _ => failure
    | .keyword "if" =>
      skip
      return [← ifStatement n]
    | .keyword "while" =>
      skip
      let test ← namedExpression n
      expectOp ":"
      let body ← block n
      return [.other [test.expr] (body ++ (← elseBlock n))]
    | .keyword "for" => return [← forStatement n]
    | .keyword "with" => return [← withStatement n]
    | .keyword "try" =>
      skip
      return [← tryStatement n]
    | .name "match" =>
      match ← attempt (matchHeader n) with
      | some subject => return [.other [subject] (← cases n)]
      | none => simpleStatements n
    | _ => simpleStatements n

/-- The statements under a colon: a block, or simple statements on the same line. -/
def block : Nat → Parse (List Stmt)
  | 0 => failure
  | n + 1 => do
    if ← accept .newline then
      expect .indent
      let body ← statements n
      expect .dedent
      return body
    else simpleStatements n

/-- The block behind `else`, or nothing. -/
def elseBlock : Nat → Parse (List Stmt)
  | 0 => failure
  | n + 1 => do
    if ← acceptWord "else" then
      expectOp ":"
      block n
    else return []

/-- A function or class, its decorators read. -/
def definition : Nat → List Decorator → Parse Stmt
  | 0, _ => failure
  | n + 1, decorated => do
    let start ← line
    if ← acceptWord "class" then
      let (className, bases, keywords) ← classHeader n
      let body ← block n
      return .classDef className bases keywords decorated body start (← lastLine)
    else
      let _ ← acceptWord "async"
      expectWord "def"
      let (functionName, params, returns) ← functionHeader n
      let body ← block n
      return .function functionName params returns decorated body start (← lastLine)

/-- A condition, its keyword taken. -/
def ifStatement : Nat → Parse Stmt
  | 0 => failure
  | n + 1 => do
    let test ← namedExpression n
    expectOp ":"
    let body ← block n
    if ← acceptWord "elif" then return .other [test.expr] (body ++ [← ifStatement n])
    else return .other [test.expr] (body ++ (← elseBlock n))

/-- A loop over the items of an expression. -/
def forStatement : Nat → Parse Stmt
  | 0 => failure
  | n + 1 => do
    expectWord "for"
    let target ← starTargets n
    expectWord "in"
    let iter ← starExpressions n
    expectOp ":"
    let body ← block n
    return .other [target, iter.expr] (body ++ (← elseBlock n))

/-- A with statement. -/
def withStatement : Nat → Parse Stmt
  | 0 => failure
  | n + 1 => do
    expectWord "with"
    let items ← withHeader n
    return .other items (← block n)

/-- A try statement, its keyword taken: handlers, or a final block, or both. -/
def tryStatement : Nat → Parse Stmt
  | 0 => failure
  | n + 1 => do
    expectOp ":"
    let body ← block n
    if ← atWord "except" then
      let isGroup := (← peekSecond) == some (.op "*")
      let caught ← handlers n isGroup
      let orelse ← elseBlock n
      return .other [] (body ++ caught ++ orelse ++ (← finalBlock n))
    else
      if !(← atWord "finally") then failure
      return .other [] (body ++ (← finalBlock n))

/-- The block behind `finally`, or nothing. -/
def finalBlock : Nat → Parse (List Stmt)
  | 0 => failure
  | n + 1 => do
    if ← acceptWord "finally" then
      expectOp ":"
      block n
    else return []

/-- The handlers of a try statement, all with a star or all without. -/
def handlers : Nat → Bool → Parse (List Stmt)
  | 0, _ => failure
  | n + 1, isGroup => do
    if ← acceptWord "except" then
      if isGroup then expectOp "*"
      let kind ← if !isGroup && (← atOp ":") then pure [] else do
        let e ← expression n
        let _ ← newName?
        pure [e.expr]
      expectOp ":"
      let body ← block n
      return .other kind body :: (← handlers n isGroup)
    else return []

/-- The cases of a match statement and the end of its block. -/
def cases : Nat → Parse (List Stmt)
  | 0 => failure
  | n + 1 => do
    if ← accept .dedent then return []
    expect (.name "case")
    let es ← casePatterns n
    let guarded ← if ← acceptWord "if" then (fun e => [e.expr]) <$> namedExpression n else pure []
    expectOp ":"
    let body ← block n
    return .other (es ++ guarded) body :: (← cases n)

end

/-- The statements of a source, if it can be read. -/
def Stmt.ofSource? (source : List Char) : Option (List Stmt) := do
  let tokens ← tokens? source
  let (body, rest) ← (statements (40 * source.length + 200)).run tokens
  if rest.head?.any (·.kind == .finish) then some body else none

end SourceAtlas.Grammar
