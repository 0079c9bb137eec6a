import SourceAtlas.Grammar.Literal
import SourceAtlas.Grammar.Parse

/-!
# Reading expressions

One function per form of expression, from the loosest to the tightest operators. Every function
takes a bound on the depth of the tree as its first argument; the bound is computed from the length
of the source and never reached.
-/

set_option autoImplicit false

namespace SourceAtlas.Grammar

open Parse

/-- The binary operators of one level of precedence, the loosest level first, and the names of what
they do. -/
def binaryOperators : Nat → List (String × String)
  | 0 => [("|", "BitOr")]
  | 1 => [("^", "BitXor")]
  | 2 => [("&", "BitAnd")]
  | 3 => [("<<", "LShift"), (">>", "RShift")]
  | 4 => [("+", "Add"), ("-", "Sub")]
  | 5 => [("*", "Mult"), ("/", "Div"), ("//", "FloorDiv"), ("%", "Mod"), ("@", "MatMult")]
  | _ => []

/-- The number of levels of binary operators. -/
def binaryLevels : Nat := 6

/-- The comparison that is written by one operator. -/
def comparison? : String → Option String
  | "==" => some "Eq"
  | "!=" => some "NotEq"
  | "<" => some "Lt"
  | "<=" => some "LtE"
  | ">" => some "Gt"
  | ">=" => some "GtE"
  | _ => none

/-- Takes a comparison operator if one comes next. -/
def comparisonOperator : Parse (Option String) := do
  match ← peek with
  | .op op =>
    match comparison? op with
    | some name =>
      skip
      return some name
    | none => return none
  | .keyword "in" =>
    skip
    return some "In"
  | .keyword "not" =>
    if (← peekSecond) == some (.keyword "in") then
      skip
      skip
      return some "NotIn"
    else return none
  | .keyword "is" =>
    skip
    if ← acceptWord "not" then return some "IsNot" else return some "Is"
  | _ => return none

mutual

/-- An expression that can be assigned to. -/
def Expr.isTarget : Expr → Bool
  | .name _ => true
  | .attribute _ _ => true
  | .subscript _ _ => true
  | .tuple items | .list items => areTargets items
  | _ => false

/-- Expressions, possibly starred, that can be assigned to. -/
def areTargets : List Expr → Bool
  | [] => true
  | .starred e :: es | e :: es => e.isTarget && areTargets es

end

/-- An expression, possibly starred, that can stand in front of an equals sign. -/
def Expr.isStarTarget : Expr → Bool
  | .starred e => e.isTarget
  | e => e.isTarget

/-- A single name, attribute or subscript. -/
def Expr.isSingleTarget : Expr → Bool
  | .name _ => true
  | .attribute _ _ => true
  | .subscript _ _ => true
  | _ => false

/-- Is the expression starred? -/
def Expr.isStarred : Expr → Bool
  | .starred _ => true
  | _ => false

/-- Decimal integers may have so many digits. -/
def digitLimit : Nat := 4300

/-- Takes a number. -/
def number : Parse (List Char) := do
  match ← peek with
  | .number literal =>
    skip
    if literal.head? ≠ some '0' && (literal.filter isDigit).length > digitLimit &&
        literal.all (fun c => isDigit c || c == '_') then failure
    return literal
  | _ => failure

/-- String literals side by side. -/
def stringTokens : Nat → Parse (List StringToken)
  | 0 => return []
  | fuel + 1 => do
    match ← peek with
    | .string text =>
      skip
      return .ofText text :: (← stringTokens fuel)
    | _ => return []

/-- A literal made of the code points collected so far, if there are any. -/
def pendingText (codes : List Nat) (marked : Bool) : List Expr :=
  if codes.isEmpty then [] else [.constant (.text codes marked)]

/-- What has been read of the arguments of a call: still positional ones, a named one, or a
mapping. -/
inductive ArgumentStage where
  | positional | named | mapping
  deriving DecidableEq

/-- What has been read of a list of parameters: those without and with defaults, those after a star,
or the last one. -/
inductive ParamStage where
  | required | optional | namedOnly | closed
  deriving DecidableEq

/-- The parameters read so far. -/
structure ParamsSoFar where
  positional : List Param
  regular : List Param
  extra : Option Param
  namedOnly : List Param
  extraNamed : Option Param
  stage : ParamStage

mutual

/-- A lambda expression, a choice by a condition, or a disjunction. -/
def expression : Nat → Parse Placed
  | 0 => failure
  | n + 1 => do
    if ← atWord "lambda" then lambdaExpr n
    else
      let start ← line
      let body ← disjunction n
      if ← acceptWord "if" then
        let test ← disjunction n
        expectWord "else"
        let orelse ← expression n
        return ⟨.conditional test.expr body.expr orelse.expr, start⟩
      else return body

/-- A function without a name. -/
def lambdaExpr : Nat → Parse Placed
  | 0 => failure
  | n + 1 => do
    let start ← line
    expectWord "lambda"
    let params ← parameters n ":" false
    expectOp ":"
    let body ← expression n
    return ⟨.lambda params body.expr, start⟩

/-- Conjunctions joined by `or`. -/
def disjunction : Nat → Parse Placed
  | 0 => failure
  | n + 1 => do
    let start ← line
    let first ← conjunction n
    match ← disjuncts n with
    | [] => return first
    | more => return ⟨.boolean "Or" (first.expr :: more), start⟩

/-- Further conjunctions of a disjunction. -/
def disjuncts : Nat → Parse (List Expr)
  | 0 => failure
  | n + 1 => do
    if ← acceptWord "or" then
      let e ← conjunction n
      return e.expr :: (← disjuncts n)
    else return []

/-- Negations joined by `and`. -/
def conjunction : Nat → Parse Placed
  | 0 => failure
  | n + 1 => do
    let start ← line
    let first ← inversion n
    match ← conjuncts n with
    | [] => return first
    | more => return ⟨.boolean "And" (first.expr :: more), start⟩

/-- Further parts of a conjunction. -/
def conjuncts : Nat → Parse (List Expr)
  | 0 => failure
  | n + 1 => do
    if ← acceptWord "and" then
      let e ← inversion n
      return e.expr :: (← conjuncts n)
    else return []

/-- A negation, or a comparison. -/
def inversion : Nat → Parse Placed
  | 0 => failure
  | n + 1 => do
    let start ← line
    if ← acceptWord "not" then
      let e ← inversion n
      return ⟨.unary "Not" e.expr, start⟩
    else comparison n

/-- A comparison of one or more pairs, or an operand. -/
def comparison : Nat → Parse Placed
  | 0 => failure
  | n + 1 => do
    let start ← line
    let left ← binary n 0
    match ← comparisons n with
    | [] => return left
    | more => return ⟨.compare left.expr (more.map Prod.fst) (more.map Prod.snd), start⟩

/-- The operators and right-hand sides of a comparison. -/
def comparisons : Nat → Parse (List (String × Expr))
  | 0 => failure
  | n + 1 => do
    match ← comparisonOperator with
    | none => return []
    | some op =>
      let right ← binary n 0
      return (op, right.expr) :: (← comparisons n)

/-- Operands joined from the left by the operators of a level. -/
def binary : Nat → Nat → Parse Placed
  | 0, _ => failure
  | n + 1, level => do
    if level ≥ binaryLevels then factor n
    else
      let start ← line
      let left ← binary n (level + 1)
      binaryRest n level start left

/-- Further operands of a level, joined to what stands on their left. -/
def binaryRest : Nat → Nat → Nat → Placed → Parse Placed
  | 0, _, _, _ => failure
  | n + 1, level, start, left => do
    match ← peek with
    | .op op =>
      match (binaryOperators level).lookup op with
      | none => return left
      | some kind =>
        skip
        let right ← binary n (level + 1)
        binaryRest n level start ⟨.binary kind left.expr right.expr, start⟩
    | _ => return left

/-- A sign in front of an operand, or a power. -/
def factor : Nat → Parse Placed
  | 0 => failure
  | n + 1 => do
    let start ← line
    let sign? : Option String ←
      (do
        if ← acceptOp "+" then return some "UAdd"
        if ← acceptOp "-" then return some "USub"
        if ← acceptOp "~" then return some "Invert"
        return none)
    match sign? with
    | some op =>
      let e ← factor n
      return ⟨.unary op e.expr, start⟩
    | none =>
      let base ← awaited n
      if ← acceptOp "**" then
        let power ← factor n
        return ⟨.binary "Pow" base.expr power.expr, start⟩
      else return base

/-- An awaited operand, or an operand. -/
def awaited : Nat → Parse Placed
  | 0 => failure
  | n + 1 => do
    let start ← line
    if ← acceptWord "await" then
      let e ← primary n
      return ⟨.await e.expr, start⟩
    else primary n

/-- An atom with the attributes, calls and subscripts behind it. -/
def primary : Nat → Parse Placed
  | 0 => failure
  | n + 1 => do
    let start ← line
    let e ← atom n
    trailers n start e

/-- Attributes, calls and subscripts of what stands on their left. -/
def trailers : Nat → Nat → Placed → Parse Placed
  | 0, _, _ => failure
  | n + 1, start, left => do
    if ← acceptOp "." then
      let attr ← name
      trailers n start ⟨.attribute left.expr attr, start⟩
    else if ← acceptOp "(" then
      let (args, keywords) ← arguments n true
      expectOp ")"
      trailers n start ⟨.call left.expr args keywords, start⟩
    else if ← acceptOp "[" then
      let index ← subscripts n
      expectOp "]"
      trailers n start ⟨.subscript left.expr index, start⟩
    else return left

/-- The arguments of a call up to its closing parenthesis. A bare generator may be the only argument
of a call, not of a class. -/
def arguments : Nat → Bool → Parse (List Expr × List Keyword)
  | 0, _ => failure
  | n + 1, generators => do
    if ← atOp ")" then return ([], [])
    if !(← atOp "*") && !(← atOp "**") && !(← atNameThen "=") then
      let first ← namedExpression n
      if generators && ((← atWord "for") || (← atWord "async")) then
        let clauses ← clauses n
        if !(← atOp ")") then failure
        return ([.comprehension .generator first.expr none clauses], [])
      if ← atOp "=" then failure
      moreArguments n .positional [first.expr] []
    else argumentsFrom n .positional [] []

/-- Further arguments after a comma, or none; what was read comes with the last first. -/
def moreArguments :
    Nat → ArgumentStage → List Expr → List Keyword → Parse (List Expr × List Keyword)
  | 0, _, _, _ => failure
  | n + 1, stage, args, keywords => do
    if ← acceptOp "," then
      if ← atOp ")" then return (args.reverse, keywords.reverse)
      else argumentsFrom n stage args keywords
    else return (args.reverse, keywords.reverse)

/-- One argument and those after it. -/
def argumentsFrom :
    Nat → ArgumentStage → List Expr → List Keyword → Parse (List Expr × List Keyword)
  | 0, _, _, _ => failure
  | n + 1, stage, args, keywords => do
    if ← acceptOp "**" then
      let e ← expression n
      moreArguments n .mapping args (.mk none e.expr :: keywords)
    else if ← acceptOp "*" then
      if stage = .mapping then failure
      let e ← expression n
      moreArguments n stage (.starred e.expr :: args) keywords
    else if ← atNameThen "=" then
      let key ← name
      expectOp "="
      let e ← expression n
      moreArguments n (if stage = .mapping then .mapping else .named) args
        (.mk (some key) e.expr :: keywords)
    else
      if stage ≠ .positional then failure
      let e ← namedExpression n
      if ← atOp "=" then failure
      moreArguments n stage (e.expr :: args) keywords

/-- What stands between the brackets of a subscript. -/
def subscripts : Nat → Parse Expr
  | 0 => failure
  | n + 1 => do
    let starred ← atOp "*"
    let first ← subscript n
    if ← acceptOp "," then
      let more ← subscriptList n
      return .tuple (first :: more)
    else if starred then return .tuple [first]
    else return first

/-- Subscripts after a comma. -/
def subscriptList : Nat → Parse (List Expr)
  | 0 => failure
  | n + 1 => do
    if ← atOp "]" then return []
    let e ← subscript n
    if ← acceptOp "," then return e :: (← subscriptList n) else return [e]

/-- A slice, a starred expression or an index. -/
def subscript : Nat → Parse Expr
  | 0 => failure
  | n + 1 => do
    if ← acceptOp "*" then
      let e ← expression n
      return .starred e.expr
    else if ← atOp ":" then slice n none
    else if ← atNameThen ":=" then return (← namedExpression n).expr
    else
      let e ← namedExpression n
      if ← atOp ":" then slice n (some e.expr) else return e.expr

/-- A slice from its first colon on. -/
def slice : Nat → Option Expr → Parse Expr
  | 0, _ => failure
  | n + 1, lower => do
    expectOp ":"
    let upper ← sliceBound n
    if ← acceptOp ":" then
      let step ← sliceBound n
      return .slice lower upper step
    else return .slice lower upper none

/-- A bound of a slice, or nothing. -/
def sliceBound : Nat → Parse (Option Expr)
  | 0 => failure
  | n + 1 => do
    if (← atOp ":") || (← atOp "]") || (← atOp ",") then return none
    let e ← expression n
    return some e.expr

/-- A name, a literal, or what brackets hold. -/
def atom : Nat → Parse Placed
  | 0 => failure
  | n + 1 => do
    let start ← line
    match ← peek with
    | .name _ => return ⟨.name (← name), start⟩
    | .keyword "True" =>
      skip
      return ⟨.constant .true, start⟩
    | .keyword "False" =>
      skip
      return ⟨.constant .false, start⟩
    | .keyword "None" =>
      skip
      return ⟨.constant .none, start⟩
    | .number _ => return ⟨.constant (.number (← number)), start⟩
    | .string _ => return ⟨← strings n, start⟩
    | .op "..." =>
      skip
      return ⟨.constant .ellipsis, start⟩
    | .op "(" =>
      skip
      parenthesized n start
    | .op "[" =>
      skip
      return ⟨← bracketed n, start⟩
    | .op "\x7b" =>
      skip
      return ⟨← braced n, start⟩
    | _ => failure

/-- What an opening parenthesis on line `start` begins: a tuple, a generator, or one expression,
which keeps its own line. -/
def parenthesized : Nat → Nat → Parse Placed
  | 0, _ => failure
  | n + 1, start => do
    if ← acceptOp ")" then return ⟨.tuple [], start⟩
    if ← atWord "yield" then
      let e ← yieldExpr n
      expectOp ")"
      return e
    let first ← starNamed n
    if (← atWord "for") || (← atWord "async") then
      if first.expr.isStarred then failure
      let clauses ← clauses n
      expectOp ")"
      return ⟨.comprehension .generator first.expr none clauses, start⟩
    if ← acceptOp "," then
      let more ← starNamedList n ")"
      expectOp ")"
      return ⟨.tuple (first.expr :: more), start⟩
    if first.expr.isStarred then failure
    expectOp ")"
    return first

/-- A list or a comprehension, its bracket taken. -/
def bracketed : Nat → Parse Expr
  | 0 => failure
  | n + 1 => do
    if ← acceptOp "]" then return .list []
    let first ← starNamed n
    if (← atWord "for") || (← atWord "async") then
      if first.expr.isStarred then failure
      let clauses ← clauses n
      expectOp "]"
      return .comprehension .list first.expr none clauses
    let more ← if ← acceptOp "," then starNamedList n "]" else pure []
    expectOp "]"
    return .list (first.expr :: more)

/-- A dictionary, a set or a comprehension, its brace taken. -/
def braced : Nat → Parse Expr
  | 0 => failure
  | n + 1 => do
    if ← acceptOp "\x7d" then return .dict []
    if ← atOp "**" then return .dict (← dictItems n)
    -- A star or a name that is bound here cannot begin a key; in parentheses it can.
    let isKey := !(← atOp "*") && !(← atNameThen ":=")
    let first ← starNamed n
    let isEntry ← if isKey then acceptOp ":" else pure false
    if isEntry then
      let value ← expression n
      if (← atWord "for") || (← atWord "async") then
        let clauses ← clauses n
        expectOp "\x7d"
        return .comprehension .dict first.expr (some value.expr) clauses
      let more ← if ← acceptOp "," then dictItemsOrEnd n else do
        expectOp "\x7d"
        pure []
      return .dict (.mk (some first.expr) value.expr :: more)
    if (← atWord "for") || (← atWord "async") then
      if first.expr.isStarred then failure
      let clauses ← clauses n
      expectOp "\x7d"
      return .comprehension .set first.expr none clauses
    let more ← if ← acceptOp "," then starNamedList n "\x7d" else pure []
    expectOp "\x7d"
    return .set (first.expr :: more)

/-- Entries of a dictionary and its closing brace, or the brace alone. -/
def dictItemsOrEnd : Nat → Parse (List DictItem)
  | 0 => failure
  | n + 1 => do if ← acceptOp "\x7d" then return [] else dictItems n

/-- Entries of a dictionary and its closing brace. -/
def dictItems : Nat → Parse (List DictItem)
  | 0 => failure
  | n + 1 => do
    let item ←
      (do
        if ← acceptOp "**" then
          let e ← binary n 0
          return DictItem.mk none e.expr
        else
          let key ← expression n
          expectOp ":"
          let value ← expression n
          return DictItem.mk (some key.expr) value.expr)
    if ← acceptOp "," then return item :: (← dictItemsOrEnd n)
    else
      expectOp "\x7d"
      return [item]

/-- Starred or named expressions up to the closing operator, which is not taken. -/
def starNamedList : Nat → String → Parse (List Expr)
  | 0, _ => failure
  | n + 1, close => do
    if ← atOp close then return []
    let e ← starNamed n
    if ← acceptOp "," then return e.expr :: (← starNamedList n close) else return [e.expr]

/-- A starred expression, or an expression that may name its value. -/
def starNamed : Nat → Parse Placed
  | 0 => failure
  | n + 1 => do
    let start ← line
    if ← acceptOp "*" then
      let e ← binary n 0
      return ⟨.starred e.expr, start⟩
    else namedExpression n

/-- An expression that may name its value. -/
def namedExpression : Nat → Parse Placed
  | 0 => failure
  | n + 1 => do
    if ← atNameThen ":=" then
      let start ← line
      let target ← name
      expectOp ":="
      let value ← expression n
      return ⟨.named target value.expr, start⟩
    else
      let e ← expression n
      if ← atOp ":=" then failure
      return e

/-- A yield expression. -/
def yieldExpr : Nat → Parse Placed
  | 0 => failure
  | n + 1 => do
    let start ← line
    expectWord "yield"
    if ← acceptWord "from" then
      let e ← expression n
      return ⟨.yieldFrom e.expr, start⟩
    else
      match ← attempt (starExpressions n) with
      | some e => return ⟨.yield (some e.expr), start⟩
      | none => return ⟨.yield none, start⟩

/-- An expression, or several with commas, which form a tuple. -/
def starExpressions : Nat → Parse Placed
  | 0 => failure
  | n + 1 => do
    let start ← line
    let first ← starExpression n
    if ← acceptOp "," then
      let more ← starExpressionList n
      return ⟨.tuple (first.expr :: more), start⟩
    else return first

/-- Expressions after a comma, if any follow. -/
def starExpressionList : Nat → Parse (List Expr)
  | 0 => failure
  | n + 1 => do
    match ← attempt (starExpression n) with
    | none => return []
    | some e =>
      if ← acceptOp "," then return e.expr :: (← starExpressionList n) else return [e.expr]

/-- An expression that may be starred. -/
def starExpression : Nat → Parse Placed
  | 0 => failure
  | n + 1 => do
    let start ← line
    if ← acceptOp "*" then
      let e ← binary n 0
      return ⟨.starred e.expr, start⟩
    else expression n

/-- A target that may be starred. -/
def starTarget : Nat → Parse Expr
  | 0 => failure
  | n + 1 => do
    if ← acceptOp "*" then
      let e ← primary n
      if e.expr.isTarget then return .starred e.expr else failure
    else
      let e ← primary n
      if e.expr.isTarget then return e.expr else failure

/-- One target, or several with commas, which form a tuple. -/
def starTargets : Nat → Parse Expr
  | 0 => failure
  | n + 1 => do
    let first ← starTarget n
    if ← acceptOp "," then
      let more ← starTargetList n
      return .tuple (first :: more)
    else return first

/-- Targets after a comma, if any follow. -/
def starTargetList : Nat → Parse (List Expr)
  | 0 => failure
  | n + 1 => do
    match ← attempt (starTarget n) with
    | none => return []
    | some e => if ← acceptOp "," then return e :: (← starTargetList n) else return [e]

/-- The clauses of a comprehension, one at least. -/
def clauses : Nat → Parse (List Clause)
  | 0 => failure
  | n + 1 => do
    let isAsync ← acceptWord "async"
    expectWord "for"
    let target ← starTargets n
    expectWord "in"
    let iter ← disjunction n
    let conditions ← conditions n
    let clause := Clause.mk target iter.expr conditions isAsync
    if (← atWord "for") || (← atWord "async") then return clause :: (← clauses n)
    else return [clause]

/-- The conditions of a clause. -/
def conditions : Nat → Parse (List Expr)
  | 0 => failure
  | n + 1 => do
    if ← acceptWord "if" then
      let e ← disjunction n
      return e.expr :: (← conditions n)
    else return []

/-- Adjacent string literals, which form one text, one run of bytes or one formatted string. -/
def strings : Nat → Parse Expr
  | 0 => failure
  | n + 1 => do
    let tokens ← stringTokens (n + 1)
    match tokens with
    | [] => failure
    | first :: _ =>
      if tokens.all (·.isBytes) then
        let values ← (tokens.mapM fun t => byteValues? t.isRaw t.body : Option (List (List Nat)))
        return .constant (.bytes values.flatten)
      else if tokens.any (·.isBytes) then failure
      else
        let pieces ← (tokens.mapM fun t =>
          if t.isFormat then FormatPiece.ofBody? t.isRaw t.body
          else (textCodes? t.isRaw t.body).map fun codes =>
            [FormatPiece.literal codes] : Option (List (List FormatPiece)))
        if tokens.any (·.isFormat) then
          return .joined (← formatParts n first.isMarked first.isMarked [] pieces.flatten)
        else
          let codes :=
            pieces.flatten.flatMap fun p => match p with | .literal codes => codes | _ => []
          return .constant (.text codes first.isMarked)

/-- The parts of a formatted string, adjacent literals joined; `pending` is the literal text before
them. -/
def formatParts : Nat → Bool → Bool → List Nat → List FormatPiece → Parse (List Expr)
  | 0, _, _, _, _ => failure
  | n + 1, marked, lastMarked, pending, pieces => do
    match pieces with
    | [] => return pendingText pending lastMarked
    | .literal codes :: rest => formatParts n marked lastMarked (pending ++ codes) rest
    | .field source shown conversion format :: rest =>
      let value ← fieldExpression n source
      let spec ←
        match format with
        | none => pure none
        | some parts => (some ∘ Expr.joined) <$> formatParts n marked false [] parts
      let before := pendingText (pending ++ (shown.getD []).map Char.toNat) marked
      let more ← formatParts n marked lastMarked [] rest
      return before ++ .formatted value conversion spec :: more

/-- The expression of a field, read from its own text as if it stood in parentheses. -/
def fieldExpression : Nat → List Char → Parse Expr
  | 0, _ => failure
  | n + 1, source => do
    let tokens ← (tokens? ('(' :: source ++ [')']) : Option (List Token))
    match (starExpressions n).run tokens with
    | some (e, rest) => if rest.head?.any (·.kind == .newline) then return e.expr else failure
    | none => failure

/-- Parameters up to the closing operator, which is not taken. With `annotated` a parameter may
carry an annotation. -/
def parameters : Nat → String → Bool → Parse Params
  | 0, _, _ => failure
  | n + 1, close, annotated => do
    let so ← parametersFrom n close annotated ⟨[], [], none, [], none, .required⟩
    return .mk so.positional so.regular so.extra so.namedOnly so.extraNamed

/-- The parameters that are left, up to the closing sign. -/
def parametersFrom : Nat → String → Bool → ParamsSoFar → Parse ParamsSoFar
  | 0, _, _, _ => failure
  | n + 1, close, annotated, so => do
    if ← atOp close then return so
    if so.stage = .closed then failure
    if ← acceptOp "/" then
      if so.stage = .namedOnly || !so.positional.isEmpty || so.regular.isEmpty then failure
      nextParameter n close annotated { so with positional := so.regular, regular := [] }
    else if ← acceptOp "**" then
      let param ← parameter n annotated false
      nextParameter n close annotated { so with extraNamed := some param, stage := .closed }
    else if ← acceptOp "*" then
      if so.stage = .namedOnly then failure
      if ← acceptOp "," then
        match ← peek with
        | .name _ => parametersFrom n close annotated { so with stage := .namedOnly }
        | _ => failure
      else
        let param ← parameter n annotated true
        nextParameter n close annotated { so with extra := some param, stage := .namedOnly }
    else
      let param ← parameter n annotated false
      let default ← if ← acceptOp "=" then (some ∘ Placed.expr) <$> expression n else pure none
      let full : Param := match param with | .mk name hint _ => .mk name hint default
      match so.stage with
      | .namedOnly =>
        nextParameter n close annotated { so with namedOnly := so.namedOnly ++ [full] }
      | .required =>
        nextParameter n close annotated
          { so with
            regular := so.regular ++ [full]
            stage := if default.isSome then .optional else .required }
      | _ =>
        if default.isNone then failure
        nextParameter n close annotated { so with regular := so.regular ++ [full] }

/-- A comma and further parameters, or the end of the list. -/
def nextParameter : Nat → String → Bool → ParamsSoFar → Parse ParamsSoFar
  | 0, _, _, _ => failure
  | n + 1, close, annotated, so => do
    if ← acceptOp "," then parametersFrom n close annotated so
    else if ← atOp close then return so
    else failure

/-- A parameter without its default. The annotation of one that takes further arguments may be
starred. -/
def parameter : Nat → Bool → Bool → Parse Param
  | 0, _, _ => failure
  | n + 1, annotated, star => do
    let paramName ← name
    let hasAnnotation ← if annotated then acceptOp ":" else pure false
    if hasAnnotation then
      let e ← if star then starExpression n else expression n
      return .mk paramName (some e.expr) none
    else return .mk paramName none none

end

end SourceAtlas.Grammar
