import SourceAtlas.Grammar.Expr
import SourceAtlas.Grammar.Numeral
import SourceAtlas.Number.Binary64
import SourceAtlas.Text.Quoted

/-!
# Descriptions of expressions

An expression without a name of its own is described by its tree: the kind of each node with its
fields in a fixed order, a field that is absent left out. A name, attribute, subscript, star, tuple
or list also says whether it is read or assigned.
-/

set_option autoImplicit false

namespace SourceAtlas.Grammar

open SourceAtlas.Text

/-- A node with those of its fields that have a text. -/
def nodeText (kind : String) (fields : List (String × Option String)) : String :=
  let present := fields.filterMap fun (field, text?) => text?.map fun text => field ++ "=" ++ text
  kind ++ "(" ++ ", ".intercalate present ++ ")"

/-- A list of texts. -/
def listText (items : List String) : String := "[" ++ ", ".intercalate items ++ "]"

/-- A name as a literal. -/
def quotedText (s : String) : String := String.ofList (quoted s.toList)

/-- The value of the digits of a numeral in a base, underscores left out. -/
def digitsIn (base : Nat) (ds : List Char) : Nat :=
  ds.foldl (fun n d => if d == '_' then n else n * base + (hexDigit? d).getD 0) 0

/-- The number nearest to a decimal numeral with a point or an exponent. -/
def decimalValue (literal : List Char) : Binary64 :=
  let ds := literal.filter (· != '_')
  let isExponent := fun c => c == 'e' || c == 'E'
  let significand := ds.takeWhile fun c => !isExponent c
  let power := (ds.dropWhile fun c => !isExponent c).drop 1
  let whole := significand.takeWhile (· != '.')
  let fraction := (significand.dropWhile (· != '.')).drop 1
  let exponent : Int :=
    match power with
    | '-' :: p => -(digitsIn 10 p : Int)
    | '+' :: p => digitsIn 10 p
    | p => digitsIn 10 p
  Binary64.ofDecimal (digitsIn 10 (whole ++ fraction)) (exponent - fraction.length)

/-- The value of a numeral, written in full: an integer in decimal, a fraction by its shortest
digits, an imaginary number with its sign. -/
def numeralText (literal : List Char) : String :=
  match literal with
  | '0' :: c :: rest =>
    if c == 'x' || c == 'X' then toString (digitsIn 16 rest)
    else if c == 'o' || c == 'O' then toString (digitsIn 8 rest)
    else if c == 'b' || c == 'B' then toString (digitsIn 2 rest)
    else decimalText literal
  | _ => decimalText literal
where
  /-- The text of a decimal numeral. -/
  decimalText (literal : List Char) : String :=
    match literal.getLast? with
    | some 'j' | some 'J' =>
      String.ofList ((decimalValue literal.dropLast).shortestText false ++ ['j'])
    | _ =>
      if literal.any (fun c => c == '.' || c == 'e' || c == 'E') then
        String.ofList ((decimalValue literal).shortestText true)
      else toString (digitsIn 10 literal)

/-- A literal value. -/
def Constant.describe : Constant → String
  | .none => nodeText "Constant" [("value", some "None")]
  | .true => nodeText "Constant" [("value", some "True")]
  | .false => nodeText "Constant" [("value", some "False")]
  | .ellipsis => nodeText "Constant" [("value", some "Ellipsis")]
  | .number literal => nodeText "Constant" [("value", some (numeralText literal))]
  | .text codes marked =>
    nodeText "Constant"
      [("value", some (String.ofList (quotedCodes codes))),
        ("kind", if marked then some "'u'" else Option.none)]
  | .bytes values => nodeText "Constant" [("value", some (String.ofList (quotedBytes values)))]

/-- What an expression is for: to be read or to be assigned. -/
inductive Role where
  | load | store
  deriving DecidableEq, Repr

/-- The text of a role. -/
def Role.describe : Role → String
  | .load => "Load()"
  | .store => "Store()"

/-- The kind of a comprehension's node. -/
def Display.kind : Display → String
  | .list => "ListComp"
  | .set => "SetComp"
  | .dict => "DictComp"
  | .generator => "GeneratorExp"

mutual

/-- The text of an expression in a role. -/
def Expr.describe : Expr → Role → String
  | .name id, r => nodeText "Name" [("id", some (quotedText id)), ("ctx", some r.describe)]
  | .constant value, _ => value.describe
  | .attribute value attr, r =>
    nodeText "Attribute"
      [("value", some (value.describe .load)), ("attr", some (quotedText attr)),
        ("ctx", some r.describe)]
  | .subscript value index, r =>
    nodeText "Subscript"
      [("value", some (value.describe .load)), ("slice", some (index.describe .load)),
        ("ctx", some r.describe)]
  | .call func args keywords, _ =>
    nodeText "Call"
      [("func", some (func.describe .load)), ("args", some (listText (describeAll args .load))),
      ("keywords", some (listText (describeKeywords keywords)))]
  | .starred value, r =>
    nodeText "Starred" [("value", some (value.describe r)), ("ctx", some r.describe)]
  | .unary op operand, _ =>
    nodeText "UnaryOp" [("op", some (op ++ "()")), ("operand", some (operand.describe .load))]
  | .binary op left right, _ =>
    nodeText "BinOp"
      [("left", some (left.describe .load)), ("op", some (op ++ "()")),
        ("right", some (right.describe .load))]
  | .boolean op values, _ =>
    nodeText "BoolOp"
      [("op", some (op ++ "()")), ("values", some (listText (describeAll values .load)))]
  | .compare left ops comparators, _ =>
    nodeText "Compare"
      [("left", some (left.describe .load)), ("ops", some (listText (ops.map (· ++ "()")))),
      ("comparators", some (listText (describeAll comparators .load)))]
  | .conditional test body orelse, _ =>
    nodeText "IfExp" [("test", some (test.describe .load)), ("body", some (body.describe .load)),
      ("orelse", some (orelse.describe .load))]
  | .named target value, _ =>
    let name := nodeText "Name" [("id", some (quotedText target)), ("ctx", some "Store()")]
    nodeText "NamedExpr" [("target", some name), ("value", some (value.describe .load))]
  | .lambda params body, _ =>
    nodeText "Lambda" [("args", some params.describe), ("body", some (body.describe .load))]
  | .tuple items, r =>
    nodeText "Tuple" [("elts", some (listText (describeAll items r))), ("ctx", some r.describe)]
  | .list items, r =>
    nodeText "List" [("elts", some (listText (describeAll items r))), ("ctx", some r.describe)]
  | .set items, _ => nodeText "Set" [("elts", some (listText (describeAll items .load)))]
  | .dict items, _ =>
    nodeText "Dict"
      [("keys", some (listText (describeKeys items))),
        ("values", some (listText (describeValues items)))]
  | .comprehension display element value clauses, _ =>
    let generators := ("generators", some (listText (describeClauses clauses)))
    match describeOption value with
    | some v =>
      nodeText display.kind [("key", some (element.describe .load)), ("value", some v), generators]
    | none => nodeText display.kind [("elt", some (element.describe .load)), generators]
  | .await value, _ => nodeText "Await" [("value", some (value.describe .load))]
  | .yield value, _ => nodeText "Yield" [("value", describeOption value)]
  | .yieldFrom value, _ => nodeText "YieldFrom" [("value", some (value.describe .load))]
  | .slice lower upper step, _ =>
    nodeText "Slice"
      [("lower", describeOption lower), ("upper", describeOption upper),
        ("step", describeOption step)]
  | .formatted value conversion spec, _ =>
    let code := match conversion with | some c => toString c.toNat | none => "-1"
    nodeText "FormattedValue"
      [("value", some (value.describe .load)), ("conversion", some code),
        ("format_spec", describeOption spec)]
  | .joined parts, _ => nodeText "JoinedStr" [("values", some (listText (describeAll parts .load)))]

/-- The texts of expressions in a role. -/
def describeAll : List Expr → Role → List String
  | [], _ => []
  | e :: es, r => e.describe r :: describeAll es r

/-- The text of an expression that may be missing. -/
def describeOption : Option Expr → Option String
  | .none => .none
  | .some e => .some (e.describe .load)

/-- The texts of keyword arguments. -/
def describeKeywords : List Keyword → List String
  | [] => []
  | .mk arg value :: ks =>
    nodeText "keyword" [("arg", arg.map quotedText), ("value", some (value.describe .load))] ::
      describeKeywords ks

/-- The texts of the keys of a dictionary. -/
def describeKeys : List DictItem → List String
  | [] => []
  | .mk key _ :: rest => (describeOption key).getD "None" :: describeKeys rest

/-- The descriptions of the values of dictionary entries. -/
def describeValues : List DictItem → List String
  | [] => []
  | .mk _ value :: rest => value.describe .load :: describeValues rest

/-- The texts of the clauses of a comprehension. -/
def describeClauses : List Clause → List String
  | [] => []
  | .mk target iter conditions isAsync :: rest =>
    nodeText "comprehension"
      [("target", some (target.describe .store)), ("iter", some (iter.describe .load)),
      ("ifs", some (listText (describeAll conditions .load))),
        ("is_async", some (if isAsync then "1" else "0"))] ::
      describeClauses rest

/-- The descriptions of parameters, without their defaults. -/
def describeParams : List Param → List String
  | [] => []
  | .mk name hint _ :: rest =>
    nodeText "arg" [("arg", some (quotedText name)), ("annotation", describeOption hint)] ::
      describeParams rest

/-- The text of a parameter that may be missing. -/
def describeParam : Option Param → Option String
  | .none => .none
  | .some (.mk name hint _) =>
    .some (nodeText "arg" [("arg", some (quotedText name)), ("annotation", describeOption hint)])

/-- The descriptions of the defaults of parameters, in place. -/
def describeDefaults : List Param → List (Option String)
  | [] => []
  | .mk _ _ default :: rest => describeOption default :: describeDefaults rest

/-- The text of a parameter list. -/
def Params.describe : Params → String
  | .mk positional regular extra namedOnly extraNamed =>
    nodeText "arguments" [("posonlyargs", some (listText (describeParams positional))),
      ("args", some (listText (describeParams regular))), ("vararg", describeParam extra),
      ("kwonlyargs", some (listText (describeParams namedOnly))),
      ("kw_defaults", some (listText ((describeDefaults namedOnly).map (·.getD "None")))),
      ("kwarg", describeParam extraNamed),
      ("defaults",
        some (listText ((describeDefaults positional ++ describeDefaults regular).filterMap id)))]

end

end SourceAtlas.Grammar
