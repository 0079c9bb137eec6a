import SourceAtlas.Outline.Basic
import SourceAtlas.Pattern.Basic
import SourceAtlas.Source.Braces

/-!
# Go sources

Functions, methods, structures, interfaces and aliases are found line by line; what a declaration
covers is not looked at for others. A structure gets the methods that name it as their receiver, an
interface has those it lists. Comment lines directly above a declaration document it.
-/

set_option autoImplicit false

namespace SourceAtlas.Go

open SourceAtlas.Text
open Pattern (exactly noneOf wordChar many oneOrMore maybe word blanks gap firstOf)

/-! ## Literals and comments -/

/-- Where a character stands: in code, in a string, behind a backslash in a string, in a raw string,
in a block comment, or at the second character of a mark that opens or closes a comment. -/
inductive Mode where
  | code | string | escape | raw | comment | opening | closing
  deriving DecidableEq, Repr

/-- What a character is, by where it stands and what follows. -/
def read (m : Mode) (c : Char) (rest : List Char) : Reading Mode :=
  match m with
  | .comment => if c == '*' && rest.head? == some '/' then .pass .closing else .pass .comment
  | .opening => .pass .comment
  | .closing => .pass .code
  | .string => if c == '"' then .pass .code else if c == '\\' then .pass .escape else .pass .string
  | .escape => .pass .string
  | .raw => if c.toNat == 96 then .pass .code else .pass .raw
  | .code =>
    if c == '/' && rest.head? == some '/' then .comment
    else if c == '/' && rest.head? == some '*' then .pass .opening
    else if c == '"' then .pass .string
    else if c.toNat == 96 then .pass .raw
    else .code .code

/-- The mode of the next line. A raw string runs on over line breaks, a block comment is carried to
the next line, a string is not. -/
def carry : Mode → Option Mode
  | .raw => none
  | .comment => some .comment
  | .opening => some .comment
  | _ => some .code

/-- The literals and comments of Go. -/
def lexis : Lexis Mode := ⟨.code, read, carry⟩

/-! ## Lines without literals and comments -/

/-- The length of a raw string behind its opening quote, with the quote that closes it. -/
def rawLength (cs : List Char) : Nat := cs.findIdx (·.toNat == 96) + 1

/-- The length of a string behind its opening quote, with the quote that closes it. A backslash
takes the next character along, and a string that is not closed takes the rest of the line. -/
def stringLength : List Char → Nat
  | [] => 0
  | [_] => 1
  | c :: d :: cs =>
    if c == '"' then 1
    else if c == '\\' then stringLength cs + 2
    else stringLength (d :: cs) + 1

/-- The length of a block comment behind its opening mark, with the mark that closes it. -/
def commentLength? (cs : List Char) : Option Nat := (indexOf? "*/".toList cs).map (· + 2)

/-- What is code in a line behind the next `skip` characters. -/
def codeBehind : Nat → Line → Line
  | _, [] => []
  | skip + 1, _ :: cs => codeBehind skip cs
  | 0, c :: cs =>
    if c.toNat == 96 then codeBehind (rawLength cs) cs
    else if c == '"' then codeBehind (stringLength cs) cs
    else if c == '/' && cs.head? == some '/' then []
    else if c == '/' && cs.head? == some '*' then
      match commentLength? (cs.drop 1) with
      | some length => codeBehind (length + 1) cs
      | none => []
    else c :: codeBehind 0 cs

/-- A line without its strings and comments. -/
def codeOnly (line : Line) : Line := codeBehind 0 line

/-! ## Patterns -/

/-- An import on a line of its own. -/
def importPattern : Pattern :=
  blanks ++ exactly "import" ++ gap ++ maybe (.group 1 word ++ gap) ++ exactly "\"" ++
    .group 2 (oneOrMore (noneOf "\"")) ++ exactly "\""

/-- The head of a group of imports. -/
def importGroupPattern : Pattern := blanks ++ exactly "import" ++ blanks ++ exactly "("

/-- An import of a group. -/
def groupedImportPattern : Pattern :=
  blanks ++ maybe (.group 1 (firstOf [exactly ".", exactly "_", word]) ++ gap) ++ exactly "\"" ++
    .group 2 (oneOrMore (noneOf "\"")) ++ exactly "\""

/-- Type parameters in brackets, which may be left out. -/
def typeParameters : Pattern := maybe (exactly "[" ++ many (noneOf "]") ++ exactly "]" ++ blanks)

/-- A function: its name and its parameters. -/
def functionPattern : Pattern :=
  blanks ++ exactly "func" ++ gap ++ .group 1 word ++ blanks ++ typeParameters ++ exactly "(" ++
    .group 2 (many (noneOf ")")) ++ exactly ")"

/-- A method: the type of its receiver, its name and its parameters. -/
def methodPattern : Pattern :=
  blanks ++ exactly "func" ++ gap ++ exactly "(" ++ blanks ++ word ++ gap ++ maybe (exactly "*") ++
    .group 3 word ++ blanks ++ exactly ")" ++ blanks ++
    .group 1 word ++ blanks ++ typeParameters ++ exactly "(" ++ .group 2 (many (noneOf ")")) ++
      exactly ")"

/-- The head of a struct. -/
def structPattern : Pattern :=
  blanks ++ exactly "type" ++ gap ++ .group 1 word ++ gap ++ exactly "struct"

/-- The head of an interface. -/
def interfacePattern : Pattern :=
  blanks ++ exactly "type" ++ gap ++ .group 1 word ++ gap ++ exactly "interface"

/-- A type alias. -/
def aliasPattern : Pattern :=
  blanks ++ exactly "type" ++ gap ++ .group 1 word ++ blanks ++ exactly "=" ++ blanks ++
    .group 2 word

/-- A method of an interface. -/
def signaturePattern : Pattern :=
  .group 1 word ++ blanks ++ exactly "(" ++ .group 2 (many (noneOf ")")) ++ exactly ")"

/-! ## Imports -/

/-- The last step of a path. -/
def lastStep (path : List Char) : List Char :=
  match cutLast? '/' path with
  | some (_, step) => step
  | none => path

/-- An import by its path and alias. Without an alias it brings the last step of its path. -/
def importItem (path : List Char) (newName : Option (List Char)) (index : Nat) : ImportItem :=
  let names := if newName.isSome then [] else [String.ofList (lastStep path)]
  ⟨String.ofList path, names, newName.map String.ofList, index + 1, false⟩

/-- The import on a line that is not in a group. -/
def import? (p : Place) : Option ImportItem :=
  match importPattern.atHead? p.stripped with
  | some m =>
    if (p.stripped.takeWhile (· != '"')).contains '(' then none
    else some (importItem (groupText m 2) (m.group? 1) p.index)
  | none => none

/-- The import on a line of a group. -/
def groupedImport? (p : Place) : Option ImportItem :=
  (groupedImportPattern.atHead? p.stripped).map fun m =>
    importItem (groupText m 2) (m.group? 1) p.index

/-- Does the line end a group? -/
def endsGroup (p : Place) : Bool := p.stripped == [')']

/-- The imports of a source, and whether the next line is inside a group. -/
def importStep : Bool → List Place → List ImportItem
  | _, [] => []
  | true, p :: ps =>
    if endsGroup p then importStep false ps else (groupedImport? p).toList ++ importStep true ps
  | false, p :: ps =>
    match import? p with
    | some i => i :: importStep false ps
    | none => importStep (importGroupPattern.atHead? p.stripped).isSome ps

/-! ## Parameters and documentation -/

/-- The name in a piece of a parameter list. A piece of one word is a type, and so is a first word
that starts like one. -/
def parameterName? (piece : List Char) : Option String :=
  match words piece with
  | name :: _ :: _ =>
    if name == "...".toList then none
    else if startsWith "...".toList name then some (String.ofList (name.dropWhile (· == '.')))
    else if name.head?.any isUpper || startsWith ['*'] name || startsWith "[]".toList name then none
    else some (String.ofList name)
  | _ => none

/-- The names in a parameter list. -/
def parameterNames (raw : List Char) : List String := readPieces parameterName? raw

/-- Is the line a comment? -/
def isComment (stripped : Line) : Bool := startsWith "//".toList stripped

/-- The comment lines directly above a place. -/
def documentation? (p : Place) : Option String :=
  commentText? 2 ((p.before.map trim).takeWhile isComment).reverse

/-! ## Declarations -/

/-- A declaration: a function or method, or a type with the methods it lists. -/
inductive Declaration where
  | callable (f : Callable)
  | type (c : ClassItem)
  deriving Repr

/-- Lines that hold nothing for the outline of a body. -/
def isIdle (stripped : Line) : Bool :=
  stripped.isEmpty || isComment stripped || stripped == ['\x7d']

/-- The lines between the first and the last line of a declaration. -/
def bodyPlaces (p : Place) (extent : Nat) : List Place :=
  (p.following.take (extent - 1)).filter fun q => !isIdle q.stripped

/-- A type that stands alone on a line of a body: it is embedded if it starts with a capital
letter. -/
def embedded? (q : Place) : Option String :=
  match words q.stripped with
  | [single] =>
    let name := single.dropWhile (· == '*')
    if name.head?.any isUpper then some (String.ofList name) else none
  | _ => none

/-- The method that a line of an interface lists. -/
def signature? (parent : String) (q : Place) : Option Callable :=
  (signaturePattern.atHead? q.stripped).map fun m =>
    .method parent (groupString m 1) ⟨q.index + 1, q.index + 1⟩ (parameterNames (groupText m 2)) []
      none

/-- The number of further lines that a declaration with a body covers. -/
def extent (p : Place) : Nat := if p.opensSoon then lexis.extent p else 0

/-- The function or method that starts on a line. -/
def callable? (p : Place) : Option Callable :=
  match methodPattern.atHead? p.stripped with
  | some m =>
    some (.method (groupString m 3) (groupString m 1) (spanOf p (extent p))
      (parameterNames (groupText m 2)) [] (documentation? p))
  | none =>
    (functionPattern.atHead? p.stripped).map fun m =>
      .plain (groupString m 1) (spanOf p (extent p)) (parameterNames (groupText m 2)) []
        (documentation? p)

/-- The type that starts on a line, and the number of further lines it covers. -/
def type? (p : Place) : Option (ClassItem × Nat) :=
  let body := bodyPlaces p (extent p)
  match structPattern.atHead? p.stripped with
  | some m =>
    some (⟨groupString m 1, spanOf p (extent p), body.filterMap embedded?, [], [],
      documentation? p⟩, extent p)
  | none =>
    match interfacePattern.atHead? p.stripped with
    | some m =>
      let name := groupString m 1
      some (⟨name, spanOf p (extent p), body.filterMap embedded?, body.filterMap (signature? name),
        [], documentation? p⟩, extent p)
    | none =>
      (aliasPattern.atHead? p.stripped).map fun m =>
        (⟨groupString m 1, spanOf p 0, [groupString m 2], [], [], documentation? p⟩, 0)

/-- The number of lines that an import statement covers after its first: those of a group up to its
closing parenthesis. -/
def importExtent (p : Place) : Nat :=
  if p.has '(' then (p.distance? (·.contains ')')).getD p.after.length else 0

/-- The declarations that start on a line, and the number of further lines that it covers. -/
def declarationAt (p : Place) : List Declaration × Nat :=
  if p.stripped.isEmpty || isComment p.stripped || startsWith "/*".toList p.stripped then ([], 0)
  else if startsWith "import".toList p.stripped then ([], importExtent p)
  else
    match callable? p with
    | some f => ([.callable f], extent p)
    | none =>
      match type? p with
      | some (c, extent) => ([.type c], extent)
      | none => ([], 0)

/-- The declarations of a source. -/
def declarations (lines : List Line) : List Declaration :=
  Place.collect declarationAt 0 (Place.all lines)

/-- The functions of a declaration: itself, or the methods that an interface lists. -/
def Declaration.callables : Declaration → List Callable
  | .callable f => [f]
  | .type c => c.methods

/-- The type that is declared. -/
def Declaration.type? : Declaration → Option ClassItem
  | .callable _ => none
  | .type c => some c

/-- A type that lists no methods gets those that name it as their receiver. -/
def attach (functions : List Callable) (c : ClassItem) : ClassItem :=
  if c.methods.isEmpty then
    { c with methods := functions.filter fun f => f.isMethod && f.parent == some c.name }
  else c

/-- The outline of a source. -/
def outline (sourceName : String) (text : List Char) : Outline :=
  let lines := splitNewlines text
  let found := declarations lines
  let functions := found.flatMap Declaration.callables
  { Outline.ofLines sourceName text lines with
    functions := functions
    classes := (found.filterMap Declaration.type?).map (attach functions)
    imports := importStep false (Place.all lines) }

end SourceAtlas.Go
