import SourceAtlas.Outline.Basic
import SourceAtlas.Pattern.Basic
import SourceAtlas.Source.Braces

/-!
# C# sources

A first sweep finds the types and the methods in them, a second one the functions on the lines that
no type has covered. Types inside of a type are passed over. Attributes and documentation comments
directly above an item belong to it.
-/

set_option autoImplicit false

namespace SourceAtlas.CSharp

open SourceAtlas.Text
open Pattern
  (exactly noneOf many oneOrMore fewest maybe word blanks gap firstOf wordsOf ofItems wordItem
    blankItem item)

/-! ## Literals and comments -/

/-- Where a character stands: in code, in a string, behind a backslash in a string, in a verbatim
string, in a comment, or among characters of which so many are still to be passed over before a
mode. -/
inductive Mode where
  | code
  | string
  | escape
  | verbatim
  | comment
  | passing (count : Nat) (next : Mode)
  deriving DecidableEq, Repr

/-- The number of characters behind a sign that open a verbatim string. -/
def verbatimMark? (c : Char) (rest : List Char) : Option Nat :=
  match c, rest with
  | '$', '@' :: '"' :: _ => some 2
  | '@', '$' :: '"' :: _ => some 2
  | '@', '"' :: _ => some 1
  | _, _ => none

/-- What a character is, by where it stands and what follows. -/
def read (m : Mode) (c : Char) (rest : List Char) : Reading Mode :=
  match m with
  | .comment =>
    if c == '*' && rest.head? == some '/' then .pass (.passing 1 .code) else .pass .comment
  | .passing count next => .pass (if count ≤ 1 then next else .passing (count - 1) next)
  | .string => if c == '\\' then .pass .escape else if c == '"' then .pass .code else .pass .string
  | .escape => .pass .string
  | .verbatim =>
    if c != '"' then .pass .verbatim
    else if rest.head? == some '"' then .pass (.passing 1 .verbatim)
    else .pass .code
  | .code =>
    if c == '/' && rest.head? == some '/' then .comment
    else if c == '/' && rest.head? == some '*' then .pass (.passing 1 .comment)
    else if c == '"' then .pass .string
    else
      match verbatimMark? c rest with
      | some count => .pass (.passing count .verbatim)
      | none =>
        if c == '\'' then
          match charLength? rest with
          | some count => .pass (.passing count .code)
          | none => .code .code
        else .code .code

/-- The mode of the next line. A verbatim string runs on over line breaks, a comment is carried to
the next line, a string is not. -/
def carry : Mode → Option Mode
  | .verbatim => none
  | .comment => some .comment
  | _ => some .code

/-- The literals and comments of C#. -/
def lexis : Lexis Mode := ⟨.code, read, carry⟩

/-! ## Patterns -/

/-- The head of a using directive. -/
def usingHead : Pattern := blanks ++ maybe (exactly "global" ++ gap) ++ exactly "using" ++ gap

/-- A using directive with an alias. -/
def usingAliasPattern : Pattern :=
  usingHead ++ .group 1 word ++ blanks ++ exactly "=" ++ blanks ++
    .group 2 (oneOrMore (noneOf ";")) ++ exactly ";"

/-- A using directive for the members of a type. -/
def usingStaticPattern : Pattern :=
  usingHead ++ exactly "static" ++ gap ++ .group 1 (oneOrMore (noneOf ";")) ++ exactly ";"

/-- A using directive for a namespace. -/
def usingPattern : Pattern := usingHead ++ .group 1 (oneOrMore (noneOf ";=")) ++ exactly ";"

/-- The head of a namespace. -/
def namespacePattern : Pattern :=
  blanks ++ exactly "namespace" ++ gap ++ .group 1 (oneOrMore (ofItems [wordItem, item '.'] false))

/-- Type parameters in angle brackets, which may be left out. -/
def typeParameters : Pattern := maybe (exactly "<" ++ many (noneOf ">") ++ exactly ">")

/-- The head of a type: its kind, its name and its bases. -/
def typePattern : Pattern :=
  blanks ++
    many (wordsOf ["public", "private", "protected", "internal", "static", "abstract", "sealed",
      "partial", "new", "readonly", "unsafe"] ++ gap) ++
    maybe (exactly "record" ++ gap) ++
    .group 1 (wordsOf ["class", "interface", "struct", "enum", "record"]) ++ gap ++
    .group 2 word ++ typeParameters ++
    maybe (blanks ++ exactly "(" ++ many (noneOf ")") ++ exactly ")") ++
    maybe (blanks ++ exactly ":" ++ blanks ++ .group 3 (fewest (noneOf "\x7b;"))) ++ blanks ++
    firstOf [exactly "\x7b", exactly ";", exactly "where" ++ Pattern.blank]

/-- The head of a method up to its opening parenthesis: modifiers, a type that may be left out, and
the name. -/
def methodPattern : Pattern :=
  blanks ++
    many
      (wordsOf ["public", "private", "protected", "internal", "static", "abstract", "virtual",
        "override", "sealed", "async", "extern", "new", "partial", "unsafe", "readonly"] ++ gap) ++
    maybe
      (fewest
        (ofItems
          [wordItem, item '<', item '>', item '[', item ']', item '?', item ',', item '.',
            blankItem] false) ++ gap) ++
    .group 1 word ++ blanks ++ typeParameters ++ blanks ++ exactly "("

/-- The name of an attribute. -/
def attributePattern : Pattern := exactly "[" ++ .group 1 word

/-! ## Imports -/

/-- Is the line a using directive? -/
def isUsing (stripped : Line) : Bool :=
  startsWith "using ".toList stripped || startsWith "global using ".toList stripped

/-- The import on a line: an alias, the members of a type, or a namespace. -/
def import? (p : Place) : Option ImportItem :=
  let line : Int := p.index + 1
  if !isUsing p.stripped then none
  else
    match usingAliasPattern.atHead? p.stripped with
    | some m => some ⟨String.ofList (trim (groupText m 2)), [], some (groupString m 1), line, false⟩
    | none =>
      match usingStaticPattern.atHead? p.stripped with
      | some m => some ⟨String.ofList (trim (groupText m 1)), ["*"], none, line, true⟩
      | none =>
        match usingPattern.atHead? p.stripped with
        | some m =>
          let source := trim (groupText m 1)
          if startsWith ['('] source || startsWith "var ".toList source then none
          else some ⟨String.ofList source, [], none, line, false⟩
        | none => none

/-! ## Parameters, attributes and documentation -/

/-- The pieces of a parameter list between the commas outside of brackets; `depth` brackets are open
and `piece` is what was read of the current piece, the last character first. -/
def pieces (depth : Int) (piece : List Char) : List Char → List (List Char)
  | [] => [piece.reverse]
  | c :: cs =>
    if c == '<' || c == '(' then pieces (depth + 1) (c :: piece) cs
    else if c == '>' || c == ')' then pieces (depth - 1) (c :: piece) cs
    else if c == ',' && depth == 0 then piece.reverse :: pieces depth [] cs
    else pieces depth (c :: piece) cs

/-- The words in front of a parameter's type. -/
def modifiers : List String := ["ref ", "out ", "in ", "params ", "this "]

/-- The parameter without the words in front of its type, each of them looked for once and in
order. -/
def withoutModifiers (piece : List Char) : List Char := modifiers.foldl dropWord piece

/-- A parameter without its default. -/
def withoutDefault (piece : List Char) : List Char :=
  match cutAt? ['='] piece with
  | some (c :: before, _) => trim (c :: before)
  | _ => piece

/-- The name of a parameter. -/
def parameterName? (piece : List Char) : Option String :=
  match (words (withoutDefault (withoutModifiers (trim piece)))).getLast? with
  | some word =>
    let name := dropEndWhile (fun c => c == '[' || c == ']') word
    if isIdentifier name then some (String.ofList name) else none
  | none => none

/-- The names in a parameter list. -/
def parameterNames (raw : List Char) : List String := (pieces 0 [] raw).filterMap parameterName?

/-- Is the line an attribute? -/
def isAttribute (stripped : Line) : Bool := startsWith ['['] stripped && stripped.contains ']'

/-- The attributes above a line. -/
def attributes (p : Place) : List String :=
  ((preamble isAttribute p).filter (!isDocumentation ·)).filterMap fun l =>
    (attributePattern.atHead? l).map (groupString · 1)

/-- The documentation above a line. -/
def documentation? (p : Place) : Option String :=
  commentText? 3 ((preamble isAttribute p).filter isDocumentation)

/-! ## Items -/

/-- Words that look like the name of a method and are none. -/
def notMethods : List String :=
  ["if", "else", "for", "foreach", "while", "switch", "return", "new", "throw", "using", "lock",
    "catch", "typeof", "sizeof", "nameof", "default", "when", "where", "yield", "await", "checked",
    "unchecked", "fixed", "stackalloc", "base", "this", "var", "get", "set", "add", "remove",
    "value", "from", "select", "group", "into", "orderby", "join", "let", "on", "equals", "by",
    "ascending", "descending"]

/-- The name of the method that a line declares. -/
def methodName? (stripped : Line) : Option String :=
  if stripped.contains '(' then
    match methodPattern.atHead? stripped with
    | some m => if notMethods.contains (groupString m 1) then none else some (groupString m 1)
    | none => none
  else none

/-- Does the line open a block? -/
def opens (line : Line) : Bool := line.contains '\x7b'

/-- The number of lines from a place to the end of the block that opens on its first line, as many
lines further on as given. -/
def blockExtent (p : Place) (distance : Nat) : Nat :=
  match p.onward.drop distance with
  | [] => p.after.length
  | line :: after => distance + lexis.extent ⟨p.index + distance, [], line, after⟩

/-- The number of further lines of a method, of which `room` lines follow in its type: the block
that opens within four lines, or else the lines up to the first semicolon. -/
def methodExtent (p : Place) (room : Nat) : Nat :=
  match ((p.onward.take (min 3 room + 1)).findIdx? opens) with
  | some distance => blockExtent p distance
  | none => ((p.onward.take room).findIdx? (·.contains ';')).getD room

/-- What the sweeps have found, and the lines they have covered. -/
structure Findings where
  functions : List Callable
  classes : List ClassItem
  covered : Covered

/-- The lines from a place on are covered. -/
def Findings.cover (found : Findings) (p : Place) (extent : Nat) : Findings :=
  { found with covered := (p.index, p.index + extent) :: found.covered }

/-- The line holds no item: it is blank, a comment or an attribute. -/
def isIdle (stripped : Line) : Bool :=
  stripped.isEmpty || startsWith "//".toList stripped || startsWith "/*".toList stripped ||
    startsWith ['['] stripped

/-- The findings inside a type: the methods so far, and the lines covered. -/
structure Members where
  methods : List Callable
  covered : Covered

/-- A line inside the type `typeName`, whose last line has the index `last`. -/
def memberStep (typeName : String) (last : Nat) (found : Members) (q : Place) : Members × Nat :=
  if last ≤ q.index || found.covered.mem q.index then (found, 0)
  else if (typePattern.atHead? q.stripped).isSome then
    if q.opensSoon then
      let extent := lexis.extent q
      ({ found with covered := (q.index, q.index + extent) :: found.covered }, extent)
    else (found, 0)
  else if isIdle q.stripped then (found, 0)
  else
    match methodName? q.stripped with
    | none => (found, 0)
    | some name =>
      let extent := methodExtent q (last - q.index)
      let f :=
        Callable.method typeName name (spanOf q extent) (parameterNames (Parens.textAt q))
          (attributes q) (documentation? q)
      (⟨found.methods ++ [f], (q.index, q.index + extent) :: found.covered⟩, extent)

/-- The name of a base; it starts with a capital letter. -/
def baseName? (piece : List Char) : Option String :=
  let name := trim (withoutGenerics (trim piece))
  if startsWith "where ".toList name then none
  else if name.head?.any isUpper then some (String.ofList name)
  else none

/-- How far a type reaches: to the end of its block, or without a block so many lines. -/
inductive TypeExtent where
  | block (extent : Nat)
  | bare (extent : Nat)
  deriving DecidableEq, Repr

/-- The extent of the type that starts on a line. A brace or a semicolon may come on a later line,
after conditions. -/
def typeExtent (p : Place) : TypeExtent :=
  if p.opensSoon then .block (lexis.extent p)
  else if p.stripped.getLast? == some ';' then .block 0
  else
    match p.after.findIdx? fun line => opens line || line.contains ';' with
    | some k => if (p.after[k]?).any opens then .block (blockExtent p (k + 1)) else .bare (k + 1)
    | none => .bare 0

/-- One more class is found. -/
def Findings.addClass (found : Findings) (p : Place) (m : Cursor) (extent : Nat)
    (methods : List Callable) : Findings :=
  let bases := (splitOn ',' (groupText m 3)).filterMap baseName?
  let item : ClassItem :=
    ⟨groupString m 2, spanOf p extent, bases, methods, attributes p, documentation? p⟩
  { found with classes := found.classes ++ [item] }

/-- The type that starts on a line, added to the findings, and the number of further lines it
covers. -/
def typeAt (found : Findings) (p : Place) (m : Cursor) : Findings × Nat :=
  match typeExtent p with
  | .bare extent => ((found.addClass p m extent []).cover p extent, extent)
  | .block extent =>
    let members : Members :=
      if groupString m 1 == "enum" then ⟨[], found.covered⟩
      else Place.sweep (memberStep (groupString m 2) (p.index + extent)) 0 ⟨[], found.covered⟩
        p.following
    let grown :=
      { found with functions := found.functions ++ members.methods, covered := members.covered }
    ((grown.addClass p m extent members.methods).cover p extent, extent)

/-- The number of further lines that the head of a namespace covers: the next line, if the brace
stands there. -/
def namespaceExtent (p : Place) : Nat :=
  if p.stripped.getLast? == some ';' || p.has '\x7b' then 0
  else if p.after.head?.any opens then 1
  else 0

/-- The first sweep: types with their methods. -/
def typeStep (found : Findings) (p : Place) : Findings × Nat :=
  if found.covered.mem p.index || isIdle p.stripped || isUsing p.stripped then (found, 0)
  else if (namespacePattern.atHead? p.stripped).isSome then (found, namespaceExtent p)
  else
    match typePattern.atHead? p.stripped with
    | some m => typeAt found p m
    | none => (found, 0)

/-- The second sweep: functions on lines that are not covered. -/
def functionStep (found : Findings) (p : Place) : Findings × Nat :=
  if found.covered.mem p.index || isIdle p.stripped || isUsing p.stripped ||
      startsWith "namespace ".toList p.stripped then
    (found, 0)
  else
    match methodName? p.stripped with
    | none => (found, 0)
    | some name =>
      let extent := methodExtent p p.after.length
      let f :=
        Callable.plain name (spanOf p extent) (parameterNames (Parens.textAt p)) (attributes p)
          (documentation? p)
      ({ found with functions := found.functions ++ [f] }.cover p extent, extent)

/-- The outline of a source. -/
def outline (sourceName : String) (text : List Char) : Outline :=
  let lines := splitNewlines text
  let places := Place.all lines
  let found := Place.sweep functionStep 0 (Place.sweep typeStep 0 ⟨[], [], []⟩ places) places
  { Outline.ofLines sourceName text lines with
    functions := found.functions
    classes := found.classes
    imports := places.filterMap import? }

end SourceAtlas.CSharp
