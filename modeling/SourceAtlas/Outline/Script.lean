import SourceAtlas.Outline.Basic
import SourceAtlas.Pattern.Basic
import SourceAtlas.Source.Braces

/-!
# TypeScript and JavaScript sources

Classes, interfaces and type aliases are found line by line, then the methods on the lines inside
each of them, then the functions on the lines outside. Every brace counts, also one in a literal or
a comment. Two classes of one name share their methods.
-/

set_option autoImplicit false

namespace SourceAtlas.Script

open SourceAtlas.Text
open Pattern
  (exactly oneOf noneOf wordChar anyChar many oneOrMore fewest maybe word blanks gap firstOf wordsOf
    ofItems wordItem blankItem item)

/-! ## Patterns -/

/-- A quote of either kind. -/
def quoteMark : Pattern := oneOf "'\""

/-- What an import takes: names in braces, everything under one name, a default, or a default and
names. -/
def importPattern : Pattern :=
  exactly "import" ++ gap ++
    firstOf
      [maybe (exactly "type" ++ gap) ++ exactly "\x7b" ++ .group 1 (many (noneOf "\x7d")) ++
        exactly "\x7d" ++ gap ++ exactly "from" ++ gap,
        .group 2 (exactly "*" ++ gap ++ exactly "as" ++ gap ++ word) ++ gap ++ exactly "from" ++
          gap,
        .group 3 word ++ gap ++ exactly "from" ++ gap,
        .group 4 word ++ blanks ++ exactly "," ++ blanks ++ exactly "\x7b" ++
          .group 5 (many (noneOf "\x7d")) ++ exactly "\x7d" ++ gap ++
          exactly "from" ++ gap] ++
    quoteMark ++ .group 6 (oneOrMore (noneOf "'\"")) ++ quoteMark

/-- An import for its effects only. -/
def effectPattern : Pattern :=
  exactly "import" ++ gap ++ quoteMark ++ .group 1 (oneOrMore (noneOf "'\"")) ++ quoteMark

/-- The word `export`, which may be left out. -/
def exported : Pattern := maybe (exactly "export" ++ gap)

/-- Parameters up to the first closing parenthesis, captured as the second group. -/
def parameterList : Pattern := exactly "(" ++ .group 2 (many (noneOf ")")) ++ exactly ")"

/-- The head of a function. -/
def functionPattern : Pattern :=
  exported ++ maybe (exactly "async" ++ gap) ++ exactly "function" ++ gap ++ .group 1 word ++
    blanks ++ parameterList

/-- A variable that is bound to an arrow function. -/
def arrowPattern : Pattern :=
  exported ++ wordsOf ["const", "let", "var"] ++ gap ++ .group 1 word ++ blanks ++ exactly "=" ++
    blanks ++ maybe (exactly "async" ++ gap) ++
    parameterList ++ blanks ++ maybe (exactly ":" ++ blanks ++ fewest (noneOf "=")) ++ blanks ++
      exactly "=>"

/-- An indented name with parameters behind it. -/
def methodPattern : Pattern :=
  gap ++ many (wordsOf ["public", "private", "protected", "static", "async", "readonly", "abstract",
    "override", "get", "set"] ++ gap) ++
    .group 1 word ++ blanks ++ parameterList

/-- A list of names with dots and commas. -/
def nameList : Pattern := oneOrMore (ofItems [wordItem, item '.', item ',', blankItem] false)

/-- The head of a class. -/
def classPattern : Pattern :=
  exported ++ maybe (exactly "abstract" ++ gap) ++ exactly "class" ++ gap ++ .group 1 word ++
    maybe
      (gap ++ exactly "extends" ++ gap ++
        .group 2 (oneOrMore (ofItems [wordItem, item '.'] false))) ++
    maybe (gap ++ exactly "implements" ++ gap ++ .group 3 nameList)

/-- The head of an interface. -/
def interfacePattern : Pattern :=
  exported ++ exactly "interface" ++ gap ++ .group 1 word ++
    maybe (gap ++ exactly "extends" ++ gap ++ .group 2 nameList)

/-- The head of a type alias. -/
def aliasPattern : Pattern :=
  exported ++ exactly "type" ++ gap ++ .group 1 word ++ blanks ++
    maybe (exactly "<" ++ many (noneOf ">") ++ exactly ">") ++ blanks ++ exactly "="

/-! ## Imports and parameters -/

/-- The pieces between commas, trimmed, without the empty ones. -/
def commaPieces (cs : List Char) : List (List Char) :=
  ((splitOn ',' cs).map trim).filter (!·.isEmpty)

/-- The names in the braces of an import, without the names they are given. -/
def importedNames (cs : List Char) : List String :=
  (commaPieces cs).map fun piece =>
    String.ofList (trim ((splitOnText " as ".toList piece).headD []))

/-- The name behind the last `as`. -/
def nameAfterAs (cs : List Char) : String :=
  String.ofList (trim ((splitOnText "as".toList cs).getLastD []))

/-- The names and the alias that a match of `importPattern` gives. -/
def importedAs (m : Cursor) : List String × Option String :=
  match m.group? 1, m.group? 2, m.group? 3, m.group? 4 with
  | some names, _, _, _ => (importedNames names, none)
  | _, some everything, _, _ => ([], some (nameAfterAs everything))
  | _, _, some default, _ => ([], some (String.ofList default))
  | _, _, _, some default =>
    (((m.group? 5).map importedNames).getD [], some (String.ofList default))
  | _, _, _, _ => ([], none)

/-- The import on a line. -/
def import? (p : Place) : Option ImportItem :=
  match importPattern.atHead? p.stripped with
  | some m =>
    let (names, newName) := importedAs m
    some ⟨String.ofList ((m.group? 6).getD []), names, newName, p.index + 1, true⟩
  | none =>
    (effectPattern.atHead? p.stripped).map fun m =>
      ⟨String.ofList ((m.group? 1).getD []), [], none, p.index + 1, false⟩

/-- The end of a parameter's name: a colon, a blank, an equals sign or a question mark. -/
def endsName (c : Char) : Bool := c == ':' || c == '=' || c == '?' || isBlank c

/-- The name of a parameter; one that is taken apart has none. -/
def parameterName? (piece : List Char) : Option String :=
  let name := trim (piece.takeWhile (!endsName ·))
  match name with
  | [] => none
  | c :: _ =>
    if name == "...".toList || c == '\x7b' || c == '[' then none else some (String.ofList name)

/-- The names in a parameter list. -/
def parameterNames (raw : List Char) : List String := (commaPieces raw).filterMap parameterName?

/-! ## Declarations -/

/-- Number of lines from a place to the end of its block. -/
def extent (p : Place) : Nat := Lexis.plain.extent p

/-- A declaration of a type: its name, the indexes of its first and last line, and its bases. -/
structure TypeRange where
  name : String
  first : Nat
  last : Nat
  bases : List String
  deriving DecidableEq, Repr

/-- The names of a list of bases. -/
def baseNames (cs : List Char) : List String := (commaPieces cs).map String.ofList

/-- A line of a union or intersection that goes on from the line before. -/
def continuesType (line : Line) : Bool :=
  match trim line with
  | c :: _ => c == '|' || c == '&'
  | [] => false

/-- The number of lines from a type alias without a brace to its end: the first line with a
semicolon, or the first later line that does not go on with a union or an intersection. -/
def aliasExtent (p : Place) : Nat :=
  if p.has ';' then 0
  else
    match p.after.findIdx? fun line => line.contains ';' || !continuesType line with
    | some k => k + 1
    | none => p.after.length

/-- The declaration of a type that starts on a line. -/
def type? (p : Place) : Option TypeRange :=
  match classPattern.atHead? p.stripped with
  | some m =>
    let parent := trim (groupText m 2)
    let bases :=
      (if parent.isEmpty then [] else [String.ofList parent]) ++ baseNames (groupText m 3)
    some ⟨String.ofList (groupText m 1), p.index, p.index + extent p, bases⟩
  | none =>
    match interfacePattern.atHead? p.stripped with
    | some m =>
      some ⟨String.ofList (groupText m 1), p.index, p.index + extent p, baseNames (groupText m 2)⟩
    | none =>
      (aliasPattern.atHead? p.stripped).map fun m =>
        ⟨String.ofList (groupText m 1), p.index,
          p.index + (if p.has '\x7b' then extent p else aliasExtent p), []⟩

/-- The type that starts on a line, and the number of further lines it covers. -/
def typeVisit (p : Place) : List TypeRange × Nat :=
  match type? p with
  | some t => ([t], t.last - t.first)
  | none => ([], 0)

/-- The types of a source; lines inside of one are not looked at for others. -/
def types (lines : List Line) : List TypeRange := Place.collect typeVisit 0 (Place.all lines)

/-- Words that look like the name of a method and are none. -/
def notMethods : List String :=
  ["if", "else", "for", "while", "switch", "return", "new", "throw", "import", "export", "const",
    "let", "var"]

/-- The method on a line. -/
def method? (parent : String) (p : Place) : Option Callable :=
  match methodPattern.atHead? p.line with
  | none => none
  | some m =>
    let name := String.ofList (groupText m 1)
    if notMethods.contains name then none
    else
      let last := p.index + (if p.has '\x7b' then extent p else 0)
      some (.method parent name ⟨p.index + 1, last + 1⟩ (parameterNames (groupText m 2)) [] none)

/-- The methods on the lines of a type after its first. -/
def methodsOf (places : List Place) (t : TypeRange) : List Callable :=
  (places.filter fun p => t.first < p.index && p.index ≤ t.last).filterMap (method? t.name)

/-- The number of lines from an arrow function without a brace to its end: the first line with a
semicolon, or the first later line that is neither blank nor ends with a comma. -/
def arrowExtent (p : Place) : Nat :=
  if p.has ';' then 0
  else
    let ends (line : Line) := line.contains ';' || (trim line).getLast?.any (· != ',')
    match p.after.findIdx? ends with
    | some k => k + 1
    | none => 0

/-- The function that starts on a line, and the number of further lines it covers. -/
def function? (p : Place) : Option (Callable × Nat) :=
  let make := fun (m : Cursor) (extent : Nat) =>
    (Callable.plain (String.ofList (groupText m 1)) ⟨p.index + 1, p.index + extent + 1⟩
      (parameterNames (groupText m 2)) [] none, extent)
  match functionPattern.atHead? p.stripped with
  | some m => some (make m (if p.opensSoon then extent p else 0))
  | none =>
    (arrowPattern.atHead? p.stripped).map fun m =>
      make m (if p.has '\x7b' then extent p else arrowExtent p)

/-- The function that starts on a line outside of the covered ranges, and the number of further
lines it covers. -/
def functionVisit (covered : Covered) (p : Place) : List Callable × Nat :=
  if covered.mem p.index then ([], 0)
  else
    match function? p with
    | some (f, extent) => ([f], extent)
    | none => ([], 0)

/-- The functions on lines outside of the covered ranges. -/
def functions (covered : Covered) (places : List Place) : List Callable :=
  Place.collect (functionVisit covered) 0 places

/-- The outline of a source. -/
def outline (sourceName : String) (text : List Char) : Outline :=
  let lines := splitNewlines text
  let places := Place.all lines
  let ranges := types lines
  let methods := ranges.flatMap (methodsOf places)
  let classes := ranges.map fun t =>
    let own := methods.filter (·.parent == some t.name)
    (⟨t.name, ⟨t.first + 1, t.last + 1⟩, t.bases, own, [], none⟩ : ClassItem)
  { Outline.ofLines sourceName text lines with
    functions := methods ++ functions (ranges.map fun t => (t.first, t.last)) places
    classes := classes
    imports := places.filterMap import? }

end SourceAtlas.Script
