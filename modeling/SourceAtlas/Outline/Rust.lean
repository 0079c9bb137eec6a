import SourceAtlas.Collection.Basic
import SourceAtlas.Outline.Basic
import SourceAtlas.Pattern.Basic
import SourceAtlas.Source.Braces

/-!
# Rust sources

A first sweep finds the implementation blocks and the methods in them, a second one the structures,
enumerations, traits, functions and rule macros on the lines that no block has covered. Attributes
and documentation comments directly above an item belong to it.
-/

set_option autoImplicit false

namespace SourceAtlas.Rust

open SourceAtlas.Text
open Pattern
  (exactly noneOf anyChar many oneOrMore fewest maybe word blanks gap firstOf ofItems wordItem item)

/-! ## Literals and comments -/

/-- Where a character stands: in code, in a string, behind a backslash in a string, in a raw string
with so many hashes, in a comment of some depth, or among characters of which so many are still to
be passed over before a mode. -/
inductive Mode where
  | code
  | string
  | escape
  | raw (hashes : Nat)
  | comment (depth : Nat)
  | passing (count : Nat) (next : Mode)
  deriving DecidableEq, Repr

/-- The number of hashes behind an `r` that opens a raw string. -/
def rawHashes? (rest : List Char) : Option Nat :=
  let hashes := (rest.takeWhile (· == '#')).length
  if rest[hashes]? == some '"' then some hashes else none

/-- What a character is, by where it stands and what follows. -/
def read (m : Mode) (c : Char) (rest : List Char) : Reading Mode :=
  match m with
  | .comment depth =>
    if c == '/' && rest.head? == some '*' then .pass (.passing 1 (.comment (depth + 1)))
    else if c == '*' && rest.head? == some '/' then
      .pass (.passing 1 (if depth ≤ 1 then .code else .comment (depth - 1)))
    else .pass (.comment depth)
  | .passing count next => .pass (if count ≤ 1 then next else .passing (count - 1) next)
  | .string => if c == '\\' then .pass .escape else if c == '"' then .pass .code else .pass .string
  | .escape => .pass .string
  | .raw hashes =>
    if c == '"' && startsWith (List.replicate hashes '#') rest then
      .pass (if hashes = 0 then .code else .passing hashes .code)
    else .pass (.raw hashes)
  | .code =>
    if c == '/' && rest.head? == some '/' then .comment
    else if c == '/' && rest.head? == some '*' then .pass (.passing 1 (.comment 1))
    else if c == '"' then .pass .string
    else if c == 'r' then
      match rawHashes? rest with
      | some hashes => .pass (.passing (hashes + 1) (.raw hashes))
      | none => .code .code
    else if c == '\'' then
      match charLength? rest with
      | some count => .pass (.passing count .code)
      | none => .code .code
    else .code .code

/-- The mode of the next line. A raw string runs on over line breaks, a comment is carried to the
next line, a string is not. -/
def carry : Mode → Option Mode
  | .raw _ => none
  | .comment depth => some (.comment depth)
  | _ => some .code

/-- The literals and comments of Rust. -/
def lexis : Lexis Mode := ⟨.code, read, carry⟩

/-! ## Patterns -/

/-- A visibility, which may be left out. -/
def visibility : Pattern :=
  maybe (exactly "pub" ++ maybe (exactly "(" ++ many (noneOf ")") ++ exactly ")") ++ gap)

/-- A use statement up to its semicolon. -/
def usePattern : Pattern :=
  blanks ++ maybe (exactly "pub" ++ gap) ++ exactly "use" ++ gap ++ .group 1 (fewest anyChar) ++
    blanks ++ exactly ";"

/-- A path with an alias. -/
def aliasPattern : Pattern :=
  .group 1 (fewest anyChar) ++ gap ++ exactly "as" ++ gap ++ .group 2 word

/-- A path with a group of names. -/
def groupPattern : Pattern :=
  .group 1 (fewest anyChar) ++ exactly "::\x7b" ++ .group 2 (oneOrMore anyChar) ++ exactly "\x7d"

/-- A name with an alias. -/
def namePattern : Pattern := .group 1 word ++ gap ++ exactly "as" ++ gap ++ word

/-- The head of a function. -/
def functionPattern : Pattern :=
  blanks ++ visibility ++ maybe (exactly "async" ++ gap) ++ maybe (exactly "const" ++ gap) ++
    maybe (exactly "unsafe" ++ gap) ++
    maybe (exactly "extern" ++ gap ++ exactly "\"" ++ many (noneOf "\"") ++ exactly "\"" ++ gap) ++
      exactly "fn" ++ gap ++ .group 1 word

/-- The head of a macro. -/
def rulesPattern : Pattern := blanks ++ visibility ++ exactly "macro_rules!" ++ gap ++ .group 1 word

/-- The head of a struct. -/
def structPattern : Pattern := blanks ++ visibility ++ exactly "struct" ++ gap ++ .group 1 word

/-- The head of an enum. -/
def enumPattern : Pattern := blanks ++ visibility ++ exactly "enum" ++ gap ++ .group 1 word

/-- The head of a trait up to its name. -/
def traitHead : Pattern :=
  blanks ++ visibility ++ maybe (exactly "unsafe" ++ gap) ++ exactly "trait" ++ gap ++ .group 1 word

/-- A trait, the traits it extends, and a brace or a condition. -/
def traitPattern : Pattern :=
  traitHead ++ maybe (blanks ++ exactly ":" ++ blanks ++ .group 2 (fewest anyChar)) ++ blanks ++
    firstOf [exactly "\x7b", exactly "where"]

/-- A trait, the traits it extends, and perhaps a brace. -/
def looseTraitPattern : Pattern :=
  traitHead ++ maybe (blanks ++ exactly ":" ++ blanks ++ .group 2 (fewest (noneOf "\x7b"))) ++
    blanks ++ maybe (exactly "\x7b")

/-- The head of an implementation block: the trait and the type. -/
def implPattern : Pattern :=
  blanks ++ exactly "impl" ++ maybe (exactly "<" ++ many (noneOf ">") ++ exactly ">") ++ gap ++
    maybe
      (.group 1 (oneOrMore (ofItems [wordItem, item ':'] false)) ++ gap ++ exactly "for" ++ gap) ++
      .group 2 word

/-- The name of an attribute. -/
def attributePattern : Pattern := exactly "#" ++ maybe (exactly "!") ++ exactly "[" ++ .group 1 word

/-- A list of derived traits. -/
def derivePattern : Pattern :=
  exactly "#[derive(" ++ .group 1 (oneOrMore (noneOf ")")) ++ exactly ")]"

/-! ## Imports -/

/-- The text before the last double colon and the text after it. -/
def cutLastColons? (path : List Char) : Option (List Char × List Char) :=
  (cutAt? [':', ':'] path.reverse).map fun (tail, head) => (head.reverse, tail.reverse)

/-- An import of one name from a path; a path of one step names the module and the name. -/
def namedImport (path : List Char) (newName : Option String) (line : Int) : ImportItem :=
  match cutLastColons? path with
  | some (source, name) => ⟨String.ofList source, [String.ofList name], newName, line, true⟩
  | none => ⟨String.ofList path, [String.ofList path], newName, line, true⟩

/-- The names of a group, without their aliases. -/
def groupedNames (items : List Char) : List String :=
  (((splitOn ',' items).map trim).filter (!·.isEmpty)).map fun item =>
    match namePattern.atHead? item with
    | some m => groupString m 1
    | none => String.ofList item

/-- The import that a path describes: everything, one name under an alias, a group of names, one
name, or a module. -/
def importOfPath (path : List Char) (line : Int) : ImportItem :=
  if endsWith "::*".toList path then
    ⟨String.ofList (path.take (path.length - 3)), ["*"], none, line, true⟩
  else
    match aliasPattern.atHead? path with
    | some m => namedImport (trim (groupText m 1)) (some (groupString m 2)) line
    | none =>
      match groupPattern.atHead? path with
      | some m =>
        ⟨String.ofList (trim (groupText m 1)), groupedNames (trim (groupText m 2)), none, line,
          true⟩
      | none =>
        match cutLastColons? path with
        | some _ => namedImport path none line
        | none => ⟨String.ofList path, [], none, line, false⟩

/-- Does the line begin a use statement? -/
def isUse (stripped : Line) : Bool :=
  startsWith "use ".toList stripped || startsWith "pub use ".toList stripped

/-- The import of a use statement. -/
def importOfUse? (statement : List Char) (index : Nat) : Option ImportItem :=
  (usePattern.atHead? statement).map fun m => importOfPath (trim (groupText m 1)) (index + 1)

/-- The import that starts on a line, and the number of further lines that its statement covers. -/
def importAt (p : Place) : List ImportItem × Nat :=
  if isUse p.stripped then
    match importOfUse? p.stripped p.index with
    | some i => ([i], 0)
    | none =>
      match p.distance? (·.contains ';') with
      | some k => ((importOfUse? (join [' '] ((p.onward.take (k + 1)).map trim)) p.index).toList, k)
      | none => ([], p.after.length)
  else ([], 0)

/-! ## Parameters, attributes and documentation -/

/-- The receivers of methods. -/
def receivers : List String := ["self", "&self", "&mut self", "mut self"]

/-- The name of a parameter, the text before its colon. -/
def parameterName? (piece : List Char) : Option String :=
  if receivers.contains (String.ofList piece) || startsWith "self:".toList piece ||
      startsWith "&self".toList piece then
    none
  else
    match cutAt? [':'] piece with
    | some (c :: before, _) =>
      let name := dropWord (trim (c :: before)) "mut "
      if isIdentifier name then some (String.ofList name) else none
    | _ => none

/-- The names in a parameter list. -/
def parameterNames (raw : List Char) : List String := readPieces parameterName? raw

/-- Is the line an attribute? -/
def isAttribute (stripped : Line) : Bool :=
  startsWith "#[".toList stripped || startsWith "#![".toList stripped

/-- The attribute on a line. -/
def attributeName? (stripped : Line) : Option String :=
  (attributePattern.atHead? stripped).map fun m =>
    if groupString m 1 == "derive" then
      match derivePattern.atHead? stripped with
      | some d => "derive(" ++ String.ofList (trim (groupText d 1)) ++ ")"
      | none => "derive"
    else groupString m 1

/-- The attributes above a line. -/
def attributes (p : Place) : List String :=
  ((preamble isAttribute p).filter (!isDocumentation ·)).filterMap attributeName?

/-- The documentation above a line. -/
def documentation? (p : Place) : Option String :=
  commentText? 3 ((preamble isAttribute p).filter isDocumentation)

/-! ## Items -/

/-- The number of lines from a place to the first semicolon; none covers nothing. -/
def semicolonExtent (p : Place) : Nat := (p.distance? (·.contains ';')).getD 0

/-- The number of further lines of an item with a block, or else `otherwise`. -/
def extentOr (p : Place) (otherwise : Nat) : Nat :=
  if p.opensSoon then lexis.extent p else otherwise

/-- The names of the parameters of the function that starts on a line. -/
def parametersAt (p : Place) : List String := parameterNames (Parens.textAt p)

/-- What the sweeps have found, and the lines they have covered. -/
structure Findings where
  functions : List Callable
  classes : List ClassItem
  methods : Assoc (List Callable)
  covered : Covered

/-- One more method is found. -/
def Findings.addMethod (found : Findings) (f : Callable) (range : Nat × Nat) : Findings :=
  let parent := f.parent.getD ""
  { found with
    functions := found.functions ++ [f]
    methods := found.methods.put parent (((found.methods.get? parent).getD []) ++ [f])
    covered := range :: found.covered }

/-- The method on a line of a block for `typeName`, added to the findings. -/
def methodStep (traitName : Option String) (typeName : String) (found : Findings) (q : Place) :
    Findings :=
  if found.covered.mem q.index then found
  else
    match functionPattern.atHead? q.stripped with
    | none => found
    | some m =>
      let extent := extentOr q 0
      let decorators := attributes q ++ (traitName.toList.map ("impl:" ++ ·))
      found.addMethod
        (.method typeName (groupString m 1) (spanOf q extent) (parametersAt q) decorators
          (documentation? q))
        (q.index, q.index + extent)

/-- A line without its visibility. -/
def withoutPub (stripped : Line) : Line :=
  match after? "pub ".toList stripped with
  | some rest => trim rest
  | none => stripped

/-- May the line begin an implementation? -/
def mayImplement (stripped : Line) : Bool :=
  startsWith "impl".toList stripped ||
    (startsWith "pub".toList stripped && contains " impl".toList stripped)

/-- The first sweep: an implementation block with its methods. -/
def implStep (found : Findings) (p : Place) : Findings × Nat :=
  if mayImplement p.stripped && p.opensSoon then
    match implPattern.atHead? (withoutPub p.stripped) with
    | none => (found, 0)
    | some m =>
      let extent := lexis.extent p
      let inside := p.following.take (extent - 1)
      let after :=
        inside.foldl (methodStep ((m.group? 1).map String.ofList) (groupString m 2)) found
      ({ after with covered := (p.index, p.index + extent) :: after.covered }, extent)
  else (found, 0)

/-- The name of an extended trait. -/
def superTrait? (piece : List Char) : Option String :=
  let bare := trim (dropEndWhile (· == '\x7b') (trim piece))
  if bare.isEmpty || bare == "where".toList then none
  else
    let name := trim (withoutGenerics bare)
    if name.isEmpty then none else some (String.ofList name)

/-- The method of a trait on a line. -/
def traitMethod? (traitName : String) (q : Place) : Option Callable :=
  (functionPattern.atHead? q.stripped).map fun m =>
    .method traitName (groupString m 1) (spanOf q (extentOr q (semicolonExtent q))) (parametersAt q)
      [] none

/-- One more function is found. -/
def Findings.addFunction (found : Findings) (f : Callable) : Findings :=
  { found with functions := found.functions ++ [f] }

/-- The findings with a type, which gets the methods found for it. -/
def Findings.addClass (found : Findings) (p : Place) (name : String) (extent : Nat)
    (bases : List String) (own : List Callable) : Findings :=
  { found with
    functions := found.functions ++ own
    classes := found.classes ++
      [⟨name, spanOf p extent, bases, own ++ (found.methods.get? name).getD [], attributes p,
        documentation? p⟩] }

/-- The number of lines that a use statement covers after its first. -/
def useExtent (p : Place) : Nat :=
  if p.has ';' then 0 else (p.distance? (·.contains ';')).getD p.after.length

/-- The trait on a line. -/
def trait? (stripped : Line) : Option Cursor :=
  traitPattern.atHead? stripped <|> looseTraitPattern.atHead? stripped

/-- The function that starts on a line, added to the findings, and the number of further lines it
covers. -/
def functionAt (found : Findings) (p : Place) : Findings × Nat :=
  match functionPattern.atHead? p.stripped with
  | some m =>
    let extent := extentOr p (semicolonExtent p)
    (found.addFunction
      (.plain (groupString m 1) (spanOf p extent) (parametersAt p) (attributes p)
        (documentation? p)), extent)
  | none => (found, 0)

/-- The item that starts on a line, added to the findings, and the number of further lines it
covers. -/
def itemAt (found : Findings) (p : Place) : Findings × Nat :=
  match rulesPattern.atHead? p.stripped with
  | some m =>
    let extent := extentOr p 0
    (found.addFunction
      (.plain (groupString m 1) (spanOf p extent) [] (attributes p ++ ["macro"])
        (documentation? p)), extent)
  | none =>
    match structPattern.atHead? p.stripped with
    | some m =>
      let extent := extentOr p (if p.has '(' then semicolonExtent p else 0)
      (found.addClass p (groupString m 1) extent [] [], extent)
    | none =>
      match enumPattern.atHead? p.stripped with
      | some m =>
        let extent := extentOr p 0
        (found.addClass p (groupString m 1) extent [] [], extent)
      | none =>
        match trait? p.stripped with
        | some m =>
          let extent := extentOr p 0
          let name := groupString m 1
          let supers := ((m.group? 2).map fun cs => (splitOn '+' cs).filterMap superTrait?).getD []
          (found.addClass p name extent supers
            ((p.following.take (extent - 1)).filterMap (traitMethod? name)), extent)
        | none => functionAt found p

/-- The line holds no item: it is blank, a comment or an attribute. -/
def isIdle (stripped : Line) : Bool :=
  stripped.isEmpty || startsWith "//".toList stripped || startsWith "/*".toList stripped ||
    isAttribute stripped

/-- The second sweep: items on lines that are not covered. -/
def itemStep (found : Findings) (p : Place) : Findings × Nat :=
  if found.covered.mem p.index || isIdle p.stripped then (found, 0)
  else if isUse p.stripped then (found, useExtent p)
  else itemAt found p

/-- The outline of a source. -/
def outline (sourceName : String) (text : List Char) : Outline :=
  let lines := splitNewlines text
  let places := Place.all lines
  let found := Place.sweep itemStep 0 (Place.sweep implStep 0 ⟨[], [], [], []⟩ places) places
  { Outline.ofLines sourceName text lines with
    functions := found.functions
    classes := found.classes
    imports := Place.collect importAt 0 places }

end SourceAtlas.Rust
