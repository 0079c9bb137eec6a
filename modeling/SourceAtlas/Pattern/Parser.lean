import SourceAtlas.Pattern.Basic
import SourceAtlas.Pattern.Fault
import SourceAtlas.Pattern.Flags
import SourceAtlas.Text.CharName

/-!
# Reading pattern texts

`Pattern.ofText` reads the text of a regular expression. The reader always holds the next token, one
character or a backslash with its character, so a backslash that ends the text is found as soon as
the token before it is taken. Each part is read with the least and the greatest number of characters
that it can match, which decides whether it can stand in a look-behind.
-/

set_option autoImplicit false

namespace SourceAtlas.Pattern

open SourceAtlas.Text

/-- The least and the greatest number of characters of a match. -/
abbrev Width := Nat × Nat

/-- Widths are counted up to this bound. -/
def widthLimit : Nat := Nat.pow 2 64

/-- Repetition counts and look-behind widths lie below this bound. -/
def countLimit : Nat := Nat.pow 2 32 - 1

/-- What matters about a part of a sequence when a repetition follows it. -/
inductive PartKind where
  | anchor | repeated | other
  deriving DecidableEq

/-- A part of a sequence. -/
structure Piece where
  pattern : Pattern
  width : Width
  kind : PartKind

/-- What the reader knows: the text from the next token on, the length of the whole text, the flags
for the whole pattern, the width of each group that is closed (group zero never is), the groups by
name, the number of groups before the look-behind being read, the places of group numbers in
conditions, and the first fault of a look-behind. -/
structure Reader where
  rest : List Char
  length : Nat
  flags : Flags
  widths : Array (Option Width)
  names : List (List Char × Nat)
  lookbehind : Option Nat
  conditions : List (Nat × Nat)
  lookbehindFault : Option Fault

/-- Reading with refusals. -/
abbrev Read (α : Type) := StateT Reader (Except PatternError) α

/-- The next token of a text: empty at its end. -/
def tokenOf : List Char → List Char
  | '\\' :: c :: _ => ['\\', c]
  | c :: _ => [c]
  | [] => []

/-- The next token. -/
def peek : Read (List Char) := fun r => .ok (tokenOf r.rest, r)

/-- The position of the next token. -/
def tell : Read Nat := fun r => .ok (r.length - r.rest.length, r)

/-- Refuses the text at `offset` characters before the next token. -/
def refuse {α : Type} (cause : Fault) (offset : Nat) : Read α := do
  throw (.fault cause (some ((← tell) - offset)))

/-- Refuses the text at a position. -/
def refuseAt {α : Type} (cause : Fault) (position : Nat) : Read α :=
  throw (.fault cause (some position))

/-- Moves to a place in the text. A lone backslash there is refused at once. -/
def moveTo (rest : List Char) : Read Unit := do
  if rest = ['\\'] then refuseAt .backslashAtEnd ((← get).length - 1)
  modify fun r => { r with rest := rest }

/-- Moves behind the next token. -/
def advance : Read Unit := do
  let r ← get
  moveTo (r.rest.drop (tokenOf r.rest).length)

/-- Takes the next token. -/
def take : Read (List Char) := do
  let token ← peek
  advance
  return token

/-- Takes the next token if it is the character `c`. -/
def accept (c : Char) : Read Bool := do
  if (← peek) = [c] then
    advance
    return true
  else return false

/-- Takes up to `n` characters of class `p`. -/
def takeSome (p : Char → Bool) : Nat → Read (List Char)
  | 0 => return []
  | n + 1 => do
    match ← peek with
    | [c] =>
      if p c then
        advance
        return c :: (← takeSome p n)
      else return []
    | _ => return []

/-- The characters of class `p`, at most as many as the text has. -/
def takeAll (p : Char → Bool) : Read (List Char) := do takeSome p (← get).rest.length

/-- Takes a name up to a terminator, which is taken too; `taken` is what was taken of it already. -/
def takeName (terminator : Char) (what : String) : Nat → List Char → Read (List Char)
  | 0, taken => return taken
  | fuel + 1, taken => do
    match ← take with
    | [] =>
      if taken.isEmpty then refuse (.missing what) 0
      else refuse (.unterminatedName terminator) taken.length
    | token =>
      if token = [terminator] then
        if taken.isEmpty then refuse (.missing what) 1 else return taken
      else takeName terminator what fuel (taken ++ token)

/-- A name up to its terminator. -/
def name (terminator : Char) (what : String) : Read (List Char) := do
  takeName terminator what ((← get).rest.length + 1) []

/-- Octal digits. -/
def isOctalDigit (c : Char) : Bool := '0' ≤ c && c ≤ '7'

/-- Hexadecimal digits. -/
def isHexDigit (c : Char) : Bool := (hexDigit? c).isSome

/-- The number that hexadecimal digits write. -/
def hexValue (ds : List Char) : Nat := ds.foldl (fun n d => n * 16 + (hexDigit? d).getD 0) 0

/-- The value of digits in a base. -/
def digitsValue (base : Nat) (ds : List Char) : Nat :=
  ds.foldl (fun n d => n * base + (d.toNat - 48)) 0

/-- The control characters that letters after a backslash stand for. -/
def controlEscape? : Char → Option Nat
  | 'a' => some 7
  | 'b' => some 8
  | 'f' => some 12
  | 'n' => some 10
  | 'r' => some 13
  | 't' => some 9
  | 'v' => some 11
  | '\\' => some 92
  | _ => none

/-- The character classes that letters after a backslash stand for. -/
def classEscape? : Char → Option SetItem
  | 'd' => some (.named .digit false)
  | 'D' => some (.named .digit true)
  | 's' => some (.named .blank false)
  | 'S' => some (.named .blank true)
  | 'w' => some (.named .word false)
  | 'W' => some (.named .word true)
  | _ => none

/-- A hexadecimal escape of exactly `n` digits. -/
def hexEscape (letter : Char) (n : Nat) : Read Nat := do
  let digits ← takeSome isHexDigit n
  let text := '\\' :: letter :: digits
  if digits.length ≠ n then refuse (.incompleteEscape text) text.length
  let value := hexValue digits
  if value > 0x10FFFF then refuse (.badEscape text) text.length
  return value

/-- The name in braces after `\N`. -/
def namedEscape : Read Nat := do
  if !(← accept '\x7b') then refuse (.missing "\x7b") 0
  let charName ← name '\x7d' "character name"
  match charNamed? charName with
  | some n => return n
  | none => refuse (.undefinedCharacter charName) (charName.length + 4)

/-- The escapes that mean one character wherever they stand: a hexadecimal number or a name. -/
def codeEscape? (c : Char) : Option (Read Nat) :=
  match c with
  | 'x' => some (hexEscape 'x' 2)
  | 'u' => some (hexEscape 'u' 4)
  | 'U' => some (hexEscape 'U' 8)
  | 'N' => some namedEscape
  | _ => none

/-- An escape inside of a set. -/
def setEscape (c : Char) : Read SetItem := do
  match controlEscape? c with
  | some n => return .range n n
  | none =>
    match classEscape? c with
    | some item => return item
    | none =>
      match codeEscape? c with
      | some read =>
        let n ← read
        return .range n n
      | none =>
        if isOctalDigit c then
          let digits := c :: (← takeSome isOctalDigit 2)
          let n := digitsValue 8 digits
          if n > 0o377 then refuse (.octalRange ('\\' :: digits)) (digits.length + 1)
          return .range n n
        else if isAsciiDigit c || isAsciiLetter c then refuse (.badEscape ['\\', c]) 2
        else return .range c.toNat c.toNat

/-- How flags treat case. -/
def caseRule (mode : Flags) : CaseRule :=
  if mode.ignoreCase then (if mode.ascii then .ascii else .unicode) else .exact

/-- A part that matches one character of a set. -/
def setPiece (mode : Flags) (items : List SetItem) (negated : Bool) : Piece :=
  ⟨.one ⟨items, negated, caseRule mode, mode.ascii⟩, (1, 1), .other⟩

/-- A part that matches one character. -/
def literalPiece (mode : Flags) (n : Nat) : Piece := setPiece mode [.range n n] false

/-- A part that tests a place. -/
def anchorPiece (test : Anchor) : Piece := ⟨.anchor test, (0, 0), .anchor⟩

/-- Is the group closed? -/
def isClosed (index : Nat) : Read Bool := do return ((← get).widths[index]?.bind id).isSome

/-- Inside a look-behind, only groups closed before it may be named. -/
def checkLookbehind (index : Nat) : Read Unit := do
  match (← get).lookbehind with
  | none => return ()
  | some count =>
    if !(← isClosed index) then refuse .openGroup 0
    if index ≥ count then refuse .groupInLookbehind 0

/-- A reference to a group that is closed. -/
def backrefPiece (mode : Flags) (index : Nat) : Read Piece := do
  let width := ((← get).widths[index]?.bind id).getD (0, 0)
  return ⟨.backref index (caseRule mode), width, .other⟩

/-- An escape of digits: a character by its octal number, or a reference to a group. -/
def digitEscape (mode : Flags) (c : Char) : Read Piece := do
  let second ← takeSome isAsciiDigit 1
  let third ←
    match second with
    | [d] => if isOctalDigit c && isOctalDigit d then takeSome isOctalDigit 1 else pure []
    | _ => pure []
  let digits := c :: second ++ third
  if third.length = 1 then
    let n := digitsValue 8 digits
    if n > 0o377 then refuse (.octalRange ('\\' :: digits)) (digits.length + 1)
    return literalPiece mode n
  let index := digitsValue 10 digits
  if index < (← get).widths.size then
    if !(← isClosed index) then refuse .openGroup (digits.length + 1)
    checkLookbehind index
    backrefPiece mode index
  else refuse (.invalidGroup index) digits.length

/-- An escape outside of sets. -/
def escape (mode : Flags) (c : Char) : Read Piece := do
  match c with
  | 'A' => return anchorPiece .textStart
  | 'Z' => return anchorPiece .textEnd
  | 'b' => return anchorPiece (.boundary mode.ascii)
  | 'B' => return anchorPiece (.interior mode.ascii)
  | _ =>
    match classEscape? c with
    | some item => return setPiece mode [item] false
    | none =>
      match controlEscape? c with
      | some n => return literalPiece mode n
      | none =>
        match codeEscape? c with
        | some read => return literalPiece mode (← read)
        | none =>
          if c == '0' then
            let digits ← takeSome isOctalDigit 2
            return literalPiece mode (digitsValue 8 digits)
          else if isAsciiDigit c then digitEscape mode c
          else if isAsciiLetter c then refuse (.badEscape ['\\', c]) 2
          else return literalPiece mode c.toNat

/-- The item of a set that a token stands for. -/
def setItem (token : List Char) : Read SetItem :=
  match token with
  | ['\\', c] => setEscape c
  | c :: _ => return .range c.toNat c.toNat
  | [] => return .range 0 0

/-- The code point, if the item is a single one. -/
def single? : SetItem → Option Nat
  | .range low high => if low = high then some low else none
  | .named _ _ => none

/-- The members of a character set that starts at position `here`, up to its closing bracket. -/
def setItems (here : Nat) : Nat → List SetItem → Read (List SetItem)
  | 0, items => return items
  | fuel + 1, items => do
    let this ← take
    if this = [] then refuseAt .unterminatedSet here
    if this = [']'] && !items.isEmpty then return items
    let first ← setItem this
    if ← accept '-' then
      let that ← take
      if that = [] then refuseAt .unterminatedSet here
      if that = [']'] then return items ++ [first, .range 45 45]
      let second ← setItem that
      match single? first, single? second with
      | some low, some high =>
        if high < low then refuse (.badRange this that) (this.length + 1 + that.length)
        setItems here fuel (items ++ [.range low high])
      | _, _ => refuse (.badRange this that) (this.length + 1 + that.length)
    else setItems here fuel (items ++ [first])

/-- A character set, its opening bracket taken. -/
def charSet (mode : Flags) : Read Piece := do
  let here := (← tell) - 1
  let negated ← accept '^'
  let items ← setItems here ((← get).rest.length + 1) []
  return setPiece mode items negated

/-- The letters of a flag group up to a closing character: the flags and that character. -/
def flagsOn : Nat → Flags → Char → Read (Flags × Char)
  | 0, on, c => return (on, c)
  | fuel + 1, on, c => do
    if c == 'L' then refuse .localeFlag 0
    let flag := (Flags.ofLetter? c).getD .none
    let on := on.union flag
    if flag.hasType && on.ascii && on.unicode then refuse .typeFlags 0
    match ← take with
    | [] => refuse (.missing "-, : or )") 0
    | [d] =>
      if d == ')' || d == '-' || d == ':' then return (on, d)
      else if (Flags.ofLetter? d).isSome || d == 'L' then flagsOn fuel on d
      else refuse (if isAlpha d then .unknownFlag else .missing "-, : or )") 1
    | token => refuse (.missing "-, : or )") token.length

/-- The letters of a flag group after a minus sign, up to the colon. -/
def flagsOff : Nat → Flags → Char → Read Flags
  | 0, off, _ => return off
  | fuel + 1, off, c => do
    let flag := (Flags.ofLetter? c).getD .none
    if flag.hasType || c == 'L' then refuse .typeFlagOff 0
    let off := off.union flag
    match ← take with
    | [] => refuse (.missing ":") 0
    | [d] =>
      if d == ':' then return off
      else if (Flags.ofLetter? d).isSome || d == 'L' then flagsOff fuel off d
      else refuse (if isAlpha d then .unknownFlag else .missing ":") 1
    | token => refuse (.missing ":") token.length

/-- A flag group whose first character `c` is taken: nothing if it was for the whole pattern, else
what it switches on and off. -/
def flagGroup (c : Char) : Read (Option (Flags × Flags)) := do
  let fuel := (← get).rest.length + 1
  let (on, last) ← if c == '-' then pure (Flags.none, '-') else flagsOn fuel .none c
  if last == ')' then
    modify fun r => { r with flags := r.flags.union on }
    return none
  if on.template then refuse .globalFlagOn 1
  let off ←
    if last == '-' then
      match ← take with
      | [] => refuse (.missing "flag") 0
      | [d] =>
        if (Flags.ofLetter? d).isSome || d == 'L' then flagsOff fuel .none d
        else refuse (if isAlpha d then .unknownFlag else .missing "flag") 1
      | token => refuse (.missing "flag") token.length
    else pure Flags.none
  if off.template then refuse .globalFlagOff 1
  if on.meets off then refuse .flagOnAndOff 1
  return some (on, off)

/-- The number that a text writes: blanks around it, a sign, digits of any script with single
underscores between. -/
def integer? (cs : List Char) : Option Int :=
  let body := trim cs
  let (negative, digits) :=
    match body with
    | '-' :: ds => (true, ds)
    | '+' :: ds => (false, ds)
    | ds => (false, ds)
  let groups := splitOn '_' digits
  if groups.any List.isEmpty then none
  else
    (groups.flatten.mapM decimal?).map fun ds =>
      let n : Nat := ds.foldl (fun n d => n * 10 + d) 0
      if negative then -(n : Int) else n

/-- The bounds of a repetition in braces, the opening brace taken; nothing if the brace stands for
itself. -/
def braceBounds : Read (Option (Nat × Option Nat)) := do
  let start := (← get).rest
  let here ← tell
  if (← peek) = ['\x7d'] then return none
  let low ← takeAll isAsciiDigit
  let high ← if ← accept ',' then takeAll isAsciiDigit else pure low
  if !(← accept '\x7d') then
    moveTo start
    return none
  let least := digitsValue 10 low
  if !low.isEmpty && least ≥ countLimit then throw .countTooLarge
  if high.isEmpty then return some (least, none)
  let most := digitsValue 10 high
  if most ≥ countLimit then throw .countTooLarge
  if most < least then refuseAt .repeatBounds here
  return some (least, some most)

/-- A repetition of `item`, whose bounds are read; the token of the repetition stood `size`
characters before `here`. -/
def repetition (item : Option Piece) (here size low : Nat) (high : Option Nat) : Read Piece := do
  match item with
  | none => refuseAt .nothingToRepeat (here - size)
  | some item =>
    if item.kind = .anchor then refuseAt .nothingToRepeat (here - size)
    if item.kind = .repeated then refuseAt .multipleRepeat (here - size)
    let mode ←
      if ← accept '?' then pure Eagerness.lazy
      else if ← accept '+' then pure .possessive
      else pure .greedy
    let most :=
      match high with
      | none => if item.width.2 = 0 then 0 else widthLimit
      | some n => item.width.2 * n
    return ⟨.rep low high mode item.pattern, (item.width.1 * low, most), .repeated⟩

/-- The sequence of parts, the last part first. -/
def sequence (pieces : List Piece) : Piece :=
  let parts := pieces.reverse
  let pattern := parts.foldr (fun p q => if q = .empty then p.pattern else .seq p.pattern q) .empty
  let low := (parts.map (·.width.1)).foldr (· + ·) 0
  let high := (parts.map (·.width.2)).foldr (· + ·) 0
  ⟨pattern, (min low widthLimit, min high widthLimit), .other⟩

/-- The choice between two parts. -/
def choice (p q : Piece) : Piece :=
  ⟨.alt p.pattern q.pattern, (min p.width.1 q.width.1, max p.width.2 q.width.2), .other⟩

/-- Opens a group and numbers it. -/
def openGroup (groupName : Option (List Char)) : Read Nat := do
  let r ← get
  let index := r.widths.size
  match groupName with
  | none => set { r with widths := r.widths.push none }
  | some groupName =>
    match r.names.lookup groupName with
    | some earlier => refuse (.groupRedefined groupName index earlier) (groupName.length + 1)
    | none => set { r with widths := r.widths.push none, names := (groupName, index) :: r.names }
  return index

/-- Passes over a comment group. -/
def skipComment (start : Nat) : Nat → Read Unit
  | 0 => return ()
  | fuel + 1 => do
    if (← peek) = [] then refuseAt .unterminatedComment start
    if (← take) = [')'] then return () else skipComment start fuel

/-- Passes over the rest of a line. -/
def skipLine : Nat → Read Unit
  | 0 => return ()
  | fuel + 1 => do
    let token ← take
    if token = [] || token = ['\n'] then return () else skipLine fuel

/-- Refuses a group name that is no identifier. -/
def checkGroupName (groupName : List Char) : Read Unit := do
  if !isIdentifier groupName then refuse (.badGroupName groupName) (groupName.length + 1)

/-- The group that a condition asks for. -/
def conditionGroup : Read Nat := do
  let text ← name ')' "group name"
  let back := text.length + 1
  let index ←
    if isIdentifier text then
      match (← get).names.lookup text with
      | some index => pure index
      | none => refuse (.unknownGroupName text) back
    else
      match integer? text with
      | some (.ofNat 0) => refuse .badGroupNumber back
      | some (.ofNat n) =>
        if n ≥ 2147483647 then refuse (.invalidGroup n) back
        let place := (← tell) - back
        modify fun r =>
          if (r.conditions.lookup n).isSome then r
          else { r with conditions := r.conditions ++ [(n, place)] }
        pure n
      | _ => refuse (.badGroupName text) back
  checkLookbehind index
  return index

/-- A reference to a group by name, the opening taken. -/
def namedBackref (mode : Flags) : Read Piece := do
  let groupName ← name ')' "group name"
  checkGroupName groupName
  match (← get).names.lookup groupName with
  | none => refuse (.unknownGroupName groupName) (groupName.length + 1)
  | some index =>
    if !(← isClosed index) then refuse .openGroup (groupName.length + 1)
    checkLookbehind index
    backrefPiece mode index

/-- What a parenthesis opens. -/
inductive Opening where
  | part (piece : Piece)
  | nothing
  | globalFlags
  | look (isBehind positive : Bool)
  | condition (index : Nat)
  | body (groupName : Option (List Char)) (captures isAtomic : Bool) (on off : Flags)

/-- Reads what stands between a parenthesis at position `start` and the contents of its group. -/
def opening (mode : Flags) (start : Nat) : Read Opening := do
  if !(← accept '?') then return .body none true false .none .none
  match ← take with
  | [] => refuse .unexpectedEnd 0
  | ['P'] =>
    if ← accept '<' then
      let groupName ← name '>' "group name"
      checkGroupName groupName
      return .body (some groupName) true false .none .none
    else if ← accept '=' then return .part (← namedBackref mode)
    else
      match ← take with
      | [] => refuse .unexpectedEnd 0
      | token => refuse (.unknownExtension ('P' :: token)) (token.length + 2)
  | [':'] => return .body none false false .none .none
  | ['#'] =>
    skipComment start ((← get).rest.length + 1)
    return .nothing
  | ['='] => return .look false true
  | ['!'] => return .look false false
  | ['<'] =>
    match ← take with
    | [] => refuse .unexpectedEnd 0
    | ['='] => return .look true true
    | ['!'] => return .look true false
    | token => refuse (.unknownExtension ('<' :: token)) (token.length + 2)
  | ['('] => return .condition (← conditionGroup)
  | ['>'] => return .body none false true .none .none
  | [c] =>
    if (Flags.ofLetter? c).isSome || c == 'L' || c == '-' then
      match ← flagGroup c with
      | none => return .globalFlags
      | some (on, off) => return .body none false false on off
    else refuse (.unknownExtension [c]) 2
  | token => refuse (.unknownExtension token) (token.length + 1)

/-- The closing parenthesis of what was opened at position `start`. -/
def closing (start : Nat) : Read Unit := do
  if !(← accept ')') then refuseAt .unterminatedGroup start

/-- Notes a fault of a look-behind, which is reported when the whole text is read. -/
def noteLookbehind (width : Width) : Read Unit := do
  let fault? : Option Fault :=
    if width.1 > countLimit then some .farLookbehind
    else if width.1 ≠ width.2 then some .variableLookbehind
    else none
  modify fun r => { r with lookbehindFault := r.lookbehindFault <|> fault? }

mutual

/-- Alternatives under the flags `mode`. At the top, flags for the whole pattern may stand in the
first one and hold from then on. -/
def alternatives : Nat → Flags → Bool → Read Piece
  | 0, _, _ => throw .countTooLarge
  | fuel + 1, mode, top => do
    let first ← parts fuel mode top []
    moreAlternatives fuel mode top first

/-- Further alternatives after `before`. -/
def moreAlternatives : Nat → Flags → Bool → Piece → Read Piece
  | 0, _, _, _ => throw .countTooLarge
  | fuel + 1, mode, top, before => do
    if ← accept '|' then
      let flags := (← get).flags
      let mode := if top then flags else mode
      let next ← parts fuel mode false []
      let rest ← moreAlternatives fuel mode top next
      return choice before rest
    else return before

/-- A sequence of parts, `read` being those already read, the last first. -/
def parts : Nat → Flags → Bool → List Piece → Read Piece
  | 0, _, _, _ => throw .countTooLarge
  | fuel + 1, mode, first, read => do
    match ← peek with
    | [] | ['|'] | [')'] => return sequence read
    | this =>
      advance
      match this with
      | ['\\', c] =>
        let piece ← escape mode c
        parts fuel mode first (piece :: read)
      | [c] =>
        if mode.verbose && (c == ' ' || (9 ≤ c.toNat && c.toNat ≤ 13)) then
          parts fuel mode first read
        else if mode.verbose && c == '#' then
          skipLine ((← get).rest.length + 1)
          parts fuel mode first read
        else
          match c with
          | '[' => parts fuel mode first ((← charSet mode) :: read)
          | '.' =>
            let piece :=
              if mode.dotAll then setPiece mode [] true
              else ⟨.one ⟨[.range 10 10], true, .exact, false⟩, (1, 1), .other⟩
            parts fuel mode first (piece :: read)
          | '^' =>
            parts fuel mode first
              (anchorPiece (if mode.multiline then .lineStart else .textStart) :: read)
          | '$' =>
            parts fuel mode first
              (anchorPiece (if mode.multiline then .lineEnd else .lastEnd) :: read)
          | '?' => repeated fuel mode first read 1 0 (some 1)
          | '*' => repeated fuel mode first read 1 0 none
          | '+' => repeated fuel mode first read 1 1 none
          | '\x7b' =>
            let here ← tell
            match ← braceBounds with
            | none => parts fuel mode first (literalPiece mode 0x7B :: read)
            | some (low, high) => repeated fuel mode first read ((← tell) - here + 1) low high
          | '(' => grouped fuel mode first read
          | _ => parts fuel mode first (literalPiece mode c.toNat :: read)
      | _ => parts fuel mode first read

/-- A sequence whose last part is repeated. -/
def repeated : Nat → Flags → Bool → List Piece → Nat → Nat → Option Nat → Read Piece
  | 0, _, _, _, _, _, _ => throw .countTooLarge
  | fuel + 1, mode, first, read, size, low, high => do
    let piece ← repetition read.head? (← tell) size low high
    parts fuel mode first (piece :: read.tail)

/-- A sequence whose next part is what a parenthesis opens. -/
def grouped : Nat → Flags → Bool → List Piece → Read Piece
  | 0, _, _, _ => throw .countTooLarge
  | fuel + 1, mode, first, read => do
    let start := (← tell) - 1
    match ← opening mode start with
    | .part piece => parts fuel mode first (piece :: read)
    | .nothing => parts fuel mode first read
    | .globalFlags =>
      if !first || !read.isEmpty then refuseAt .lateFlags start
      parts fuel (← get).flags first read
    | .look isBehind positive =>
      let outer := (← get).lookbehind
      if isBehind && outer.isNone then modify fun r => { r with lookbehind := some r.widths.size }
      let body ← alternatives fuel mode false
      if isBehind && outer.isNone then modify fun r => { r with lookbehind := none }
      closing start
      if isBehind then noteLookbehind body.width
      let pattern :=
        if isBehind then .behind positive body.width.1 body.pattern
        else .ahead positive body.pattern
      parts fuel mode first (⟨pattern, (0, 0), .other⟩ :: read)
    | .condition index =>
      let yes ← parts fuel mode false []
      let no? ← if ← accept '|' then some <$> parts fuel mode false [] else pure none
      if no?.isSome && (← peek) = ['|'] then refuse .manyBranches 0
      closing start
      let piece : Piece :=
        match no? with
        | some no =>
          ⟨.cond index yes.pattern no.pattern,
            (min yes.width.1 no.width.1, max yes.width.2 no.width.2), .other⟩
        | none => ⟨.cond index yes.pattern .empty, (0, yes.width.2), .other⟩
      parts fuel mode first (piece :: read)
    | .body groupName captures isAtomic on off =>
      let index ← if captures then some <$> openGroup groupName else pure none
      let body ← alternatives fuel (mode.within on off) false
      closing start
      match index with
      | some n =>
        modify fun r => { r with widths := r.widths.setIfInBounds n (some body.width) }
        parts fuel mode first (⟨.group n body.pattern, body.width, .other⟩ :: read)
      | none =>
        let pattern := if isAtomic then .atomic body.pattern else body.pattern
        parts fuel mode first (⟨pattern, body.width, .other⟩ :: read)

end

/-- The operator of the first repetition in a pattern, outer parts before inner ones. -/
def firstRepeat? : Pattern → Option String
  | .rep _ _ mode _ =>
    match mode with
    | .greedy => some "MAX_REPEAT"
    | .lazy => some "MIN_REPEAT"
    | .possessive => some "POSSESSIVE_REPEAT"
  | .seq p q | .alt p q => firstRepeat? p <|> firstRepeat? q
  | .group _ p => firstRepeat? p
  | .atomic p => firstRepeat? p
  | .ahead _ p => firstRepeat? p
  | .behind _ _ p => firstRepeat? p
  | .cond _ p q => firstRepeat? p <|> firstRepeat? q
  | _ => none

/-- A whole pattern. -/
def whole : Read Pattern := do
  moveTo (← get).rest
  let piece ← alternatives (8 * (← get).length + 8) .none true
  let r ← get
  if r.flags.ascii && r.flags.unicode then throw .asciiAndUnicode
  if r.rest ≠ [] then refuse .unbalanced 0
  match r.conditions.find? fun (index, _) => index ≥ r.widths.size with
  | some (index, place) => refuseAt (.invalidGroup index) place
  | none => pure ()
  if r.flags.template then
    match firstRepeat? piece.pattern with
    | some op => throw (.fault (.templateRepeat op) none)
    | none => pure ()
  match r.lookbehindFault with
  | some fault => throw (.fault fault none)
  | none => return piece.pattern

/-- The pattern that a text stands for. -/
def ofText (text : List Char) : Except PatternError Pattern :=
  (whole.run ⟨text, text.length, .none, #[none], [], none, [], none⟩).map Prod.fst

end SourceAtlas.Pattern
