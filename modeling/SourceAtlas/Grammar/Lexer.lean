import SourceAtlas.Grammar.Numeral
import SourceAtlas.Text.Letter

/-!
# Cutting a Python source into tokens

`tokens?` reads a source from left to right. Line ends inside brackets and behind a backslash are no
tokens; a line that is deeper or shallower than the one before opens or closes blocks. Depth is
counted twice, with tabs as columns of eight and with tabs as single columns, and the two counts
must agree on which lines belong together. A text that cannot be cut gives nothing.
-/

set_option autoImplicit false

namespace SourceAtlas.Grammar

/-! ## Tokens of Python sources

A token carries the line it starts on and the last line of the token before it that has a text of
its own; the latter is where a statement that has just been read ends. -/

/-- Kinds of tokens. Numbers and strings carry their text as written. -/
inductive TokenKind where
  | name (text : String)
  | keyword (text : String)
  | number (text : List Char)
  | string (text : List Char)
  | op (text : String)
  | newline
  | indent
  | dedent
  | finish
  deriving DecidableEq, Repr

/-- A token, the line it starts on, and the last line of the token with a text before it. -/
structure Token where
  kind : TokenKind
  line : Nat
  priorEnd : Nat
  deriving DecidableEq, Repr

/-- The words that are no names. -/
def keywords : List String :=
  ["False", "None", "True", "and", "as", "assert", "async", "await", "break", "class", "continue",
    "def", "del", "elif", "else", "except", "finally", "for", "from", "global", "if", "import",
    "in", "is", "lambda", "nonlocal", "not", "or", "pass", "raise", "return", "try", "while",
    "with", "yield"]

open SourceAtlas.Text

/-- Brackets may be nested this deep. -/
def bracketLimit : Nat := 200

/-- One more than the number of blocks that may be nested. -/
def blockLimit : Nat := 100

/-- A count of columns with wide tabs and one with tabs as single columns. -/
abbrev Depth := Nat × Nat

/-- Where the lexer stands: the text ahead, the current line, whether a line begins here, the open
brackets and the depths of the open blocks, the innermost first, the last line of the last token
with a text, and the tokens so far. -/
structure Lexer where
  ahead : List Char
  line : Nat
  fresh : Bool
  brackets : List Char
  blocks : List Depth
  lastEnd : Nat
  done : Array Token

namespace Lexer

/-- Adds a token that has no text. -/
def mark (s : Lexer) (kind : TokenKind) : Lexer :=
  { s with done := s.done.push ⟨kind, s.line, s.lastEnd⟩ }

/-- Adds a token with a text of `breaks` line breaks and goes on at `rest`. -/
def emit (s : Lexer) (kind : TokenKind) (breaks : Nat) (rest : List Char) : Lexer :=
  { s with
    ahead := rest
    line := s.line + breaks
    lastEnd := s.line + breaks
    done := s.done.push ⟨kind, s.line, s.lastEnd⟩ }

/-- The rest behind a backslash that joins two lines. The second line must exist. -/
def joined? : List Char → Option (List Char)
  | '\n' :: c :: rest => some (c :: rest)
  | _ => none

/-- The depth of a line from depth `(col, alt)` on, the depth at its first backslash, the number of
joined lines, and the rest. A backslash that joins no lines gives nothing. -/
def lineDepth (col alt held breaks : Nat) : List Char → Option (Depth × Nat × Nat × List Char)
  | ' ' :: rest => lineDepth (col + 1) (alt + 1) held breaks rest
  | '\t' :: rest => lineDepth ((col / 8 + 1) * 8) (alt + 1) held breaks rest
  | '\x0c' :: rest => lineDepth 0 0 held breaks rest
  | '\\' :: '\n' :: c :: rest =>
    lineDepth col alt (if held = 0 then col else held) (breaks + 1) (c :: rest)
  | '\\' :: _ => none
  | cs => some ((col, alt), held, breaks, cs)

/-- Closes the blocks deeper than a column. -/
def close (col : Nat) : List Depth → Lexer → List Depth × Lexer
  | [], s => ([], s)
  | (c, a) :: outer, s => if col < c then close col outer (s.mark .dedent) else ((c, a) :: outer, s)

/-- Opens or closes blocks for a line of the given depth. -/
def enter? (s : Lexer) (depth : Depth) : Option Lexer :=
  let (col, alt) := depth
  let (top, topAlt) := s.blocks.headD (0, 0)
  if col = top then if alt = topAlt then some s else none
  else if top < col then
    if s.blocks.length + 1 ≥ blockLimit ∨ alt ≤ topAlt then none
    else some { s.mark .indent with blocks := depth :: s.blocks }
  else
    let (blocks, t) := close col s.blocks s
    if blocks.headD (0, 0) = depth then some { t with blocks := blocks } else none

/-- The letters in front of a string's quote, if the text begins with such letters and a quote. -/
def stringLetters? (b r u f : Bool) : List Char → Option (List Char)
  | [] => none
  | c :: rest =>
    let isB := !(b || u || f) && (c == 'b' || c == 'B')
    let isU := !isB && !(b || u || r || f) && (c == 'u' || c == 'U')
    let isR := !isB && !isU && !(r || u) && (c == 'r' || c == 'R')
    let isF := !isB && !isU && !isR && !(f || b || u) && (c == 'f' || c == 'F')
    if isB || isU || isR || isF then
      match rest with
      | q :: _ =>
        if q == '"' || q == '\'' then some [c]
        else (stringLetters? (b || isB) (r || isR) (u || isU) (f || isF) rest).map (c :: ·)
      | [] => none
    else none

/-- The text up to and with the closing quote of a string in one line, and the rest. -/
def shortString? (quote : Char) : List Char → Option (List Char × List Char)
  | [] => none
  | '\n' :: _ => none
  | ['\\'] => none
  | '\\' :: c :: rest => (shortString? quote rest).map fun (t, r) => ('\\' :: c :: t, r)
  | c :: rest =>
    if c == quote then some ([c], rest) else (shortString? quote rest).map fun (t, r) => (c :: t, r)

/-- The text up to and with the three closing quotes of a long string, and the rest. -/
def longString? (quote : Char) : List Char → Option (List Char × List Char)
  | [] => none
  | ['\\'] => none
  | '\\' :: c :: rest => (longString? quote rest).map fun (t, r) => ('\\' :: c :: t, r)
  | c :: rest =>
    match rest with
    | d :: e :: after =>
      if c == quote && d == quote && e == quote then some ([c, d, e], after)
      else (longString? quote rest).map fun (t, r) => (c :: t, r)
    | _ => none

/-- The string at the head of a text that begins with a quote, and the rest. -/
def string? : List Char → Option (List Char × List Char)
  | q :: a :: b :: rest =>
    if a == q && b == q then (longString? q rest).map fun (t, r) => (q :: a :: b :: t, r)
    else if a == q then some ([q, a], b :: rest)
    else (shortString? q (a :: b :: rest)).map fun (t, r) => (q :: t, r)
  | [q, a] => if a == q then some ([q, a], []) else none
  | _ => none

/-- Operators and delimiters, the longest first. -/
def operators : List String :=
  ["**=", "//=", ">>=", "<<=", "...", "!=", "%=", "&=", "**", "*=", "+=", "-=", "->", "//", "/=",
    ":=", "<<", "<=", "<>", "==", ">=", ">>", "@=", "^=", "|=", "%", "&", "(", ")", "*", "+", ",",
    "-", ".", "/", ":", ";", "<", "=", ">", "@", "[", "]", "^", "\x7b", "|", "\x7d", "~"]

/-- The operator at the head of the text. -/
def operator? (cs : List Char) : Option String := operators.find? fun o => o.toList.isPrefixOf cs

/-- The bracket that closes another. -/
def partner? : Char → Option Char
  | ')' => some '('
  | ']' => some '['
  | '\x7d' => some '\x7b'
  | _ => none

/-- Keeps track of brackets over an operator. -/
def bracket? (s : Lexer) (op : String) : Option Lexer :=
  match op.toList with
  | [c] =>
    if c == '(' || c == '[' || c == '\x7b' then
      if s.brackets.length ≥ bracketLimit then none else some { s with brackets := c :: s.brackets }
    else
      match partner? c with
      | none => some s
      | some o =>
        match s.brackets with
        | b :: outer => if b == o then some { s with brackets := outer } else none
        | [] => none
  | _ => some s

/-- A name: beyond ASCII its characters must form an identifier. -/
def nameKind? (text : List Char) : Option TokenKind :=
  let word := String.ofList text
  if text.all (·.toNat < 128) then
    some (if keywords.contains word then .keyword word else .name word)
  else if isIdentifier text then some (.name word)
  else none

/-- Reads the token at the head of a text that begins neither a line nor with a blank. -/
def token? (s : Lexer) : Option Lexer :=
  match s.ahead with
  | [] => none
  | c :: rest =>
    let letters :=
      if c == '"' || c == '\'' then some []
      else stringLetters? false false false false s.ahead
    match letters with
    | some letters => do
      let (text, after) ← string? (s.ahead.drop letters.length)
      some (s.emit (.string (letters ++ text)) (text.count '\n') after)
    | none =>
      if isNameStart c then do
        let kind ← nameKind? (s.ahead.takeWhile isNameChar)
        some (s.emit kind 0 (s.ahead.dropWhile isNameChar))
      else if isDigit c || (c == '.' && rest.head?.any isDigit) then do
        let (text, after) ← Numeral.read? s.ahead
        some (s.emit (.number text) 0 after)
      else do
        let op ← operator? s.ahead
        let t ← s.bracket? op
        some (t.emit (.op op) 0 (s.ahead.drop op.length))

/-- One step: a line's depth, a blank, a comment, a line end, a joined line or a token. -/
def step? (s : Lexer) : Option Lexer :=
  if s.fresh then do
    let (depth, held, breaks, rest) ← lineDepth 0 0 0 0 s.ahead
    let t := { s with ahead := rest, line := s.line + breaks, fresh := false }
    match rest with
    | '#' :: _ =>
      some
        { t with
          ahead := (rest.dropWhile (· != '\n')).drop 1
          line := t.line + 1
          fresh := true }
    | '\n' :: after => some { t with ahead := after, line := t.line + 1, fresh := true }
    | _ =>
      if s.brackets.isEmpty then t.enter? (if held = 0 then depth else (held, held)) else some t
  else
    match s.ahead with
    | [] => none
    | c :: rest =>
      if c == ' ' || c == '\t' || c == '\x0c' then some { s with ahead := rest }
      else if c == '#' then some { s with ahead := rest.dropWhile (· != '\n') }
      else if c == '\n' then
        let t :=
          { (if s.brackets.isEmpty then s.mark .newline else s) with
            ahead := rest
            line := s.line + 1
            fresh := true }
        some t
      else if c == '\\' then
        (joined? rest).map fun next => { s with ahead := next, line := s.line + 1 }
      else s.token?

/-- Steps until the text is read. -/
def run? : Nat → Lexer → Option Lexer
  | 0, _ => none
  | fuel + 1, s =>
    if s.ahead.isEmpty && (s.fresh || s.brackets.isEmpty) then some s
    else (s.step?).bind (run? fuel)

end Lexer

/-- The text with a newline at its end. -/
def endLine (cs : List Char) : List Char := if cs.getLast? = some '\n' then cs else cs ++ ['\n']

/-- The lines that the lexer reads. An empty one is added behind a carriage return and a newline at
the end of the source, so that a backslash in front of them joins two lines. -/
def lexed (source : List Char) : List Char :=
  endLine (unifyNewlines source) ++ if endsWith ['\r', '\n'] source then ['\n'] else []

/-- The tokens of a source. -/
def tokens? (source : List Char) : Option (List Token) := do
  if source.contains '\x00' then none
  let text := lexed source
  let s ← Lexer.run? (2 * text.length + 2) ⟨text, 1, true, [], [], 0, #[]⟩
  if !s.brackets.isEmpty then none
  let (_, t) := Lexer.close 0 s.blocks s
  some (t.mark .finish).done.toList

end SourceAtlas.Grammar
