import SourceAtlas.Text.CharName

/-!
# String literals

What a string token stands for: a text, bytes, or for a formatted string the literal texts and
replacement fields it is made of. The expression of a field is cut out as text here; it holds no
backslash and no number sign, its brackets are balanced, and quotes in it are closed.
-/

set_option autoImplicit false

namespace SourceAtlas.Grammar

open SourceAtlas.Text

/-- A string token taken apart: what its letters say, and the text between its quotes. -/
structure StringToken where
  isRaw : Bool
  isBytes : Bool
  isFormat : Bool
  isMarked : Bool
  body : List Char
  deriving DecidableEq, Repr

/-- The parts of a literal as written. -/
def StringToken.ofText (text : List Char) : StringToken :=
  let letters := text.takeWhile fun c => c != '"' && c != '\''
  let quotes := text.drop letters.length
  let size :=
    match quotes with
    | a :: b :: c :: _ :: _ :: _ :: _ => if a == b && b == c then 3 else 1
    | _ => 1
  let has := fun (low high : Char) => letters.any fun c => c == low || c == high
  ⟨has 'r' 'R', has 'b' 'B', has 'f' 'F', letters.head? == some 'u',
    (quotes.drop size).take (quotes.length - 2 * size)⟩

/-- The control characters that letters after a backslash stand for, and the characters that stand
for themselves. -/
def plainEscape? : Char → Option Nat
  | '\\' => some 92
  | '\'' => some 39
  | '"' => some 34
  | 'a' => some 7
  | 'b' => some 8
  | 'f' => some 12
  | 'n' => some 10
  | 'r' => some 13
  | 't' => some 9
  | 'v' => some 11
  | _ => none

/-- The value of up to `n` octal digits. -/
def octal (n value : Nat) (cs : List Char) : Nat × List Char :=
  match n, cs with
  | n + 1, c :: rest =>
    if '0' ≤ c ∧ c ≤ '7' then octal n (value * 8 + (c.toNat - 48)) rest else (value, cs)
  | _, _ => (value, cs)

/-- Exactly `n` hexadecimal digits: their value and the rest. -/
def hexDigits? (n value : Nat) (cs : List Char) : Option (Nat × List Char) :=
  match n, cs with
  | 0, _ => some (value, cs)
  | n + 1, c :: rest => do
    let d ← hexDigit? c
    hexDigits? n (value * 16 + d) rest
  | _, [] => none

/-- What an escape in a text or in bytes stands for, its backslash taken: code points and the rest.
Only texts know escapes of more than a byte. -/
def escape? (inText : Bool) (c : Char) (rest : List Char) : Option (List Nat × List Char) :=
  if c == '\n' then some ([], rest)
  else
    match plainEscape? c with
    | some n => some ([n], rest)
    | none =>
      if '0' ≤ c ∧ c ≤ '7' then
        let (n, after) := octal 2 (c.toNat - 48) rest
        some ([if inText then n else n % 256], after)
      else if c == 'x' then (hexDigits? 2 0 rest).map fun (n, r) => ([n], r)
      else if !inText then some ([92, c.toNat], rest)
      else if c == 'u' then (hexDigits? 4 0 rest).map fun (n, r) => ([n], r)
      else if c == 'U' then
        (hexDigits? 8 0 rest).bind fun (n, r) => if n ≤ 0x10FFFF then some ([n], r) else none
      else if c == 'N' then
        match rest with
        | '\x7b' :: more =>
          match cutAt? ['\x7d'] more with
          | some (charName, after) => (charNamed? charName).map fun n => ([n], after)
          | none => none
        | _ => none
      else some ([92, c.toNat], rest)

/-- The code points of a text with escapes; a backslash at its end stands for itself. -/
def unescape? (inText : Bool) : Nat → List Char → Option (List Nat)
  | 0, _ => some []
  | fuel + 1, cs =>
    match cs with
    | [] => some []
    | ['\\'] => some [92]
    | '\\' :: c :: rest => do
      let (codes, after) ← escape? inText c rest
      let more ← unescape? inText fuel after
      some (codes ++ more)
    | c :: rest => (unescape? inText fuel rest).map (c.toNat :: ·)

/-- The code points of a text as it stands between quotes. -/
def textCodes? (isRaw : Bool) (body : List Char) : Option (List Nat) :=
  if isRaw then some (body.map Char.toNat) else unescape? true (body.length + 1) body

/-- The bytes of a literal as it stands between quotes. Only ASCII characters may stand there. -/
def byteValues? (isRaw : Bool) (body : List Char) : Option (List Nat) :=
  if body.any (·.toNat ≥ 128) then none
  else if isRaw then some (body.map Char.toNat)
  else unescape? false (body.length + 1) body

/-- A part of a formatted string: a literal text, or a field with the text of its expression, that
text with its equals sign when it is to be shown, the conversion, and the parts of its format. -/
inductive FormatPiece where
  | literal (codes : List Nat)
  | field (source : List Char) (shown : Option (List Char)) (conversion : Option Char)
    (format : Option (List FormatPiece))

namespace FormatPiece

/-- The literal text up to the next field, its end or a doubled brace: that text, whether it ended
at a doubled brace, and the rest. Nothing if a closing brace stands alone in the outermost text. -/
def literalText? (isRaw outer : Bool) : Nat → List Char → Option (List Char × Bool × List Char)
  | 0, cs => some ([], false, cs)
  | fuel + 1, cs =>
    match cs with
    | [] => some ([], false, [])
    | c :: rest =>
      if !isRaw && c == '\\' && !rest.isEmpty then
        match rest with
        | 'N' :: '\x7b' :: more =>
          let charName := more.takeWhile (· != '\x7d')
          let after := more.drop charName.length
          (literalText? isRaw outer fuel (after.drop 1)).map fun (t, d, r) =>
            ('\\' :: 'N' :: '\x7b' :: charName ++ after.take 1 ++ t, d, r)
        | d :: more =>
          if d == '\x7b' || d == '\x7d' then
            (brace? d more).map fun (t, doubled, r) => ('\\' :: t, doubled, r)
          else
            (literalText? isRaw outer fuel more).map fun (t, doubled, r) =>
              ('\\' :: d :: t, doubled, r)
        | [] => some ([c], false, [])
      else if c == '\x7b' || c == '\x7d' then brace? c rest
      else (literalText? isRaw outer fuel rest).map fun (t, doubled, r) => (c :: t, doubled, r)
where
  /-- A brace `c` in front of `rest`. -/
  brace? (c : Char) (rest : List Char) : Option (List Char × Bool × List Char) :=
    if outer && rest.head? == some c then some ([c], true, rest.drop 1)
    else if outer && c == '\x7d' then none
    else some ([], false, c :: rest)

/-- A place inside the expression of a field: open brackets, the innermost first, and the quote that
is open, with its length. -/
structure Place where
  brackets : List Char
  quote : Option (Char × Nat)

/-- The text of a field's expression and the rest, which begins with what ends the expression. -/
def expressionText? : Nat → Place → List Char → Option (List Char × List Char)
  | 0, _, _ => none
  | fuel + 1, p, cs =>
    let go := fun (taken : List Char) (q : Place) (rest : List Char) =>
      (expressionText? fuel q rest).map fun (t, r) => (taken ++ t, r)
    match cs with
    | [] => none
    | c :: rest =>
      if c == '\\' then none
      else
        match p.quote with
        | some (q, size) =>
          if c == q then
            if size = 3 then
              match rest with
              | a :: b :: after =>
                if a == q && b == q then go [c, a, b] { p with quote := none } after
                else go [c] p rest
              | _ => go [c] p rest
            else go [c] { p with quote := none } rest
          else go [c] p rest
        | none =>
          if c == '"' || c == '\'' then
            match rest with
            | a :: b :: after =>
              if a == c && b == c then go [c, a, b] { p with quote := some (c, 3) } after
              else go [c] { p with quote := some (c, 1) } rest
            | _ => go [c] { p with quote := some (c, 1) } rest
          else if c == '[' || c == '(' || c == '\x7b' then
            if p.brackets.length ≥ 200 then none
            else go [c] { p with brackets := c :: p.brackets } rest
          else if c == '#' then none
          else if p.brackets.isEmpty &&
              (c == '!' || c == ':' || c == '\x7d' || c == '=' || c == '<' || c == '>') then
            if c != ':' && c != '\x7d' && rest.head? == some '=' then go [c, '='] p (rest.drop 1)
            else if c == '<' || c == '>' then go [c] p rest
            else some ([], cs)
          else if c == ']' || c == ')' || c == '\x7d' then
            match p.brackets with
            | o :: outer =>
              if (o == '(' && c == ')') || (o == '[' && c == ']') ||
                  (o == '\x7b' && c == '\x7d') then
                go [c] { p with brackets := outer } rest
              else none
            | [] => none
          else go [c] p rest

/-- ASCII blanks, which may stand behind an equals sign. -/
def isAsciiBlank (c : Char) : Bool := c == ' ' || (9 ≤ c.toNat && c.toNat ≤ 13)

mutual

/-- The parts of a formatted text at nesting level `level`, and the rest: empty for the outermost
text, else the closing brace of the field whose format this is. -/
def pieces? (isRaw : Bool) : Nat → Nat → List Char → Option (List FormatPiece × List Char)
  | 0, _, _ => none
  | fuel + 1, level, cs => do
    let (text, doubled, rest) ← literalText? isRaw (level == 0) (cs.length + 1) cs
    let codes ← textCodes? isRaw text
    if doubled then
      let (more, after) ← pieces? isRaw fuel level rest
      some (.literal codes :: more, after)
    else
      match rest with
      | '\x7b' :: inner => do
        let (fields, after) ← field? isRaw fuel level inner
        let (more, last) ← pieces? isRaw fuel level after
        some (.literal codes :: fields ++ more, last)
      | _ => some ([.literal codes], rest)

/-- A field, its opening brace taken: the text it shows, if any, and the field. Fields nest two
deep. -/
def field? (isRaw : Bool) : Nat → Nat → List Char → Option (List FormatPiece × List Char)
  | 0, _, _ => none
  | fuel + 1, level, cs => do
    if level ≥ 2 then none
    let (source, rest) ← expressionText? (cs.length + 1) ⟨[], none⟩ cs
    if source.all fun c => c == ' ' || c == '\t' || c == '\n' || c == '\x0c' then none
    let (shown, rest) :=
      match rest with
      | '=' :: after =>
        let blanks := after.takeWhile isAsciiBlank
        (some (source ++ '=' :: blanks), after.drop blanks.length)
      | _ => (none, rest)
    let (conversion, rest) ←
      match rest with
      | '!' :: c :: after => if c == 's' || c == 'r' || c == 'a' then some (some c, after) else none
      | ['!'] => none
      | _ => some (none, rest)
    let (format, rest) ←
      match rest with
      | ':' :: after =>
        if after.isEmpty then none
        else do
          let (parts, last) ← pieces? isRaw fuel (level + 1) after
          some (some parts, last)
      | _ => some (none, rest)
    match rest with
    | '\x7d' :: after =>
      let conversion :=
        if shown.isSome && format.isNone && conversion.isNone then some 'r' else conversion
      some ([.field source shown conversion format], after)
    | _ => none

end

/-- The parts of a formatted string's body. -/
def ofBody? (isRaw : Bool) (body : List Char) : Option (List FormatPiece) := do
  let (parts, rest) ← pieces? isRaw (2 * body.length + 2) 0 body
  if rest.isEmpty then some parts else none

end FormatPiece

end SourceAtlas.Grammar
