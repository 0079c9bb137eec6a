import SourceAtlas.Text.Ranges

/-!
# Numerals

Number literals: decimal, hexadecimal, octal and binary integers, decimal fractions with exponents,
and imaginary numbers. Single underscores may stand between digits. A numeral must not run into a
name, except that the keywords which can follow a number in an expression may follow it directly.
-/

set_option autoImplicit false

namespace SourceAtlas.Grammar

open SourceAtlas.Text

/-- ASCII digits. -/
def isDigit (c : Char) : Bool := '0' ≤ c && c ≤ '9'

/-- Characters that continue a name: ASCII letters, digits, the underscore, and everything beyond
ASCII. -/
def isNameChar (c : Char) : Bool :=
  ('a' ≤ c && c ≤ 'z') || ('A' ≤ c && c ≤ 'Z') || isDigit c || c == '_' || c.toNat ≥ 128

/-- Characters that begin a name. -/
def isNameStart (c : Char) : Bool := isNameChar c && !isDigit c

namespace Numeral

/-- Digits of class `p`, each after the first possibly behind one underscore, and the rest. Nothing
if an underscore has no digit behind it. -/
def digits? (p : Char → Bool) : List Char → Option (List Char × List Char)
  | [] => some ([], [])
  | ['_'] => none
  | '_' :: d :: rest =>
    if p d then (digits? p rest).map fun (ds, r) => ('_' :: d :: ds, r) else none
  | c :: rest =>
    if p c then (digits? p rest).map fun (ds, r) => (c :: ds, r) else some ([], c :: rest)

/-- The text begins with the word, and no name continues behind it. -/
def startsWord (word rest : List Char) : Bool :=
  word.isPrefixOf rest && !(rest.drop word.length).head?.any isNameChar

/-- May a number end in front of this text? -/
def mayEnd : List Char → Bool
  | [] => true
  | c :: rest =>
    (c == 'a' && startsWord ['n', 'd'] rest) || (c == 'e' && startsWord ['l', 's', 'e'] rest) ||
      (c == 'f' && startsWord ['o', 'r'] rest) || (c == 'o' && startsWord ['r'] rest) ||
      (c == 'n' && startsWord ['o', 't'] rest) ||
      (c == 'i' && rest.head?.any fun d => d == 'f' || d == 'n' || d == 's') || !isNameChar c

/-- The numeral `text` in front of `rest`, if it may end there. -/
def ended? (text rest : List Char) : Option (List Char × List Char) :=
  if mayEnd rest then some (text, rest) else none

/-- Digits in a base that a letter behind a zero names; an underscore may stand in front of them. -/
def based? (letter : Char) (p : Char → Bool) (rest : List Char) :
    Option (List Char × List Char) := do
  let (ds, after) ← digits? p rest
  if ds.isEmpty then none else ended? ('0' :: letter :: ds) after

/-- An imaginary sign behind `text`, or the end of the numeral. -/
def imaginary? (text rest : List Char) : Option (List Char × List Char) :=
  match rest with
  | c :: after => if c == 'j' || c == 'J' then ended? (text ++ [c]) after else ended? text rest
  | [] => some (text, [])

/-- An exponent behind `text`, or what can follow it. A letter of an exponent without digits has to
begin a keyword. -/
def exponent? (text rest : List Char) : Option (List Char × List Char) :=
  match rest with
  | e :: after =>
    if e == 'e' || e == 'E' then
      match after with
      | s :: d :: more =>
        if s == '+' || s == '-' then
          if isDigit d then do
            let (ds, r) ← digits? isDigit more
            imaginary? (text ++ e :: s :: d :: ds) r
          else none
        else if isDigit s then do
          let (ds, r) ← digits? isDigit (d :: more)
          imaginary? (text ++ e :: s :: ds) r
        else ended? text rest
      | [s] =>
        if isDigit s then imaginary? (text ++ [e, s]) []
        else if s == '+' || s == '-' then none
        else ended? text rest
      | [] => ended? text rest
    else imaginary? text rest
  | [] => some (text, [])

/-- A fraction behind `text`, whose point is taken, or what can follow it. -/
def fraction? (text rest : List Char) : Option (List Char × List Char) :=
  match rest with
  | d :: more =>
    if isDigit d then do
      let (ds, r) ← digits? isDigit more
      exponent? (text ++ d :: ds) r
    else exponent? text rest
  | [] => some (text, [])

/-- What can follow the digits in front of a point or an exponent. -/
def decimal? (text rest : List Char) : Option (List Char × List Char) :=
  match rest with
  | '.' :: more => fraction? (text ++ ['.']) more
  | _ => exponent? text rest

/-- Octal digits. -/
def isOctal (c : Char) : Bool := '0' ≤ c && c ≤ '7'

/-- Binary digits. -/
def isBinary (c : Char) : Bool := c == '0' || c == '1'

/-- A numeral that begins with zero. An integer of value other than zero must not. -/
def zero? (rest : List Char) : Option (List Char × List Char) :=
  match rest with
  | 'x' :: r => based? 'x' (fun c => (hexDigit? c).isSome) r
  | 'X' :: r => based? 'X' (fun c => (hexDigit? c).isSome) r
  | 'o' :: r => based? 'o' isOctal r
  | 'O' :: r => based? 'O' isOctal r
  | 'b' :: r => based? 'b' isBinary r
  | 'B' :: r => based? 'B' isBinary r
  | _ => do
    let (ds, after) ← digits? isDigit rest
    let whole := '0' :: ds
    let isFraction :=
      after.head?.any fun c => c == '.' || c == 'e' || c == 'E' || c == 'j' || c == 'J'
    if isFraction then decimal? whole after
    else if ds.all fun c => c == '0' || c == '_' then ended? whole after
    else none

/-- The numeral at the head of a text that begins with a digit, or with a point and a digit, and the
rest; nothing if it is malformed. -/
def read? : List Char → Option (List Char × List Char)
  | '0' :: rest => zero? rest
  | '.' :: rest => fraction? ['.'] rest
  | c :: rest => do
    let (ds, after) ← digits? isDigit rest
    decimal? (c :: ds) after
  | [] => none

end Numeral

end SourceAtlas.Grammar
