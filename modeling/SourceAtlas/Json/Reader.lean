import SourceAtlas.Collection.Basic
import SourceAtlas.Json.Basic

/-!
# Reading JSON

`Json.ofText` reads one value with blanks around it. Besides the standard's values it knows `NaN`
and the two infinities. Of fields with one name the last value counts, at the place of the first. A
text is refused when it is malformed, and so is a whole number of more than 4300 digits; values
nested too deeply are a fault of their own, found at the bracket that exceeds the limit.
-/

set_option autoImplicit false

namespace SourceAtlas

/-- Why a text is no JSON value. -/
inductive JsonFault where
  | malformed
  | tooDeep (inObject : Bool)
  deriving DecidableEq, Repr

namespace Json

open SourceAtlas.Text

/-- The number of brackets that may be open at once. -/
def nestingLimit : Nat := 990

/-- The most digits that a whole number may have. -/
def digitLimit : Nat := 4300

/-- Characters between values. -/
def isGap (c : Char) : Bool := c == ' ' || c == '\t' || c == '\n' || c == '\r'

/-- The text behind leading gaps. -/
def skipGaps (cs : List Char) : List Char := cs.dropWhile isGap

/-- The value of four hexadecimal digits. -/
def hex4? : List Char → Option (Nat × List Char)
  | a :: b :: c :: d :: rest => do
    let a ← hexDigit? a
    let b ← hexDigit? b
    let c ← hexDigit? c
    let d ← hexDigit? d
    some (((a * 16 + b) * 16 + c) * 16 + d, rest)
  | _ => none

/-- The character that a letter after a backslash stands for. -/
def letterEscape? : Char → Option Char
  | '"' => some '"'
  | '\\' => some '\\'
  | '/' => some '/'
  | 'b' => some '\x08'
  | 'f' => some '\x0c'
  | 'n' => some '\n'
  | 'r' => some '\r'
  | 't' => some '\t'
  | _ => none

/-- The character of a code point; half of a pair has none, and the replacement character stands for
it. -/
def scalar (n : Nat) : Char := if isScalar n then Char.ofNat n else '�'

/-- The low half of a pair that is written as an escape, with the text behind it. -/
def lowHalf? : List Char → Option (Nat × List Char)
  | '\\' :: 'u' :: rest =>
    (hex4? rest).bind fun (n, after) => if 0xDC00 ≤ n ∧ n ≤ 0xDFFF then some (n, after) else none
  | _ => none

/-- The character that an escape stands for. -/
def escape? : List Char → Option (Char × List Char)
  | 'u' :: rest => do
    let (high, rest) ← hex4? rest
    match lowHalf? rest with
    | some (low, after) =>
      if 0xD800 ≤ high ∧ high ≤ 0xDBFF then
        some (Char.ofNat (0x10000 + (high - 0xD800) * 0x400 + (low - 0xDC00)), after)
      else some (scalar high, rest)
    | none => some (scalar high, rest)
  | c :: rest => (letterEscape? c).map fun d => (d, rest)
  | [] => none

/-- The text up to the closing quote; `done` is what was read, the last character first. -/
def quotedTail? : Nat → List Char → List Char → Option (String × List Char)
  | 0, _, _ => none
  | fuel + 1, done, cs =>
    match cs with
    | [] => none
    | '"' :: rest => some (String.ofList done.reverse, rest)
    | '\\' :: rest =>
      match escape? rest with
      | some (c, after) => quotedTail? fuel (c :: done) after
      | none => none
    | c :: rest => if c.toNat < 32 then none else quotedTail? fuel (c :: done) rest

/-- A text up to its closing quote. -/
def quotedText? (cs : List Char) : Option (String × List Char) := quotedTail? (cs.length + 1) [] cs

/-- The fraction of a number, if one follows. -/
def fraction : List Char → List Char × List Char
  | '.' :: rest =>
    match rest.takeWhile Char.isDigit with
    | [] => ([], '.' :: rest)
    | digits => ('.' :: digits, rest.dropWhile Char.isDigit)
  | cs => ([], cs)

/-- The exponent of a number, if one follows. -/
def exponent : List Char → List Char × List Char
  | [] => ([], [])
  | e :: rest =>
    if e == 'e' || e == 'E' then
      let (sign, digits) :=
        match rest with
        | s :: more => if s == '+' || s == '-' then ([s], more) else ([], rest)
        | [] => ([], [])
      match digits.takeWhile Char.isDigit with
      | [] => ([], e :: rest)
      | ds => (e :: sign ++ ds, digits.dropWhile Char.isDigit)
    else ([], e :: rest)

/-- The digits in front of the point: a single zero, or digits of which the first is not zero. -/
def wholePart : List Char → List Char × List Char
  | '0' :: rest => (['0'], rest)
  | cs => (cs.takeWhile Char.isDigit, cs.dropWhile Char.isDigit)

/-- The value of decimal digits. -/
def decimalValue (digits : List Char) : Nat := digits.foldl (fun n d => n * 10 + (d.toNat - 48)) 0

/-- A number behind its sign. -/
def magnitude? (isNegative : Bool) (cs : List Char) : Option (Json × List Char) :=
  let (whole, rest) := wholePart cs
  if whole.isEmpty then none
  else
    let (fractional, rest) := fraction rest
    let (power, rest) := exponent rest
    if fractional.isEmpty && power.isEmpty then
      if whole.length > digitLimit then none
      else
        let n : Int := decimalValue whole
        some (.int (if isNegative then -n else n), rest)
    else some (.real
      (String.ofList ((if isNegative then ['-'] else []) ++ whole ++ fractional ++ power)), rest)

/-- A number with its sign. -/
def number? : List Char → Option (Json × List Char)
  | '-' :: cs => magnitude? true cs
  | cs => magnitude? false cs

/-- The words that stand for values. -/
def words : List (List Char × Json) :=
  [("null".toList, .null), ("true".toList, .bool true), ("false".toList, .bool false),
    ("NaN".toList, .real "NaN"),
    ("Infinity".toList, .real "Infinity"), ("-Infinity".toList, .real "-Infinity")]

/-- A word or a number. -/
def scalarValue? (cs : List Char) : Option (Json × List Char) :=
  match words.find? fun (w, _) => w.isPrefixOf cs with
  | some (w, v) => some (v, cs.drop w.length)
  | none => number? cs

/-- The outcome of a reader that knows one fault only. -/
def orMalformed {α : Type} : Option α → Except JsonFault α
  | some a => .ok a
  | none => .error .malformed

mutual

/-- A value, with `depth` brackets open around it. -/
def value : Nat → Nat → List Char → Except JsonFault (Json × List Char)
  | 0, _, _ => .error .malformed
  | fuel + 1, depth, cs =>
    match cs with
    | '"' :: rest => orMalformed ((quotedText? rest).map fun (s, after) => (.text s, after))
    | '[' :: rest =>
      if depth ≥ nestingLimit then .error (.tooDeep false)
      else
        match skipGaps rest with
        | ']' :: after => .ok (.array [], after)
        | inner => items fuel (depth + 1) [] inner
    | '\x7b' :: rest =>
      if depth ≥ nestingLimit then .error (.tooDeep true)
      else
        match skipGaps rest with
        | '\x7d' :: after => .ok (.object [], after)
        | inner => fields fuel (depth + 1) [] inner
    | _ => orMalformed (scalarValue? cs)

/-- The items of an array and its closing bracket; `done` holds those read, the last first. -/
def items : Nat → Nat → List Json → List Char → Except JsonFault (Json × List Char)
  | 0, _, _, _ => .error .malformed
  | fuel + 1, depth, done, cs =>
    match value fuel depth cs with
    | .error e => .error e
    | .ok (v, rest) =>
      match skipGaps rest with
      | ',' :: more => items fuel depth (v :: done) (skipGaps more)
      | ']' :: after => .ok (.array (v :: done).reverse, after)
      | _ => .error .malformed

/-- The fields of an object and its closing brace; `done` holds those read, the last first. -/
def fields : Nat → Nat → List (String × Json) → List Char → Except JsonFault (Json × List Char)
  | 0, _, _, _ => .error .malformed
  | fuel + 1, depth, done, cs =>
    match cs with
    | '"' :: rest =>
      match quotedText? rest with
      | none => .error .malformed
      | some (key, rest) =>
        match skipGaps rest with
        | ':' :: rest =>
          match value fuel depth (skipGaps rest) with
          | .error e => .error e
          | .ok (v, rest) =>
            match skipGaps rest with
            | ',' :: more => fields fuel depth ((key, v) :: done) (skipGaps more)
            | '\x7d' :: after => .ok (.object (Assoc.ofPairs ((key, v) :: done).reverse), after)
            | _ => .error .malformed
        | _ => .error .malformed
    | _ => .error .malformed

end

/-- The value that a text holds, with nothing but gaps around it. -/
def ofText (text : List Char) : Except JsonFault Json :=
  match value (2 * text.length + 2) 0 (skipGaps text) with
  | .error e => .error e
  | .ok (v, rest) => if (skipGaps rest).isEmpty then .ok v else .error .malformed

end Json

end SourceAtlas
