import SourceAtlas.Text.Quoted

/-!
# JSON values

A value of the JSON format. The fields of an object keep their order, and a number that is not whole
keeps the text it was written with.
-/

set_option autoImplicit false

namespace SourceAtlas

/-- JSON values. -/
inductive Json where
  | null
  | bool (value : Bool)
  | int (value : Int)
  | real (literal : String)
  | text (value : String)
  | array (items : List Json)
  | object (fields : List (String × Json))
  deriving Repr, Inhabited

namespace Json

/-- The value of a field of an object. -/
def field? (name : String) : Json → Option Json
  | .object fields => fields.lookup name
  | _ => none

/-- The text, if the value is one. -/
def text? : Json → Option String
  | .text s => some s
  | _ => none

/-- An array of texts. -/
def texts (items : List String) : Json := .array (items.map .text)

/-- A text, or null. -/
def ofText? : Option String → Json
  | some s => .text s
  | none => .null

end Json

/-! ## Writing JSON

Values are written in ASCII: other characters are escaped by their sixteen-bit units. `Json.compact`
writes no blanks, `Json.indented` one item or field per line. -/

namespace Json

open SourceAtlas.Text

/-- The escape of a sixteen-bit unit. -/
def unitEscape (n : Nat) : List Char := '\\' :: 'u' :: hexText 4 n

/-- A character between quotes. -/
def escapeChar (c : Char) : List Char :=
  let n := c.toNat
  if c == '"' then ['\\', '"']
  else if c == '\\' then ['\\', '\\']
  else if 32 ≤ n && n < 127 then [c]
  else if c == '\n' then ['\\', 'n']
  else if c == '\r' then ['\\', 'r']
  else if c == '\t' then ['\\', 't']
  else if n == 8 then ['\\', 'b']
  else if n == 12 then ['\\', 'f']
  else if n < 0x10000 then unitEscape n
  else unitEscape (0xD800 + (n - 0x10000) / 0x400) ++ unitEscape (0xDC00 + (n - 0x10000) % 0x400)

/-- A text between quotes. -/
def quote (s : String) : String := "\"" ++ String.ofList (s.toList.flatMap escapeChar) ++ "\""

/-- A value without parts. -/
def plainText : Json → String
  | .null => "null"
  | .bool b => if b then "true" else "false"
  | .int n => toString n
  | .real literal => literal
  | .text s => quote s
  | _ => ""

mutual

/-- The value without blanks. -/
def compact : Json → String
  | .array items => "[" ++ ",".intercalate (compactItems items) ++ "]"
  | .object fields => "\x7b" ++ ",".intercalate (compactFields fields) ++ "\x7d"
  | v => plainText v

/-- Items without blanks. -/
def compactItems : List Json → List String
  | [] => []
  | v :: vs => compact v :: compactItems vs

/-- Fields without blanks. -/
def compactFields : List (String × Json) → List String
  | [] => []
  | (k, v) :: rest => (quote k ++ ":" ++ compact v) :: compactFields rest

end

/-- A line break and two spaces per level. -/
def lineStart (level : Nat) : String := "\n" ++ String.ofList (List.replicate (2 * level) ' ')

/-- Parts between brackets, one per line; no parts leave the brackets empty. -/
def bracketed (opening closing : String) (level : Nat) (parts : List String) : String :=
  if parts.isEmpty then opening ++ closing
  else opening ++ lineStart (level + 1) ++ ("," ++ lineStart (level + 1)).intercalate parts ++
    lineStart level ++ closing

mutual

/-- The value with one item or field per line, inside `level` brackets. -/
def indentedAt (level : Nat) : Json → String
  | .array items => bracketed "[" "]" level (indentedItems (level + 1) items)
  | .object fields => bracketed "\x7b" "\x7d" level (indentedFields (level + 1) fields)
  | v => plainText v

/-- Items, each written inside `level` brackets. -/
def indentedItems (level : Nat) : List Json → List String
  | [] => []
  | v :: vs => indentedAt level v :: indentedItems level vs

/-- Fields, each written inside `level` brackets. -/
def indentedFields (level : Nat) : List (String × Json) → List String
  | [] => []
  | (k, v) :: rest => (quote k ++ ": " ++ indentedAt level v) :: indentedFields level rest

end

/-- The value with one item or field per line. -/
def indented (v : Json) : String := indentedAt 0 v

end Json

end SourceAtlas
