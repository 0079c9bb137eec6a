import SourceAtlas.Json.Reader
import SourceAtlas.Outline.Basic
import SourceAtlas.Pattern.Basic

/-!
# JSON texts

The sections of a JSON text are its keys, down to a depth of four, and those items of arrays that
have a name. A reference to another schema counts as an import. The line of a key is the first one,
from a line given by the key around it, that shows the key between quotes with a colon behind. A
text that is no JSON value has its lines only.
-/

set_option autoImplicit false

namespace SourceAtlas.Data

open SourceAtlas.Text
open Pattern (exactly blanks)

/-- The depth beyond which keys are left out. -/
def maxDepth : Nat := 4

/-- The fields by which an item of an array is named, in order of preference. -/
def namingFields : List String := ["name", "id", "type"]

/-- A key between quotes with a colon behind, blanks allowed around the key and before the colon. -/
def keyPattern (key : String) : Pattern :=
  exactly "\"" ++ blanks ++ exactly key ++ blanks ++ exactly "\"" ++ blanks ++ exactly ":"

/-- The number of the first line from index `start` on that shows the key; the first line of all if
none does. -/
def keyLine (lines : List (List Char)) (key : String) (start : Nat) : Nat :=
  let p := keyPattern key
  match (lines.drop start).findIdx? p.occursIn with
  | some i => start + i + 1
  | none => 1

/-- What the walk through a value finds, in order. -/
structure Findings where
  sections : List Section
  references : List ImportItem

/-- The findings of two parts. -/
def Findings.append (a b : Findings) : Findings :=
  ⟨a.sections ++ b.sections, a.references ++ b.references⟩

/-- A section of one line. -/
def lineSection (title : String) (level line : Nat) : Findings :=
  ⟨[⟨title, level, ⟨line, line⟩⟩], []⟩

/-- The name of an item by its first naming field that holds a text. -/
def itemName? (item : Json) : Option String :=
  namingFields.findSome? fun f => (item.field? f).bind Json.text?

/-- The part of a path behind its last dot. -/
def lastStep (path : List Char) : List Char :=
  match cutLast? '.' path with
  | some (_, step) => step
  | none => path

mutual

/-- The findings in a value at `path` and `depth`, with lines searched from index `start` on. -/
def walk (lines : List (List Char)) (path : List Char) (depth start : Nat) : Json → Findings
  | .object fields =>
    if depth > maxDepth then ⟨[], []⟩ else walkFields lines path depth start fields
  | .array items => if depth > maxDepth then ⟨[], []⟩ else walkItems lines path depth start 0 items
  | _ => ⟨[], []⟩

/-- The findings in the fields of an object. -/
def walkFields (lines : List (List Char)) (path : List Char) (depth start : Nat) :
    List (String × Json) → Findings
  | [] => ⟨[], []⟩
  | (key, value) :: rest =>
    let line := keyLine lines key start
    let here : Findings :=
      match key == "$ref", value with
      | true, .text target => ⟨[], [⟨target, [], none, line, false⟩]⟩
      | _, _ =>
        (lineSection key depth line).append
          (walk lines (path ++ '.' :: key.toList) (depth + 1) (line - 1) value)
    here.append (walkFields lines path depth start rest)

/-- The findings in the items of an array, the first of which has the index `i`. -/
def walkItems (lines : List (List Char)) (path : List Char) (depth start i : Nat) :
    List Json → Findings
  | [] => ⟨[], []⟩
  | .object fields :: rest =>
    let index := '[' :: (toString i).toList ++ [']']
    let here : Findings :=
      match itemName? (.object fields) with
      | some name =>
        let line := keyLine lines name start
        let title := String.ofList (lastStep path ++ index ++ ' ' :: name.toList)
        (lineSection title depth line).append
          (walk lines (path ++ index) (depth + 1) (line - 1) (.object fields))
      | none => walk lines (path ++ index) (depth + 1) start (.object fields)
    here.append (walkItems lines path depth start (i + 1) rest)
  | _ :: rest => walkItems lines path depth start (i + 1) rest

end

/-- The outline of a document. -/
def outline (sourceName : String) (text : List Char) : Except OutlineError Outline :=
  match Json.ofText text with
  | .error (.tooDeep inObject) => .error (.nestedTooDeep inObject)
  | .error .malformed => .ok (Outline.plain sourceName text)
  | .ok value =>
    let lines := splitNewlines text
    let found := walk lines [] 1 0 value
    .ok
      { Outline.ofLines sourceName text lines with
        sections := found.sections
        imports := found.references }

end SourceAtlas.Data
