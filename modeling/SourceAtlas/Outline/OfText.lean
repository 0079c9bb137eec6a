import SourceAtlas.Outline.CSharp
import SourceAtlas.Outline.Data
import SourceAtlas.Outline.Go
import SourceAtlas.Outline.Prose
import SourceAtlas.Outline.Python
import SourceAtlas.Outline.Rust
import SourceAtlas.Outline.Script

/-!
# Outlines of texts of any kind

The one entry to all outlines: a text is outlined by the rules of its kind. The kind is given by a
label, or else by the extension of the text's name.
-/

set_option autoImplicit false

namespace SourceAtlas

/-- What the outline of a text follows. -/
inductive FileKind where
  | python | prose | script | go | rust | csharp | json | plain
  deriving DecidableEq, Repr

namespace FileKind

/-- The kind that a label names; an unknown label means lines only. -/
def ofLabel : String → FileKind
  | "python" => .python
  | "text" => .prose
  | "typescript" => .script
  | "javascript" => .script
  | "go" => .go
  | "rust" => .rust
  | "csharp" => .csharp
  | "json" => .json
  | _ => .plain

/-- The kind of a lower-case extension, without its dot. -/
def ofExtension : String → FileKind
  | "py" => .python
  | "pyw" => .python
  | "md" => .prose
  | "txt" => .prose
  | "rst" => .prose
  | "ts" => .script
  | "tsx" => .script
  | "js" => .script
  | "jsx" => .script
  | "go" => .go
  | "rs" => .rust
  | "cs" => .csharp
  | "json" => .json
  | _ => .plain

/-- The kind of a text by the part of its name after the last dot. No extension holds a letter that
a character beyond ASCII is the capital of, so the ASCII mapping to lower case decides. -/
def ofName (name : String) : FileKind :=
  match Text.cutLast? '.' name.toList with
  | some (_, extension) => ofExtension (String.ofList (extension.map Char.toLower))
  | none => .plain

/-- The kind by label if there is one, by name otherwise. -/
def of (name : String) (label : Option String) : FileKind :=
  match label with
  | some l => ofLabel l
  | none => ofName name

end FileKind

/-- The outline of a text by the rules of a kind. -/
def Outline.ofKind (kind : FileKind) (sourceName : String) (text : List Char) :
    Except OutlineError Outline :=
  match kind with
  | .python => Python.outline sourceName text
  | .prose => .ok (Prose.outline sourceName text)
  | .json => Data.outline sourceName text
  | .script => .ok (Script.outline sourceName text)
  | .go => .ok (Go.outline sourceName text)
  | .rust => .ok (Rust.outline sourceName text)
  | .csharp => .ok (CSharp.outline sourceName text)
  | .plain => .ok (Outline.plain sourceName text)

/-- The outline of a text by its label, or else by its name. -/
def Outline.ofText (text : String) (sourceName : String) (label : Option String) :
    Except OutlineError Outline :=
  Outline.ofKind (.of sourceName label) sourceName text.toList

end SourceAtlas
