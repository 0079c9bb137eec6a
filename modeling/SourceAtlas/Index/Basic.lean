import SourceAtlas.Graph.Basic
import SourceAtlas.Outline.Basic

/-!
# Project indexes

The index of a project holds the outline of each of its files by path, the graph of definitions and
the graph of files with their transposes, a table that says in which file a symbol is defined, and
four running totals.
-/

set_option autoImplicit false

namespace SourceAtlas

/-- Counts over the files of an index. -/
structure Totals where
  files : Int
  lines : Int
  functions : Int
  classes : Int
  deriving DecidableEq, Repr

/-- The index of a project. -/
structure Index where
  root : String
  files : Assoc Outline
  dependencies : Graph
  dependents : Graph
  imports : Graph
  importers : Graph
  symbols : Assoc String
  totals : Totals
  deriving Repr

namespace Totals

/-- No files. -/
def zero : Totals := ⟨0, 0, 0, 0⟩

/-- The totals with the counts of one outline added; the number of files is kept. -/
def add (t : Totals) (o : Outline) : Totals :=
  { t with
    lines := t.lines + o.totalLines
    functions := t.functions + o.functions.length
    classes := t.classes + o.classes.length }

/-- The totals with the counts of one outline taken away; the number of files is kept. -/
def subtract (t : Totals) (o : Outline) : Totals :=
  { t with
    lines := t.lines - o.totalLines
    functions := t.functions - o.functions.length
    classes := t.classes - o.classes.length }

/-- The totals of files. -/
def ofFiles (files : Assoc Outline) : Totals :=
  { files.foldl (fun t (_, o) => t.add o) zero with files := files.length }

end Totals

namespace Index

/-- An index without files. -/
def empty (root : String) : Index := ⟨root, [], [], [], [], [], [], .zero⟩

end Index

/-! ## Symbol tables

The table of an index says for each name in which file it is defined. The first file to define a
name keeps it. -/

/-- The table with `value` for the name, unless it has a value already. -/
def Assoc.putNew {β : Type} (t : Assoc β) (key : String) (value : β) : Assoc β :=
  if t.has key then t else t ++ [(key, value)]

namespace Outline

/-- The names that a file defines for a fresh table: functions under their qualified names, plain
functions also under their own, and classes. -/
def definedNames (o : Outline) : List String :=
  (o.functions.flatMap fun f =>
    if f.isMethod then [f.qualifiedName] else [f.qualifiedName, f.name]) ++
    o.classes.map ClassItem.name

/-- The names that an update enters or takes out for a file: functions and methods under both their
names, and classes. -/
def updatedNames (o : Outline) : List String :=
  (o.functions.flatMap fun f => [f.qualifiedName, f.name]) ++ o.classes.map ClassItem.name

end Outline

/-- A table from names to the files that define them. -/
abbrev Symbols := Assoc String

namespace Symbols

/-- The table with names of a file, as far as they are free. -/
def enter (table : Symbols) (path : String) (names : List String) : Symbols :=
  names.foldl (fun t name => Assoc.putNew t name path) table

/-- The table without those of the names that belong to the file. -/
def release (table : Symbols) (path : String) (names : List String) : Symbols :=
  table.filter fun (name, owner) => !(owner == path && names.contains name)

/-- The symbols of files. -/
def ofFiles (files : Assoc Outline) : Symbols :=
  files.foldl (fun t (path, o) => enter t path o.definedNames) []

end Symbols

end SourceAtlas
