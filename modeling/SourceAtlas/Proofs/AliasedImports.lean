import SourceAtlas.Proofs.DependencyEdges
import SourceAtlas.Proofs.GraphUpkeep

/-!
# Imports under a new name

A Python file can import a name and give it a new one, which is then the name that its definitions
use. The outline keeps both (`Python.renamed_mem_imports_iff`), but the graph of dependencies is
made from the first alone: it looks for the imported name in the lines of a definition, and never
for the new one. So a definition that uses what it imports under the new name only depends on
nothing.

`Index.aliased_import_edge_iff` says exactly which edges to the imported symbol there are
nevertheless, and that no edge of the graph hangs on a new name. In the project of
`Index.used_under_new_name_without_edge` a dependency is missing.
-/

set_option autoImplicit false

namespace SourceAtlas

open SourceAtlas.Grammar

/-! ## What an outline keeps of the import -/

namespace Python

variable {s : Stmt} {source name newName : String} {line : Nat}

/-- Only the import of one name with a new name is kept with one name and a new one. -/
theorem renamed_mem_importItems_iff :
    (⟨source, [name], some newName, line, true⟩ : ImportItem) ∈ importItems s ↔
      s = .importFrom source [(name, some newName)] line := by
  constructor
  · intro h
    cases s with
    | importNames names l => simp [importItems] at h
    | importFrom from_ names l =>
      simp only [importItems, List.mem_singleton, ImportItem.mk.injEq, Int.ofNat_inj] at h
      obtain ⟨rfl, hnames, hnew, rfl, -⟩ := h
      -- One name was imported, so that its new name is the one that is kept.
      obtain ⟨⟨_, kept⟩, rfl, rfl⟩ := List.map_eq_singleton_iff.1 hnames.symm
      obtain rfl : some newName = kept := hnew
      rfl
    | function | classDef | expression | other => simp [importItems] at h
  · rintro rfl
    simp [importItems]

/-- The outline of a Python file keeps both names of a renamed import. -/
theorem renamed_mem_imports_iff {bytes : List UInt8} {path : String} {o : Outline}
    (hkind : FileKind.of path none = .python) (h : Outline.ofBytes bytes path = .ok o)
    {body : List Stmt} (hread : Stmt.ofSource? (Text.ofBytes bytes) = some body) :
    ⟨source, [name], some newName, line, true⟩ ∈ o.imports ↔
      .importFrom source [(name, some newName)] line ∈ breadthFirst body := by
  rw [Outline.ofBytes, Outline.ofText, hkind, String.toList_ofList] at h
  obtain ⟨hnone, -⟩ | ⟨same, hsame, rfl⟩ := outline_cases h
  · cases hread.symm.trans hnone
  · obtain rfl := Option.some.inj (hread.symm.trans hsame)
    rw [outlineOf, List.mem_flatMap]
    simp only [renamed_mem_importItems_iff, exists_eq_right]

end Python

/-! ## What the graph makes of it -/

namespace Outline

/-- The outline with other new names for what it imports. -/
def withNewNames (o : Outline) (newName : ImportItem → Option String) : Outline :=
  { o with imports := o.imports.map fun i => { i with newName := newName i } }

theorem importedSymbols_withNewNames (o : Outline) (newName : ImportItem → Option String)
    (symbols : Symbols) :
    (o.withNewNames newName).importedSymbols symbols = o.importedSymbols symbols := by
  have hnames : (o.withNewNames newName).imports.flatMap ImportItem.names =
      o.imports.flatMap ImportItem.names := List.flatMap_map _ _ _
  rw [importedSymbols, importedSymbols, hnames]

theorem dependences_withNewNames (o : Outline) (newName : ImportItem → Option String)
    (symbols : Symbols) : (o.withNewNames newName).dependences symbols = o.dependences symbols := by
  rw [dependences, dependences, importedWords, importedWords, importedSymbols_withNewNames]
  rfl

end Outline

/-- The graph of dependencies does not hang on the new names of imports. -/
theorem Graph.ofDependencies_withNewNames (files : Assoc Outline) (symbols : Symbols)
    (newName : String → ImportItem → Option String) :
    ofDependencies (files.map fun e => (e.1, e.2.withNewNames (newName e.1))) symbols =
      ofDependencies files symbols := by
  rw [ofDependencies, ofDependencies, List.flatMap_map]
  simp only [Outline.dependences_withNewNames]

namespace Index

variable {root : String} {settings : Settings} {tree : FileTree} {index : Index}

theorem dependencies_ofTree (hmade : ofTree root settings tree = .ok index) :
    index.dependencies = Graph.ofDependencies index.files index.symbols :=
  (congrArg dependencies (rebuild_ofTree hmade)).symm

/-- The reasons for an edge that one file gives, beside those that the others give. -/
theorem edge_beside_iff (hmade : ofTree root settings tree = .ok index) {path : String}
    {o : Outline} (ho : index.files.get? path = some o) {source target : String}
    (hother : source ≠ target) :
    index.dependencies.Edge source target ↔
      o.UsesImport index.symbols source target ∨ o.MentionsSymbol index.symbols source target ∨
        ∃ e ∈ index.files, e.1 ≠ path ∧ (e.2.MentionsSymbol index.symbols source target ∨
          e.2.UsesImport index.symbols source target) := by
  rw [dependencies_ofTree hmade, Graph.edge_ofDependencies_iff]
  simp only [Outline.exists_dependence_iff, and_iff_right hother]
  constructor
  · rintro ⟨⟨key, other⟩, hmem, hreason⟩
    by_cases hkey : key = path
    · -- A path stands for one file.
      subst hkey
      have hsame := Assoc.get?_of_mem (orderly_ofTree hmade).nodup_files hmem
      obtain rfl := Option.some.inj (hsame.symm.trans ho)
      rcases hreason with hmentions | huses
      · exact Or.inr (Or.inl hmentions)
      · exact Or.inl huses
    · exact Or.inr (Or.inr ⟨_, hmem, hkey, hreason⟩)
  · have hmem := Assoc.mem_of_get? ho
    rintro (huses | hmentions | ⟨e, he, -, hreason⟩)
    · exact ⟨_, hmem, Or.inr huses⟩
    · exact ⟨_, hmem, Or.inl hmentions⟩
    · exact ⟨e, he, hreason⟩

/-- **An import under a new name makes dependencies by the name that is imported, and never by the
new one.** Let a Python file of a new index import one symbol with a new name. The outline of the
file keeps both names. A function or class of the file, other than one of that name, points to the
symbol exactly if the imported name, and not the new one, stands as a word in its lines, or if there
is a reason apart from this import: the file has a definition of that name itself, which is
mentioned, or another file gives a reason for a definition of the same name. With any other new
names in any of the files the graph would be the same. -/
theorem aliased_import_edge_iff (hmade : ofTree root settings tree = .ok index) {path : String}
    {bytes : List UInt8} {o : Outline} (hkind : FileKind.of path none = .python)
    (hbytes : tree.files.get? path = some bytes) (ho : index.files.get? path = some o)
    {body : List Stmt} (hread : Stmt.ofSource? (Text.ofBytes bytes) = some body)
    {source name newName : String} {line : Nat}
    (himport : .importFrom source [(name, some newName)] line ∈ breadthFirst body)
    (hsymbol : index.symbols.has name = true) :
    ⟨source, [name], some newName, line, true⟩ ∈ o.imports ∧
      (∀ item ∈ o.items, item.1 ≠ name → (index.dependencies.Edge item.1 name ↔
        (∃ span, (item.1, span) ∈ o.items ∧
            Text.OccursAsWord name.toList (o.joinedLines span)) ∨
          o.MentionsSymbol index.symbols item.1 name ∨
          ∃ e ∈ index.files, e.1 ≠ path ∧ (e.2.MentionsSymbol index.symbols item.1 name ∨
            e.2.UsesImport index.symbols item.1 name))) ∧
      ∀ newNames : String → ImportItem → Option String,
        Graph.ofDependencies
          (index.files.map fun e => (e.1, e.2.withNewNames (newNames e.1))) index.symbols =
            index.dependencies := by
  obtain ⟨same, hsame, hofBytes⟩ := file_of_ofTree hmade ho
  obtain rfl := Option.some.inj (hbytes.symm.trans hsame)
  have hkept : ⟨source, [name], some newName, line, true⟩ ∈ o.imports :=
    (Python.renamed_mem_imports_iff hkind hofBytes hread).2 himport
  have himports : o.Imports index.symbols name :=
    ⟨⟨_, hkept, List.mem_singleton_self name⟩, hsymbol⟩
  refine ⟨hkept, ?_, ?_⟩
  · intro item _ hother
    -- The symbol is imported, so that only the lines of the definition remain to be looked at.
    rw [edge_beside_iff hmade ho hother, Outline.UsesImport, and_iff_right himports]
    rfl
  · intro newNames
    rw [Graph.ofDependencies_withNewNames, dependencies_ofTree hmade]

/-! ## Two calls by the new name -/

/-- Two functions call what is imported under a new name, and a comment in the second tells the
imported one. -/
def aliasedCalls : FileTree :=
  .ofTexts
    [("a.py", "from b import helper as h\n\n\ndef g():\n    return h()\n\n\n" ++
        "def k():\n    return h()  # helper\n"),
      ("b.py", "def helper():\n    pass\n")]

theorem exists_aliasedCalls :
    ∃ index bytes o body, ofTree "/project" .usual aliasedCalls = .ok index ∧
      aliasedCalls.files.get? "a.py" = some bytes ∧ index.files.get? "a.py" = some o ∧
      Stmt.ofSource? (Text.ofBytes bytes) = some body ∧
      .importFrom "b" [("helper", some "h")] 1 ∈ breadthFirst body ∧
      index.symbols.has "helper" = true ∧ o.items = [("g", ⟨4, 5⟩), ("k", ⟨8, 9⟩)] ∧
      Text.OccursAsWord "h".toList (o.joinedLines ⟨4, 5⟩) ∧
      Text.OccursAsWord "helper".toList (o.joinedLines ⟨8, 9⟩) ∧
      ¬ index.dependencies.Edge "g" "helper" := by
  have hfinds : Settings.usual.Finds aliasedCalls [⟨"a.py", "a.py"⟩, ⟨"b.py", "b.py"⟩] := by
    decide +kernel
  have hview : ∃ i, ofTree "/project" .usual aliasedCalls = .ok i ∧
      i.symbols.has "helper" = true ∧ i.dependencies.targets "g" = [] ∧
      (i.files.get? "a.py").map (fun o => (o.items,
          Text.holdsWord "h".toList (o.joinedLines ⟨4, 5⟩),
          Text.holdsWord "helper".toList (o.joinedLines ⟨8, 9⟩), o.imports)) =
        some ([("g", ⟨4, 5⟩), ("k", ⟨8, 9⟩)], true, true, [⟨"b", ["helper"], some "h", 1, true⟩]) :=
    ⟨_, hfinds.ofTree (by decide +kernel) _, by decide +kernel⟩
  obtain ⟨index, hmade, hsymbol, htargets, hfile⟩ := hview
  obtain ⟨o, ho, hseen⟩ := Option.map_eq_some_iff.1 hfile
  simp only [Prod.mk.injEq, Text.holdsWord_iff] at hseen
  obtain ⟨hitems, hnew, hname, himports⟩ := hseen
  obtain ⟨bytes, hbytes, hofBytes⟩ := file_of_ofTree hmade ho
  have hwhole : (aliasedCalls.files.get? "a.py").any
      (fun bytes => (Stmt.ofSource? (Text.ofBytes bytes)).isSome) = true := by decide +kernel
  rw [hbytes] at hwhole
  obtain ⟨body, hread⟩ := Option.isSome_iff_exists.1 hwhole
  refine ⟨index, bytes, o, body, hmade, hbytes, ho, hread, ?_, hsymbol, hitems, hnew, hname, ?_⟩
  -- The statement is known by what the outline keeps of it.
  · rw [← Python.renamed_mem_imports_iff (by decide +kernel) hofBytes hread, himports]
    exact List.mem_singleton_self _
  · rw [Graph.Edge, htargets]
    exact List.not_mem_nil

/-- The new name stands in the lines of a function that does not point to what is imported. -/
theorem used_under_new_name_without_edge :
    ∃ index bytes o body, ofTree "/project" .usual aliasedCalls = .ok index ∧
      aliasedCalls.files.get? "a.py" = some bytes ∧ index.files.get? "a.py" = some o ∧
      Stmt.ofSource? (Text.ofBytes bytes) = some body ∧
      .importFrom "b" [("helper", some "h")] 1 ∈ breadthFirst body ∧
      index.symbols.has "helper" = true ∧ ("g", ⟨4, 5⟩) ∈ o.items ∧
      Text.OccursAsWord "h".toList (o.joinedLines ⟨4, 5⟩) ∧
      ¬ index.dependencies.Edge "g" "helper" := by
  obtain ⟨index, bytes, o, body, hmade, hbytes, ho, hread, himport, hsymbol, hitems, hnew, -,
    hno⟩ := exists_aliasedCalls
  refine ⟨index, bytes, o, body, hmade, hbytes, ho, hread, himport, hsymbol, ?_, hnew, hno⟩
  rw [hitems]
  exact List.mem_cons_self

/-- The function whose comment tells the imported name points to it. -/
theorem edge_by_name_in_comment :
    ∃ index bytes o body, ofTree "/project" .usual aliasedCalls = .ok index ∧
      FileKind.of "a.py" none = .python ∧ aliasedCalls.files.get? "a.py" = some bytes ∧
      index.files.get? "a.py" = some o ∧ Stmt.ofSource? (Text.ofBytes bytes) = some body ∧
      .importFrom "b" [("helper", some "h")] 1 ∈ breadthFirst body ∧
      index.symbols.has "helper" = true ∧ ("k", ⟨8, 9⟩) ∈ o.items ∧
      index.dependencies.Edge "k" "helper" := by
  obtain ⟨index, bytes, o, body, hmade, hbytes, ho, hread, himport, hsymbol, hitems, -, hname,
    -⟩ := exists_aliasedCalls
  have hkind : FileKind.of "a.py" none = .python := by decide +kernel
  have hitem : ("k", ⟨8, 9⟩) ∈ o.items := by
    rw [hitems]
    exact List.mem_cons_of_mem _ List.mem_cons_self
  obtain ⟨-, hedge, -⟩ := aliased_import_edge_iff hmade hkind hbytes ho hread himport hsymbol
  exact ⟨index, bytes, o, body, hmade, hkind, hbytes, ho, hread, himport, hsymbol, hitem,
    (hedge _ hitem (by decide)).2 (Or.inl ⟨⟨8, 9⟩, hitem, hname⟩)⟩

end Index

end SourceAtlas
