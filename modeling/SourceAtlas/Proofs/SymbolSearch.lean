import SourceAtlas.Proofs.SymbolTable
import SourceAtlas.Query.Request

/-!
# Looking for a symbol

A symbol is looked for in the file that the table of symbols gives, and then in all files. The table
may be wrong or out of date: it only decides where the search begins. So a name is not found if and
only if no file has a definition that goes by it (`findDefinition?_eq_none_iff`), and what is found
is always a definition of some file (`exists_file_of_findDefinition?`). The file that is reported is
the file of that definition if it was found among all files, or if the table names a file of the
index; a path that is none stands for the first file whose path ends like it
(`exists_file_of_resolveFile?`), and then it is the path of the table that is reported.

`Index.findSymbol_complete_and_sound` says this of the answers that are given.
-/

set_option autoImplicit false

namespace SourceAtlas

/-! ## Definitions of one file -/

/-- The definition goes by the name: a function in short or with its class in front, a class as it
is. -/
def Definition.GoesBy : Definition → String → Prop
  | .callable f, name => f.name = name ∨ f.qualifiedName = name
  | .type c, name => c.name = name

theorem Callable.isCalled_iff {f : Callable} {name : String} :
    f.isCalled name = true ↔ f.name = name ∨ f.qualifiedName = name := by
  simp [isCalled]

namespace Outline

variable {o : Outline} {name : String}

/-- The definition is one of the functions or classes of the outline. -/
def Holds (o : Outline) : Definition → Prop
  | .callable f => f ∈ o.functions
  | .type c => c ∈ o.classes

theorem function?_eq_none_iff :
    o.function? name = none ↔ ∀ f ∈ o.functions, ¬ (f.name = name ∨ f.qualifiedName = name) := by
  simp only [function?, List.find?_eq_none, Callable.isCalled_iff]

theorem class?_eq_none_iff : o.class? name = none ↔ ∀ c ∈ o.classes, c.name ≠ name := by
  simp only [class?, List.find?_eq_none, beq_iff_eq, ne_eq]

theorem of_function?_eq_some {f : Callable} (h : o.function? name = some f) :
    f ∈ o.functions ∧ (f.name = name ∨ f.qualifiedName = name) := by
  rw [function?] at h
  have hcalled := List.find?_some h
  exact ⟨List.mem_of_find?_eq_some h, Callable.isCalled_iff.1 hcalled⟩

theorem of_class?_eq_some {c : ClassItem} (h : o.class? name = some c) :
    c ∈ o.classes ∧ c.name = name := by
  rw [class?] at h
  have hnamed := List.find?_some h
  exact ⟨List.mem_of_find?_eq_some h, beq_iff_eq.1 hnamed⟩

/-- Functions come before classes. -/
theorem definition?_of_function? {f : Callable} (h : o.function? name = some f) :
    o.definition? name = some (.callable f) := by
  simp [definition?, h]

theorem definition?_of_no_function (h : o.function? name = none) :
    o.definition? name = (o.class? name).map .type := by
  simp [definition?, h]

/-- What is found in a file is one of its definitions and goes by the name. -/
theorem of_definition?_eq_some {d : Definition} (h : o.definition? name = some d) :
    o.Holds d ∧ d.GoesBy name := by
  cases hfunction : o.function? name with
  | some f =>
    rw [definition?_of_function? hfunction] at h
    cases h
    exact of_function?_eq_some hfunction
  | none =>
    rw [definition?_of_no_function hfunction] at h
    obtain ⟨c, hclass, rfl⟩ := Option.map_eq_some_iff.1 h
    exact of_class?_eq_some hclass

/-- Nothing is found in a file if and only if the file does not have the name. -/
theorem definition?_eq_none_iff : o.definition? name = none ↔ ¬ o.HasName name := by
  have hboth : o.definition? name = none ↔ o.function? name = none ∧ o.class? name = none := by
    cases hfunction : o.function? name with
    | some f => simp [definition?_of_function? hfunction]
    | none => simp [definition?_of_no_function hfunction]
  rw [hboth, function?_eq_none_iff, class?_eq_none_iff, HasName, not_or]
  constructor
  · rintro ⟨hfunctions, hclasses⟩
    refine ⟨?_, ?_⟩
    · rintro ⟨f, hf, hname⟩
      exact hfunctions f hf hname.symm
    · rintro ⟨c, hc, hname⟩
      exact hclasses c hc hname
  · rintro ⟨hfunctions, hclasses⟩
    refine ⟨?_, ?_⟩
    · intro f hf hname
      exact hfunctions ⟨f, hf, hname.symm⟩
    · intro c hc hname
      exact hclasses ⟨c, hc, hname⟩

end Outline

/-! ## Files of an index -/

namespace Index

variable {index : Index} {name path : String}

@[simp] theorem mem_sortedFiles {e : String × Outline} :
    e ∈ index.sortedFiles ↔ e ∈ index.files := List.mem_mergeSort

theorem pairwise_sortedFiles (index : Index) :
    index.sortedFiles.Pairwise fun a b => a.1 ≤ b.1 :=
  pairwise_mergeSort_by Prod.fst index.files

theorem resolveFile?_of_get? {o : Outline} (h : index.files.get? path = some o) :
    index.resolveFile? path = some o := by
  rw [resolveFile?, h]

/-- Whatever a path stands for is the outline of some file. -/
theorem exists_file_of_resolveFile? {o : Outline} (h : index.resolveFile? path = some o) :
    ∃ stored, (stored, o) ∈ index.files := by
  unfold resolveFile? at h
  split at h
  · rename_i found hfound
    cases h
    exact ⟨path, Assoc.mem_of_get? hfound⟩
  · obtain ⟨⟨stored, found⟩, hfound, heq⟩ := Option.map_eq_some_iff.1 h
    cases heq
    exact ⟨stored, List.mem_of_find?_eq_some hfound⟩

variable {found : Located}

/-- What the table leads to: a file that the path of the table stands for, and a definition in
it. -/
theorem tableDefinition?_eq_some_iff :
    index.tableDefinition? name = some found ↔
      index.symbols.get? name = some found.file ∧
        index.resolveFile? found.file = some found.outline ∧
          found.outline.definition? name = some found.definition := by
  obtain ⟨file, outline, definition⟩ := found
  unfold tableDefinition?
  cases hpath : index.symbols.get? name with
  | none => simp
  | some path =>
    simp only [Option.bind_eq_some_iff, Option.map_eq_some_iff, Option.some.injEq]
    constructor
    · rintro ⟨o, hfile, d, hd, heq⟩
      cases heq
      exact ⟨rfl, hfile, hd⟩
    · rintro ⟨rfl, hfile, hd⟩
      exact ⟨outline, hfile, definition, hd, rfl⟩

/-- What is found, is found by the table or in one of the files. -/
theorem findDefinition?_cases (h : index.findDefinition? name = some found) :
    index.tableDefinition? name = some found ∨
      (found.file, found.outline) ∈ index.files ∧
        found.outline.definition? name = some found.definition := by
  cases htable : index.tableDefinition? name with
  | some first =>
    rw [findDefinition?, htable] at h
    exact .inl h
  | none =>
    rw [findDefinition?, htable] at h
    obtain ⟨⟨path, o⟩, hmem, hfound⟩ := List.exists_of_findSome?_eq_some h
    obtain ⟨d, hd, rfl⟩ := Option.map_eq_some_iff.1 hfound
    exact .inr ⟨mem_sortedFiles.1 hmem, hd⟩

/-- Whatever is found is a definition of some file and goes by the name. -/
theorem exists_file_of_findDefinition? (h : index.findDefinition? name = some found) :
    ∃ stored, (stored, found.outline) ∈ index.files ∧
      found.outline.definition? name = some found.definition := by
  rcases findDefinition?_cases h with htable | ⟨hmem, hd⟩
  · obtain ⟨-, hfile, hd⟩ := tableDefinition?_eq_some_iff.1 htable
    obtain ⟨stored, hmem⟩ := exists_file_of_resolveFile? hfile
    exact ⟨stored, hmem, hd⟩
  · exact ⟨found.file, hmem, hd⟩

/-- If the table names a file of the index, the file that is reported is the file of what was
found. -/
theorem mem_files_of_findDefinition?
    (htable : ∀ path, index.symbols.get? name = some path → path ∈ index.files.keys)
    (h : index.findDefinition? name = some found) :
    (found.file, found.outline) ∈ index.files ∧
      found.outline.definition? name = some found.definition := by
  rcases findDefinition?_cases h with hentry | hfile
  · obtain ⟨howner, hfile, hd⟩ := tableDefinition?_eq_some_iff.1 hentry
    obtain ⟨o, ho⟩ := Assoc.mem_keys_iff.1 (htable _ howner)
    rw [resolveFile?_of_get? ho, Option.some.injEq] at hfile
    subst hfile
    exact ⟨Assoc.mem_of_get? ho, hd⟩
  · exact hfile

/-- A name is not found if and only if no file has it, whatever the table says. -/
theorem findDefinition?_eq_none_iff :
    index.findDefinition? name = none ↔ ∀ e ∈ index.files, ¬ e.2.HasName name := by
  constructor
  · intro hnone e he
    cases htable : index.tableDefinition? name with
    | some first =>
      rw [findDefinition?, htable] at hnone
      cases hnone
    | none =>
      rw [findDefinition?, htable] at hnone
      have hmiss := List.findSome?_eq_none_iff.1 hnone e (mem_sortedFiles.2 he)
      exact Outline.definition?_eq_none_iff.1 (Option.map_eq_none_iff.1 hmiss)
  · intro h
    rw [Option.eq_none_iff_forall_ne_some]
    intro found hfound
    obtain ⟨stored, hmem, hd⟩ := exists_file_of_findDefinition? hfound
    rw [Outline.definition?_eq_none_iff.2 (h _ hmem)] at hd
    cases hd

/-! ## The answer -/

theorem answer_of_findDefinition? (h : index.findDefinition? name = some found) :
    index.answer (.findSymbol name) = .ok (Render.located found) := by
  rw [answer, findSymbol, h]

theorem answer_of_no_definition (h : index.findDefinition? name = none) :
    index.answer (.findSymbol name) = .ok (Render.cause (.noSymbol name)) := by
  rw [answer, findSymbol, h]

theorem message_noSymbol :
    (QueryError.noSymbol name).message = "symbol '" ++ name ++ "' not found" := by
  have hopening : "symbol '" = "symbol " ++ "'" := by decide
  have hclosing : "' not found" = "'" ++ " not found" := by decide
  change "symbol " ++ ("'" ++ name ++ "'") ++ " not found" = _
  simp only [hopening, hclosing, String.append_assoc]

/-- The answer says where something is, and so is no error. -/
theorem located_ne_cause (found : Located) (e : QueryError) :
    Render.located found ≠ Render.cause e := by
  simp [Render.located, Render.cause, Render.placeFields]

/-- **A search for a symbol is complete and sound.** It always gives an answer. The answer is that
the symbol was not found if and only if no file has a function that goes by the name, in short or in
full, or a class of the name, also if the table of symbols disagrees with the files. If some file
has one and the table names only files of the index, the answer names a file of the index, and tells
the name and lines of a definition of that file which goes by the name. -/
theorem findSymbol_complete_and_sound (index : Index) (name : String) :
    ∃ answer, index.answer (.findSymbol name) = .ok answer ∧
      (answer = .object [("error", .text ("symbol '" ++ name ++ "' not found"))] ↔
        ∀ e ∈ index.files, ¬ e.2.HasName name) ∧
      ((∀ symbol path, index.symbols.get? symbol = some path → path ∈ index.files.keys) →
        (∃ e ∈ index.files, e.2.HasName name) →
          ∃ path o d, (path, o) ∈ index.files ∧ o.Holds d ∧ d.GoesBy name ∧
            answer.field? "file" = some (.text path) ∧
            answer.field? "name" = some (.text d.name) ∧
            answer.field? "line" = some (.int d.span.first) ∧
            answer.field? "end_line" = some (.int d.span.last)) := by
  have hcause : Render.cause (.noSymbol name) =
      .object [("error", .text ("symbol '" ++ name ++ "' not found"))] := by
    rw [Render.cause, message_noSymbol]
  cases hfind : index.findDefinition? name with
  | none =>
    have habsent := findDefinition?_eq_none_iff.1 hfind
    refine ⟨_, answer_of_no_definition hfind, ?_, ?_⟩
    · exact iff_of_true hcause habsent
    · rintro - ⟨e, he, hname⟩
      exact absurd hname (habsent e he)
  | some found =>
    refine ⟨_, answer_of_findDefinition? hfind, ?_, ?_⟩
    · rw [← hcause, ← findDefinition?_eq_none_iff, hfind]
      exact iff_of_false (located_ne_cause found _) (by simp)
    · intro htable _
      obtain ⟨hmem, hd⟩ := mem_files_of_findDefinition? (htable name) hfind
      obtain ⟨hholds, hgoes⟩ := Outline.of_definition?_eq_some hd
      exact ⟨found.file, found.outline, found.definition, hmem, hholds, hgoes, rfl, rfl, rfl, rfl⟩

/-- An index whose table of symbols gives a name to the wrong one of two files. -/
def misled : Index where
  root := "/project"
  files :=
    [("a.py", { Outline.ofLines "a.py" [] [] with
        functions := [.method "A" "run" ⟨2, 3⟩ ["self"] [] none] }),
      ("b.py", Outline.ofLines "b.py" [] [])]
  dependencies := []
  dependents := []
  imports := []
  importers := []
  symbols := [("run", "b.py")]
  totals := ⟨2, 0, 1, 0⟩

/-- The method is found in the other file. -/
theorem found_despite_table :
    (∀ symbol path, misled.symbols.get? symbol = some path → path ∈ misled.files.keys) ∧
      misled.symbols.get? "run" = some "b.py" ∧
      ∃ answer, misled.answer (.findSymbol "run") = .ok answer ∧
        answer.field? "file" = some (.text "a.py") ∧
        answer.field? "name" = some (.text "A.run") ∧
        answer.field? "line" = some (.int 2) ∧ answer.field? "end_line" = some (.int 3) := by
  have htable : ∀ symbol path, misled.symbols.get? symbol = some path →
      path ∈ misled.files.keys := by
    intro symbol path hpath
    have hmem := Assoc.mem_of_get? hpath
    rw [misled, List.mem_singleton, Prod.mk.injEq] at hmem
    rw [hmem.2]
    decide
  have hnamed : ∃ e ∈ misled.files, e.2.HasName "run" :=
    ⟨_, List.mem_cons_self, .inl ⟨_, List.mem_cons_self, .inr rfl⟩⟩
  refine ⟨htable, by decide, ?_⟩
  obtain ⟨answer, hanswer, -, hsound⟩ := findSymbol_complete_and_sound misled "run"
  obtain ⟨path, o, d, hmem, hholds, -, hfile, hname, hfirst, hlast⟩ := hsound htable hnamed
  refine ⟨answer, hanswer, ?_⟩
  rw [hfile, hname, hfirst, hlast]
  rcases List.mem_cons.1 hmem with heq | hmem
  · cases heq
    cases d with
    | callable f =>
      obtain rfl := List.mem_singleton.1 hholds
      exact ⟨rfl, rfl, rfl, rfl⟩
    | type c => cases hholds
  · cases List.mem_singleton.1 hmem
    cases d <;> cases hholds

end Index

end SourceAtlas
