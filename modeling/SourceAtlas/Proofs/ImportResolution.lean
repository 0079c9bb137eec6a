import SourceAtlas.Proofs.GoFolders
import SourceAtlas.Proofs.GraphUpkeep

/-!
# Where imports can lead

Each language has rules of its own for the files that an import may stand for, but all of them have
one thing in common. Whether an import may stand for a file is a matter of the import and the file
alone (`Resolve.MayStandFor`); the set of files only decides which of them are there. An import
leads somewhere exactly if a file of the set may be meant (`byLanguage?_eq_none_iff`), and it leads
to such a file (`of_byLanguage?_eq_some`). So nothing outside the set is ever found, and with more
files an import that led somewhere still does, although perhaps to another file.

`imports_closed_and_monotone` adds what follows for the graph of imports of a project: its nodes and
the targets of its edges are files of the index, no file points to itself, and no node is idle.
-/

set_option autoImplicit false

namespace SourceAtlas

open Resolve

/-! ## The rules of the languages -/

namespace Resolve

/-- By the rules of the language, the import of `target` in `file` may stand for the file `f`. -/
def MayStandFor (language : Language) (file target f : String) : Prop :=
  match language with
  | .python => f ∈ pythonCandidates target
  | .script => f ∈ scriptCandidates file target
  | .rust => f ∈ rustCandidates file target
  | .go => target ≠ "" ∧ IsGoFile f ∧ ∃ run, run <:+ Path.steps target.toList ∧ run ≠ [] ∧
      Path.EndsIn (Path.folder f.toList) run
  | .csharp => target ≠ "" ∧ f ∈ csharpCandidates target

variable {language : Language} {file target f : String} {files more candidates : List String}

theorem firstPresent?_eq_none_iff :
    firstPresent? candidates files = none ↔ ∀ f ∈ files, f ∉ candidates := by
  rw [firstPresent?, List.find?_eq_none]
  simp only [List.contains_iff_mem]
  exact ⟨fun h f hf hc => h f hc hf, fun h f hc hf => h f hf hc⟩

theorem of_firstPresent?_eq_some (h : firstPresent? candidates files = some f) :
    f ∈ files ∧ f ∈ candidates :=
  ⟨List.contains_iff_mem.1 (List.find?_some h), List.mem_of_find?_eq_some h⟩

/-- An import leads nowhere exactly if no file of the set may be meant. -/
theorem byLanguage?_eq_none_iff :
    byLanguage? language file target files = none ↔
      ∀ f ∈ files, ¬ MayStandFor language file target f := by
  cases language with
  | python | script | rust => exact firstPresent?_eq_none_iff
  -- The other two languages have no rule for an empty target.
  | go =>
    by_cases hempty : target = ""
    · simp [byLanguage?, MayStandFor, hempty]
    · rw [byLanguage?_go hempty, goFile?_eq_none_iff]
      simp [MayStandFor, hempty]
  | csharp =>
    by_cases hempty : target = ""
    · simp [byLanguage?, MayStandFor, hempty]
    · simp [byLanguage?, MayStandFor, hempty, firstPresent?_eq_none_iff]

/-- An import leads to a file of the set that may be meant. -/
theorem of_byLanguage?_eq_some (h : byLanguage? language file target files = some f) :
    f ∈ files ∧ MayStandFor language file target f := by
  cases language with
  | python | script | rust => exact of_firstPresent?_eq_some h
  | go =>
    by_cases hempty : target = ""
    · simp [byLanguage?, hempty] at h
    · rw [byLanguage?_go hempty] at h
      obtain ⟨hmem, hgo, run, hrun, hne, hends, -⟩ := of_goFile?_eq_some h
      exact ⟨hmem, hempty, hgo, run, hrun, hne, hends⟩
  | csharp =>
    by_cases hempty : target = ""
    · simp [byLanguage?, hempty] at h
    · simp only [byLanguage?, String.isEmpty_iff, hempty, if_false] at h
      obtain ⟨hmem, hcandidate⟩ := of_firstPresent?_eq_some h
      exact ⟨hmem, hempty, hcandidate⟩

theorem isSome_byLanguage?_iff :
    (byLanguage? language file target files).isSome = true ↔
      ∃ f ∈ files, MayStandFor language file target f := by
  rw [← not_iff_not, Bool.not_eq_true, Option.isSome_eq_false_iff, Option.isNone_iff_eq_none,
    byLanguage?_eq_none_iff]
  simp

theorem isSome_byLanguage?_mono (hmore : files ⊆ more)
    (h : (byLanguage? language file target files).isSome = true) :
    (byLanguage? language file target more).isSome = true := by
  obtain ⟨f, hf, hmay⟩ := isSome_byLanguage?_iff.1 h
  exact isSome_byLanguage?_iff.2 ⟨f, hmore hf, hmay⟩

/-- Without a target, or in a file of no language, an import leads nowhere. Otherwise the rules of
the language decide. -/
theorem import?_cases (file target : String) :
    (∀ files, import? file target files = none) ∨
      ∃ language, language? file = some language ∧
        ∀ files, import? file target files = byLanguage? language file target files := by
  unfold import?
  by_cases hempty : target = ""
  · exact Or.inl fun files => by simp [hempty]
  · cases hlanguage : language? file with
    | none => exact Or.inl fun files => by simp
    | some language => exact Or.inr ⟨language, rfl, fun files => by simp [hempty]⟩

theorem mem_of_import?_eq_some (h : import? file target files = some f) : f ∈ files := by
  rcases import?_cases file target with hnone | ⟨language, -, hrules⟩
  · rw [hnone] at h
    cases h
  · rw [hrules] at h
    exact (of_byLanguage?_eq_some h).1

theorem isSome_import?_mono (hmore : files ⊆ more)
    (h : (import? file target files).isSome = true) :
    (import? file target more).isSome = true := by
  rcases import?_cases file target with hnone | ⟨language, -, hrules⟩
  · rw [hnone] at h
    cases h
  · rw [hrules] at h ⊢
    exact isSome_byLanguage?_mono hmore h

end Resolve

/-! ## The graph of imports -/

theorem Outline.mem_importTargets_iff {o : Outline} {path target : String} {files : List String} :
    target ∈ o.importTargets path files ↔
      target ≠ path ∧ ∃ i ∈ o.imports, import? path i.source files = some target := by
  rw [importTargets, Names.mem_ofList, List.mem_filter, List.mem_filterMap, bne_iff_ne, and_comm]

/-- A file points to another exactly if one of its imports leads there. -/
theorem Graph.edge_ofImportsIn_iff_exists {files : Assoc Outline} (h : files.keys.Nodup)
    {order : List String} {path target : String} :
    (ofImportsIn order files).Edge path target ↔
      target ≠ path ∧ ∃ o, files.get? path = some o ∧ ∃ i ∈ o.imports,
        Resolve.import? path i.source order = some target := by
  simp only [edge_ofImportsIn_iff h, Outline.mem_importTargets_iff]
  constructor
  · rintro ⟨o, ho, hother, hleads⟩
    exact ⟨hother, o, ho, hleads⟩
  · rintro ⟨hother, o, ho, hleads⟩
    exact ⟨o, ho, hother, hleads⟩

namespace Index

/-- The graph of imports stays within the files: nodes and targets are files, no file points to
itself, and no node is idle. -/
structure ImportsClosed (index : Index) : Prop where
  node : ∀ path, Assoc.has index.imports path = true → index.files.has path = true
  target : ∀ path target, index.imports.Edge path target → index.files.has target = true
  other : ∀ path, ¬ index.imports.Edge path path
  full : index.imports.Full

variable {index : Index}

theorem edge_rebuild_iff (h : index.files.keys.Nodup) {path target : String} :
    index.rebuild.imports.Edge path target ↔
      target ≠ path ∧ ∃ o, index.files.get? path = some o ∧ ∃ i ∈ o.imports,
        Resolve.import? path i.source index.files.keys = some target :=
  Graph.edge_ofImportsIn_iff_exists h

theorem importsClosed_rebuild (h : index.files.keys.Nodup) : index.rebuild.ImportsClosed where
  node := by
    intro path hnode
    obtain ⟨target, hedge⟩ := (Graph.Full.has_iff (Graph.full_ofImportsIn h _)).1 hnode
    obtain ⟨-, o, ho, -⟩ := (edge_rebuild_iff h).1 hedge
    exact Assoc.has_iff_exists.2 ⟨o, ho⟩
  target := by
    intro path target hedge
    obtain ⟨-, o, -, item, -, hleads⟩ := (edge_rebuild_iff h).1 hedge
    exact Assoc.has_iff_mem_keys.2 (mem_of_import?_eq_some hleads)
  other := by
    intro path hedge
    exact ((edge_rebuild_iff h).1 hedge).1 rfl
  full := Graph.full_ofImportsIn h _

end Index

/-- An index that was just made, or has its graphs just made, is one that making its graphs gives
from files with one entry each. -/
theorem Project.exists_rebuild_of_perform {root : String} {settings : Settings}
    {turns : List Turn} {t : Turn} {q : Project} {i : Index}
    (hstep : ((fresh root settings).through turns).perform t = (q, none))
    (hmade : t.action = .index ∨ t.action = .rebuild) (hi : q.index = some i) :
    ∃ j : Index, j.files.keys.Nodup ∧ i = j.rebuild := by
  rcases perform_cases hstep with
    ⟨-, j, hmake, rfl⟩ |
      ⟨j, hj, ⟨path, skipGraphs, next, hact, -, -⟩ | ⟨path, hact, -⟩ | ⟨-, rfl⟩⟩
  · cases hi
    exact ⟨i, (Index.orderly_ofTree hmake).nodup_files, (Index.rebuild_ofTree hmake).symm⟩
  · simp [hact] at hmade
  · simp [hact] at hmade
  · cases hi
    exact ⟨j, (orderly_through turns hj).nodup_files, rfl⟩

/-- **Imports lead to files of the project only, and lead on when there are more files.** By the
rules of every language, and so for every import of every file, what is found is a file of the set.
Something is found exactly if a file of the set may be meant, so that an import which leads
somewhere among some files leads somewhere among more. In every run, right after an index or its
graphs have been made, one file points to another exactly if one of its imports leads there, and the
graph of imports stays within the files. -/
theorem imports_closed_and_monotone :
    (∀ (language : Resolve.Language) (file target : String) (files : List String),
        (∀ f, Resolve.byLanguage? language file target files = some f → f ∈ files) ∧
        ((Resolve.byLanguage? language file target files).isSome = true ↔
          ∃ f ∈ files, Resolve.MayStandFor language file target f) ∧
        ∀ more, files ⊆ more → (Resolve.byLanguage? language file target files).isSome = true →
          (Resolve.byLanguage? language file target more).isSome = true) ∧
      (∀ (file target : String) (files : List String),
        (∀ f, Resolve.import? file target files = some f → f ∈ files) ∧
        ∀ more, files ⊆ more → (Resolve.import? file target files).isSome = true →
          (Resolve.import? file target more).isSome = true) ∧
      ∀ (root : String) (settings : Settings) (turns : List Turn) (t : Turn) (q : Project)
        (i : Index), ((Project.fresh root settings).through turns).perform t = (q, none) →
          t.action = .index ∨ t.action = .rebuild → q.index = some i →
            i.ImportsClosed ∧ ∀ path target, i.imports.Edge path target ↔
              target ≠ path ∧ ∃ o, i.files.get? path = some o ∧ ∃ item ∈ o.imports,
                Resolve.import? path item.source i.files.keys = some target := by
  refine ⟨?_, ?_, ?_⟩
  · intro language file target files
    refine ⟨fun f hf => (Resolve.of_byLanguage?_eq_some hf).1, Resolve.isSome_byLanguage?_iff, ?_⟩
    intro more hmore hsome
    exact Resolve.isSome_byLanguage?_mono hmore hsome
  · intro file target files
    refine ⟨fun f hf => Resolve.mem_of_import?_eq_some hf, ?_⟩
    intro more hmore hsome
    exact Resolve.isSome_import?_mono hmore hsome
  -- Right after such a turn the graph is that of the files, whatever went before.
  · intro root settings turns t q i hstep hmade hi
    obtain ⟨j, hnodup, rfl⟩ := Project.exists_rebuild_of_perform hstep hmade hi
    exact ⟨Index.importsClosed_rebuild hnodup, fun path target => Index.edge_rebuild_iff hnodup⟩

/-- A folder's index is found while the file of the same name is missing, and the file afterwards.
In a project, an import leads to a file that came later once the graphs are made. -/
theorem import_found_among_more_files :
    (Resolve.import? "src/a.ts" "./b" ["src/b/index.ts"] = some "src/b/index.ts" ∧
        Resolve.import? "src/a.ts" "./b" ["src/b/index.ts", "src/b.ts"] = some "src/b.ts" ∧
        ∀ more, ["src/b/index.ts"] ⊆ more →
          (Resolve.import? "src/a.ts" "./b" more).isSome = true) ∧
      ∃ i, ((Project.fresh "/project" .usual).through
          [⟨Project.importerAlone, .index⟩, ⟨Project.importerAndImported, .reindex "b.py" true⟩,
            ⟨Project.importerAndImported, .rebuild⟩]).index = some i ∧
        i.imports.targets "a.py" = ["b.py"] ∧ i.ImportsClosed := by
  have hview : Resolve.import? "src/a.ts" "./b" ["src/b/index.ts"] = some "src/b/index.ts" ∧
      Resolve.import? "src/a.ts" "./b" ["src/b/index.ts", "src/b.ts"] = some "src/b.ts" ∧
      (((Project.fresh "/project" .usual).through
          [⟨Project.importerAlone, .index⟩,
            ⟨Project.importerAndImported, .reindex "b.py" true⟩]).perform
          ⟨Project.importerAndImported, .rebuild⟩).2 = none ∧
      (((Project.fresh "/project" .usual).through
          [⟨Project.importerAlone, .index⟩,
            ⟨Project.importerAndImported, .reindex "b.py" true⟩]).perform
          ⟨Project.importerAndImported, .rebuild⟩).1.index.map
        (fun i => i.imports.targets "a.py") = some ["b.py"] := by decide +kernel
  obtain ⟨hfolder, hfile, hdone, hmade⟩ := hview
  obtain ⟨i, hi, htargets⟩ := Option.map_eq_some_iff.1 hmade
  obtain ⟨-, himport, hruns⟩ := imports_closed_and_monotone
  refine ⟨⟨hfolder, hfile, ?_⟩, i, hi, htargets, ?_⟩
  · intro more hmore
    exact (himport "src/a.ts" "./b" ["src/b/index.ts"]).2 more hmore (by rw [hfolder]; rfl)
  · exact (hruns "/project" .usual _ _ _ i (Prod.ext rfl hdone) (Or.inr rfl) hi).1

end SourceAtlas
