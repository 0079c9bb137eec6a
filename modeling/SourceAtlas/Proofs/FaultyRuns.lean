import SourceAtlas.Proofs.Graphs
import SourceAtlas.Proofs.ProjectRuns

/-!
# Runs in which turns may fail

A turn that fails still leaves a project behind, and work can go on from there. `Project.through`
does turns one after the other, whatever their outcome, so that it leads to every index that a
project can ever have.

Some things hold of all of them, and `Index.Orderly` says which: every outline is one of its file,
the graph of imports has only files as nodes, each with the targets of its outline, and a file is
counted as an importer only while it is a node of that graph. Totals and symbols are not part of it,
since a failed turn leaves them out of step. `orderly_through` is the law of all runs.
-/

set_option autoImplicit false

namespace SourceAtlas

open Assoc SourceAtlas.Graph

variable {path target source root : String} {settings : Settings}

/-! ## What a turn leaves, failed or not -/

namespace Index

/-- Why entering a file again fails: the path holds a null character, or the file has no outline. -/
def Refuses (index : Index) (tree : FileTree) (path : String) (fault : ReindexError) : Prop :=
  (Project.absolute index.root path).contains '\x00' = true ∧ fault = .nulInPath ∨
    ∃ bytes cause,
      tree.read? index.root.toList (Project.absolute index.root path) = some bytes ∧
      Outline.ofBytes bytes (Project.key index.root path) = .error cause ∧ fault = .outline cause

/-- What entering a file again does, whether the graphs are made anew or left for later: it fails
with the file released, takes out a file that cannot be read, or enters its outline. -/
theorem reindex_outcome (index : Index) (tree : FileTree) (path : String) :
    let key := Project.key index.root path
    (∃ fault, index.Refuses tree path fault ∧
        ∀ skipGraphs, index.reindex tree path skipGraphs =
          (index.releaseFile key, some fault)) ∨
      (index.present? tree path = none ∧
        ∀ skipGraphs, index.reindex tree path skipGraphs = (index.remove path, none)) ∨
      ∃ o, index.present? tree path = some o ∧
        ∀ skipGraphs, index.reindex tree path skipGraphs =
          (if skipGraphs then (index.releaseFile key).enter key o
            else ((index.releaseFile key).enter key o).refresh, none) := by
  intro key
  simp only [reindex]
  -- The order in which the three things that can go wrong are looked at.
  cases hnul : (Project.absolute index.root path).contains '\x00' with
  | true => exact Or.inl ⟨.nulInPath, Or.inl ⟨hnul, rfl⟩, fun _ => rfl⟩
  | false =>
    cases hread : tree.read? index.root.toList (Project.absolute index.root path) with
    | none =>
      have hnone : index.present? tree path = none := by simp [present?, hread]
      exact Or.inr (Or.inl ⟨hnone, fun _ => rfl⟩)
    | some bytes =>
      cases ho : Outline.ofBytes bytes key with
      | error cause =>
        refine Or.inl ⟨.outline cause, Or.inr ⟨bytes, cause, hread, ho, rfl⟩, fun _ => ?_⟩
        rw [Outline.ofBytes] at ho
        simp [key, ho]
      | ok o =>
        have hsome : index.present? tree path = some o := by
          simp [present?, hread, key, ho, Except.toOption]
        refine Or.inr (Or.inr ⟨o, hsome, fun _ => ?_⟩)
        rw [Outline.ofBytes] at ho
        simp [key, ho]

/-- The outline of a file that can be read is that of its bytes. -/
theorem ofBytes_of_present? {index : Index} {tree : FileTree} {o : Outline}
    (h : index.present? tree path = some o) :
    ∃ bytes, Outline.ofBytes bytes (Project.key index.root path) = .ok o := by
  obtain ⟨bytes, -, ho⟩ := Option.bind_eq_some_iff.1 h
  refine ⟨bytes, ?_⟩
  cases hread : Outline.ofBytes bytes (Project.key index.root path) with
  | error cause => simp [hread, Except.toOption] at ho
  | ok p =>
    simp only [hread, Except.toOption, Option.some.injEq] at ho
    rw [ho]

end Index

namespace Project

/-- The project after turns, whether they fail or not. -/
def through (p : Project) (turns : List Turn) : Project :=
  turns.foldl (fun q t => (q.perform t).1) p

theorem through_concat (p : Project) (turns : List Turn) (t : Turn) :
    p.through (turns ++ [t]) = ((p.through turns).perform t).1 := by
  rw [through, List.foldl_append]
  rfl

/-- A run of which no turn fails leads where it leads in any case. -/
theorem through_of_after? {p q : Project} {turns : List Turn} (h : p.after? turns = some q) :
    p.through turns = q := by
  induction turns generalizing p with
  | nil => exact Option.some.inj h
  | cons t turns ih =>
    rw [after?] at h
    split at h
    · rename_i next hstep
      rw [through, List.foldl_cons, hstep]
      exact ih h
    · cases h

/-- What a turn leaves, failed or not: all as it was, a new index, or the index with one change. -/
theorem perform_next (p : Project) (t : Turn) :
    (p.perform t).1 = p ∨
      (∃ i, Index.ofTree p.root p.settings t.tree = .ok i ∧
        (p.perform t).1 = { p with index := some i }) ∨
      ∃ i j, p.index = some i ∧ (p.perform t).1 = { p with index := some j } ∧
        ((∃ path skipGraphs, j = (i.reindex t.tree path skipGraphs).1) ∨
          (∃ path, j = i.remove path) ∨ j = i.rebuild) := by
  obtain ⟨tree, action⟩ := t
  cases action with
  | index =>
    simp only [perform, makeIndex]
    cases hmake : Index.ofTree p.root p.settings tree with
    | error e => exact Or.inl rfl
    | ok i => exact Or.inr (Or.inl ⟨i, rfl, rfl⟩)
  -- The others need an index, and change nothing without one.
  | reindex path skipGraphs =>
    simp only [perform, reindex]
    cases hi : p.index with
    | none => exact Or.inl rfl
    | some i => exact Or.inr (Or.inr ⟨i, _, rfl, rfl, Or.inl ⟨path, skipGraphs, rfl⟩⟩)
  | remove path =>
    simp only [perform, remove, change]
    cases hi : p.index with
    | none => exact Or.inl rfl
    | some i => exact Or.inr (Or.inr ⟨i, _, rfl, rfl, Or.inr (Or.inl ⟨path, rfl⟩)⟩)
  | rebuild =>
    simp only [perform, rebuild, change]
    cases hi : p.index with
    | none => exact Or.inl rfl
    | some i => exact Or.inr (Or.inr ⟨i, _, rfl, rfl, Or.inr (Or.inr rfl)⟩)

/-- What holds of every new index and is kept by every change of an index holds of every index that
there can be. -/
theorem through_induction {motive : Index → Prop}
    (made : ∀ tree i, Index.ofTree root settings tree = .ok i → motive i)
    (reindexed : ∀ i tree path skipGraphs, motive i → motive (i.reindex tree path skipGraphs).1)
    (removed : ∀ i path, motive i → motive (i.remove path))
    (rebuilt : ∀ i, motive i → motive i.rebuild) (turns : List Turn) {i : Index}
    (hi : ((fresh root settings).through turns).index = some i) : motive i := by
  have key : ∀ turns, ((fresh root settings).through turns).root = root ∧
      ((fresh root settings).through turns).settings = settings ∧
      ∀ i, ((fresh root settings).through turns).index = some i → motive i := by
    intro turns
    induction turns using List.reverseRecOn with
    | nil => exact ⟨rfl, rfl, fun i hi => by cases hi⟩
    | append_singleton turns t ih =>
      obtain ⟨hroot, hsettings, hindex⟩ := ih
      rw [through_concat]
      rcases perform_next ((fresh root settings).through turns) t with
        hsame | ⟨i, hmake, hnext⟩ | ⟨i, j, hi, hnext, hchange⟩
      · rw [hsame]
        exact ⟨hroot, hsettings, hindex⟩
      · rw [hnext]
        refine ⟨hroot, hsettings, ?_⟩
        rintro j ⟨⟩
        rw [hroot, hsettings] at hmake
        exact made t.tree i hmake
      · rw [hnext]
        refine ⟨hroot, hsettings, ?_⟩
        rintro k ⟨⟩
        rcases hchange with ⟨path, skipGraphs, rfl⟩ | ⟨path, rfl⟩ | rfl
        · exact reindexed i t.tree path skipGraphs (hindex i hi)
        · exact removed i path (hindex i hi)
        · exact rebuilt i (hindex i hi)
  exact (key turns).2.2 i hi

end Project

/-! ## Graphs of a released file -/

namespace Graph

theorem has_of_edge {g : Graph} (h : g.Edge source target) :
    has g source = true := by
  obtain ⟨targets, hget, -⟩ := edge_iff.1 h
  exact has_iff_exists.2 ⟨targets, hget⟩

theorem get?_dropTarget (g : Graph) (node source : String) :
    get? (g.dropTarget node) source =
      (get? g source).map fun targets => targets.filter (· != node) := by
  unfold dropTarget
  induction g with
  | nil => rfl
  | cons e g ih =>
    obtain ⟨k, targets⟩ := e
    rw [List.map_cons, get?_cons, get?_cons, ih]
    split <;> rfl

theorem has_dropTarget (g : Graph) (node source : String) :
    has (g.dropTarget node) source = has g source := by
  rw [has_eq_isSome, has_eq_isSome, get?_dropTarget, Option.isSome_map]

theorem edge_dropTarget_iff {g : Graph} {node : String} :
    (g.dropTarget node).Edge source target ↔ g.Edge source target ∧ target ≠ node := by
  rw [edge_iff, edge_iff, get?_dropTarget]
  cases get? g source <;> simp

theorem keys_dropTarget (g : Graph) (node : String) :
    keys (g.dropTarget node) = keys g := by
  simp [dropTarget, keys, Function.comp_def]

theorem nodup_keys_transpose (g : Graph) : (keys g.transpose).Nodup :=
  List.foldlRecOn (motive := fun r : Graph => (keys r).Nodup) _ _ List.nodup_nil
    fun _ hr _ _ => nodup_keys_put hr _ _

theorem edge_ofImportsIn_iff {files : Assoc Outline} (h : files.keys.Nodup) {order : List String} :
    (ofImportsIn order files).Edge path target ↔
      ∃ o, files.get? path = some o ∧ target ∈ o.importTargets path order := by
  rw [edge_iff, get?_ofImportsIn h]
  cases files.get? path with
  | none => simp
  | some o => by_cases hnone : o.importTargets path order = [] <;> simp [hnone]

theorem edge_ofImports_iff {files : Assoc Outline} (h : files.keys.Nodup) :
    (ofImports files).Edge path target ↔
      ∃ o, files.get? path = some o ∧ target ∈ o.importTargets path files.keys :=
  edge_ofImportsIn_iff h

end Graph

namespace Index

@[simp] theorem imports_dropFile (index : Index) (path : String) :
    (index.dropFile path).imports = index.imports := by
  unfold dropFile
  split <;> rfl

@[simp] theorem importers_dropFile (index : Index) (path : String) :
    (index.dropFile path).importers = index.importers := by
  unfold dropFile
  split <;> rfl

theorem get?_putImports (imports : Graph) (path : String) (targets : Names) (key : String) :
    get? (putImports imports path targets) key =
      if key = path then (if targets = [] then none else some targets)
      else get? imports key := by
  unfold putImports
  cases targets with
  | nil => simp [get?_erase]
  | cons t ts => simp [get?_put]

theorem nodup_keys_putImports {imports : Graph} (h : (keys imports).Nodup) (path : String)
    (targets : Names) : (keys (putImports imports path targets)).Nodup := by
  unfold putImports
  split
  · exact nodup_keys_erase h path
  · exact nodup_keys_put h path targets

/-! ## The invariant -/

/-- What holds of an index whatever has been done to it. -/
structure Orderly (index : Index) : Prop where
  nodup_files : index.files.keys.Nodup
  outline : ∀ {path o}, index.files.get? path = some o → ∃ bytes, Outline.ofBytes bytes path = .ok o
  nodup_imports : (keys index.imports).Nodup
  imports : ∀ {path targets}, get? index.imports path = some targets →
    targets ≠ [] ∧ ∃ o files, index.files.get? path = some o ∧ targets = o.importTargets path files
  nodup_importers : (keys index.importers).Nodup
  importers : ∀ {target path}, index.importers.Edge target path →
    has index.imports path = true

namespace Orderly

variable {index : Index}

section

variable (h : index.Orderly)
include h

theorem rebuild : index.rebuild.Orderly where
  nodup_files := h.nodup_files
  outline := h.outline
  nodup_imports := nodup_keys_ofImports h.nodup_files
  imports {path targets} hget := by
    have hlead : get? (ofImports index.files) path = some targets := hget
    rw [get?_ofImports h.nodup_files, Option.bind_eq_some_iff] at hlead
    obtain ⟨o, ho, htargets⟩ := hlead
    split at htargets
    · cases htargets
    · rename_i hsome
      cases htargets
      exact ⟨hsome, o, _, ho, rfl⟩
  nodup_importers := nodup_keys_transpose _
  importers {target path} hedge := by
    have hturned : (ofImports index.files).transpose.Edge target path := hedge
    rw [edge_transpose_iff (nodup_keys_ofImports h.nodup_files)] at hturned
    exact has_of_edge hturned

/-- Released, a file is in neither graph of imports; the others stay as they were. -/
theorem get?_imports_releaseFile (path key : String) :
    get? (index.releaseFile path).imports key =
      if key = path then none else get? index.imports key := by
  unfold releaseFile
  cases hfile : index.files.get? path with
  | some o => exact get?_erase index.imports path key
  -- A file that the index does not have is no node.
  | none =>
    by_cases hkey : key = path
    · rw [if_pos hkey]
      apply Option.eq_none_iff_forall_ne_some.2
      intro targets hget
      obtain ⟨-, o, -, ho, -⟩ := h.imports hget
      rw [hkey, hfile] at ho
      cases ho
    · rw [if_neg hkey]

theorem edge_importers_releaseFile :
    (index.releaseFile path).importers.Edge target source ↔
      index.importers.Edge target source ∧ source ≠ path := by
  unfold releaseFile
  cases hfile : index.files.get? path with
  | some o => exact edge_dropTarget_iff
  | none =>
    refine (and_iff_left_of_imp ?_).symm
    rintro hedge rfl
    obtain ⟨targets, hget⟩ := has_iff_exists.1 (h.importers hedge)
    obtain ⟨-, o, -, ho, -⟩ := h.imports hget
    rw [hfile] at ho
    cases ho

theorem has_imports_releaseFile (hedge : (index.releaseFile path).importers.Edge target source) :
    source ≠ path ∧ has (index.releaseFile path).imports source = true := by
  obtain ⟨hold, hne⟩ := h.edge_importers_releaseFile.1 hedge
  refine ⟨hne, ?_⟩
  rw [has_eq_isSome, h.get?_imports_releaseFile, if_neg hne]
  exact h.importers hold

theorem nodup_imports_releaseFile (path : String) :
    (keys (index.releaseFile path).imports).Nodup := by
  unfold releaseFile
  split
  · exact nodup_keys_erase h.nodup_imports path
  · exact h.nodup_imports

theorem nodup_importers_releaseFile (path : String) :
    (keys (index.releaseFile path).importers).Nodup := by
  unfold releaseFile
  split
  · show (keys (index.importers.dropTarget path)).Nodup
    rw [keys_dropTarget]
    exact h.nodup_importers
  · exact h.nodup_importers

/-- A node that is left after a file was released is another file. -/
theorem imports_releaseFile {key : String} {targets : Names}
    (hget : get? (index.releaseFile path).imports key = some targets) :
    key ≠ path ∧ targets ≠ [] ∧
      ∃ o files, index.files.get? key = some o ∧ targets = o.importTargets key files := by
  rw [h.get?_imports_releaseFile] at hget
  split at hget
  · cases hget
  · rename_i hne
    exact ⟨hne, h.imports hget⟩

/-- A file that was released and could not be entered. -/
theorem releaseFile (path : String) : (index.releaseFile path).Orderly where
  nodup_files := by simpa using h.nodup_files
  outline {key o} ho := h.outline (by simpa using ho)
  nodup_imports := h.nodup_imports_releaseFile path
  imports {key targets} hget := by
    rw [files_releaseFile]
    exact (h.imports_releaseFile hget).2
  nodup_importers := h.nodup_importers_releaseFile path
  importers hedge := (h.has_imports_releaseFile hedge).2

/-- A file that was taken out. -/
theorem releaseFile_dropFile (path : String) :
    ((index.releaseFile path).dropFile path).Orderly where
  nodup_files := by simpa using nodup_keys_erase h.nodup_files path
  outline {key o} ho := by
    rw [files_dropFile, files_releaseFile, get?_erase] at ho
    split at ho
    · cases ho
    · exact h.outline ho
  nodup_imports := by simpa using h.nodup_imports_releaseFile path
  imports {key targets} hget := by
    rw [imports_dropFile] at hget
    obtain ⟨hne, hsome, o, files, ho, htargets⟩ := h.imports_releaseFile hget
    refine ⟨hsome, o, files, ?_, htargets⟩
    rw [files_dropFile, files_releaseFile, get?_erase, if_neg hne, ho]
  nodup_importers := by simpa using h.nodup_importers_releaseFile path
  importers {target source} hedge := by
    rw [importers_dropFile] at hedge
    rw [imports_dropFile]
    exact (h.has_imports_releaseFile hedge).2

/-- A file that was entered again. -/
theorem releaseFile_enter {bytes : List UInt8} {o : Outline}
    (ho : Outline.ofBytes bytes path = .ok o) :
    ((index.releaseFile path).enter path o).Orderly where
  nodup_files := by simpa [enter] using nodup_keys_put h.nodup_files path o
  outline {key p} hp := by
    simp only [enter, files_releaseFile, get?_put] at hp
    split at hp
    · rename_i hkey
      cases hp
      exact ⟨bytes, hkey ▸ ho⟩
    · exact h.outline hp
  nodup_imports := nodup_keys_putImports (h.nodup_imports_releaseFile path) path _
  imports {key targets} hget := by
    simp only [enter, files_releaseFile, get?_putImports] at hget
    simp only [enter, files_releaseFile, get?_put]
    split at hget
    -- The file itself has the targets of its new outline, if there are any.
    · rename_i hkey
      split at hget
      · cases hget
      · rename_i hsome
        cases hget
        exact ⟨hsome, o, _, if_pos hkey, by rw [hkey]⟩
    · rename_i hne
      obtain ⟨-, hsome, p, files, hp, htargets⟩ := h.imports_releaseFile hget
      exact ⟨hsome, p, files, by rw [if_neg hne, hp], htargets⟩
  nodup_importers := h.nodup_importers_releaseFile path
  importers {target source} hedge := by
    obtain ⟨hne, hhas⟩ := h.has_imports_releaseFile hedge
    simp only [enter]
    rwa [has_eq_isSome, get?_putImports, if_neg hne]

theorem refresh : index.refresh.Orderly where
  nodup_files := h.nodup_files
  outline := h.outline
  nodup_imports := h.nodup_imports
  imports := h.imports
  nodup_importers := nodup_keys_transpose _
  importers {target path} hedge := by
    have hturned : index.imports.transpose.Edge target path := hedge
    rw [edge_transpose_iff h.nodup_imports] at hturned
    exact has_of_edge hturned

/-- What is no node of the imports is counted nowhere as an importer. -/
theorem dropTarget_importers (hpath : path ∉ keys index.imports) :
    index.importers.dropTarget path = index.importers := by
  refine (List.map_congr_left ?_).trans (List.map_id _)
  rintro ⟨target, sources⟩ hmem
  have hfree : path ∉ sources := by
    intro hsource
    have hedge : index.importers.Edge target path :=
      edge_iff.2 ⟨sources, get?_of_mem h.nodup_importers hmem, hsource⟩
    exact hpath (has_iff_mem_keys.1 (h.importers hedge))
  have hkept : sources.filter (· != path) = sources := by
    rw [List.filter_eq_self]
    intro source hsource
    simpa using fun he : source = path => hfree (he ▸ hsource)
  simp [hkept]

theorem remove (path : String) : (index.remove path).Orderly :=
  h.releaseFile_dropFile (Project.key index.root path)

theorem reindex (tree : FileTree) (path : String) (skipGraphs : Bool) :
    (index.reindex tree path skipGraphs).1.Orderly := by
  rcases reindex_outcome index tree path with ⟨fault, -, hleft⟩ | ⟨-, hleft⟩ | ⟨o, ho, hleft⟩
  · rw [hleft]
    exact h.releaseFile _
  · rw [hleft]
    exact h.remove path
  · obtain ⟨bytes, hbytes⟩ := ofBytes_of_present? ho
    rw [hleft]
    cases skipGraphs with
    | true => exact h.releaseFile_enter hbytes
    | false => exact (h.releaseFile_enter hbytes).refresh

end

end Orderly

/-- A new index is orderly. -/
theorem orderly_ofTree {tree : FileTree} {index : Index}
    (h : ofTree root settings tree = .ok index) :
    index.Orderly := by
  have hfile := fun {path : String} {o : Outline} (ho : index.files.get? path = some o) =>
    file_of_ofTree h ho
  obtain ⟨-, -, -, rfl⟩ := ofTree_eq_ok h
  -- Its graphs are those that are made anew from its files.
  have hbare : ({ ofOutlines root (taken settings tree) with imports := [], importers := [] } :
      Index).Orderly :=
    { nodup_files := nodup_keys_ofPairs _
      outline := fun {path o} ho =>
        let ⟨bytes, _, hbytes⟩ := hfile ho
        ⟨bytes, hbytes⟩
      nodup_imports := List.nodup_nil
      imports := fun hget => by cases hget
      nodup_importers := List.nodup_nil
      importers := fun hedge => absurd hedge (not_edge_nil _ _) }
  exact hbare.rebuild

end Index

/-- **Every index that a project can have is orderly,** whatever was done to it and whether that
failed or not. -/
theorem Project.orderly_through (turns : List Turn) {i : Index}
    (hi : ((fresh root settings).through turns).index = some i) : i.Orderly :=
  through_induction (motive := Index.Orderly) (fun _ _ hmake => Index.orderly_ofTree hmake)
    (fun _ tree path skipGraphs h => h.reindex tree path skipGraphs) (fun _ path h => h.remove path)
    (fun _ h => h.rebuild) turns hi

end SourceAtlas
