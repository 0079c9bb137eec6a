import SourceAtlas.Proofs.FaultyRuns
import SourceAtlas.Proofs.UpdateRefinement

/-!
# Graphs made at once or later

A file can be entered with the graphs made anew at once, or with the graphs left for later, when
`rebuild` makes all of them. The first way makes the graph of imports anew for the entered file
only, and makes no graph at all for a file that cannot be read. So the two ways need not lead to the
same index. `reindex_same_iff` says exactly when they do.

* If the file can be read, every other file has to point already where its imports lead once the
  file is there. A file that the index had before changes nothing about that.
* If it cannot, the graphs have to be those of the other files already. For an index whose graphs
  are current this means that the file was detached from the others (`Index.Detached`).
-/

set_option autoImplicit false

namespace SourceAtlas

open Assoc SourceAtlas.Graph

variable {g : Graph} {files : Assoc Outline}

/-! ## Graphs without idle nodes -/

namespace Graph

variable {k : Graph}

/-- Every node of the graph points somewhere. -/
def Full (g : Graph) : Prop := ∀ {node targets}, get? g node = some targets → targets ≠ []

theorem Full.has_iff (h : g.Full) {node : String} :
    has g node = true ↔ ∃ target, g.Edge node target := by
  constructor
  · intro hnode
    obtain ⟨targets, hget⟩ := has_iff_exists.1 hnode
    obtain ⟨target, htarget⟩ := List.exists_mem_of_ne_nil targets (h hget)
    exact ⟨target, edge_iff.2 ⟨targets, hget, htarget⟩⟩
  · rintro ⟨target, hedge⟩
    exact has_of_edge hedge

/-- Graphs without idle nodes are the same when they have the same edges. -/
theorem Full.same (hg : g.Full) (hk : k.Full)
    (hedges : ∀ source target, g.Edge source target ↔ k.Edge source target) : g.Same k := by
  refine ⟨fun node => ?_, hedges⟩
  rw [hg.has_iff, hk.has_iff]
  exact exists_congr fun target => hedges node target

theorem full_ofImportsIn (h : files.keys.Nodup) (order : List String) :
    (ofImportsIn order files).Full := by
  intro path targets hget
  rw [get?_ofImportsIn h, Option.bind_eq_some_iff] at hget
  obtain ⟨o, -, htargets⟩ := hget
  split at htargets
  · cases htargets
  · rename_i hsome
    cases htargets
    exact hsome

theorem Same.refl (g : Graph) : g.Same g := ⟨fun _ => Iff.rfl, fun _ _ => Iff.rfl⟩

theorem Same.symm (h : g.Same k) : k.Same g :=
  ⟨fun node => (h.1 node).symm, fun source target => (h.2 source target).symm⟩

theorem Same.trans {l : Graph} (h : g.Same k) (h' : k.Same l) : g.Same l :=
  ⟨fun node => (h.1 node).trans (h'.1 node),
    fun source target => (h.2 source target).trans (h'.2 source target)⟩

end Graph

namespace Index

variable {bytes : List UInt8}

/-! ## Indexes that hold the same -/

/-- Files, totals and symbols are equal, and the graphs are the same as maps of sets. -/
structure Same (index other : Index) : Prop extends index.SameGraphs other where
  files : index.files = other.files
  totals : index.totals = other.totals
  symbols : index.symbols = other.symbols

/-- The graphs are those that would be made anew. -/
def Current (index : Index) : Prop := index.Same index.rebuild

/-- Every file but the one at `path` points where its imports lead among the given files. -/
def LeadsAmong (index : Index) (path : String) (files : List String) : Prop :=
  ∀ other o, other ≠ path → index.files.get? other = some o →
    ∀ target, index.imports.Edge other target ↔ target ∈ o.importTargets other files

/-- The file can go without a trace in the graphs: no other file is led elsewhere without it, every
file that it imports is imported by another one too, and all that its definitions add to the
dependencies is there without them. -/
structure Detached (index : Index) (path : String) : Prop where
  leads : ∀ other o, other ≠ path → index.files.get? other = some o → ∀ target,
    target ∈ o.importTargets other index.files.keys ↔
      target ∈ o.importTargets other (index.files.erase path).keys
  shared : ∀ target, (ofImports index.files).Edge path target →
    ∃ other, other ≠ path ∧ (ofImports index.files).Edge other target
  dependencies : (ofDependencies index.files index.symbols).Same
    (ofDependencies (index.files.erase path) (index.releaseFile path).symbols)

/-! ## The graph of imports -/

section

variable {index : Index} {path : String}

theorem Orderly.full_imports (h : index.Orderly) : index.imports.Full :=
  fun hget => (h.imports hget).1

/-- A graph that differs from the imports of an index at one file only, and is right there, is the
graph of imports of other files exactly when the rest leads where it should. -/
theorem Orderly.same_ofImports_iff (h : index.Orderly) (hfiles : files.keys.Nodup)
    (hothers : ∀ other, other ≠ path → files.get? other = index.files.get? other) (hfull : g.Full)
    (hrest : ∀ other target, other ≠ path →
      (g.Edge other target ↔ index.imports.Edge other target))
    (hpath : ∀ target, g.Edge path target ↔ (ofImports files).Edge path target) :
    g.Same (ofImports files) ↔ index.LeadsAmong path files.keys := by
  constructor
  · intro hsame other o hne ho target
    rw [← hrest other target hne, hsame.2, edge_ofImports_iff hfiles, hothers other hne, ho]
    simp
  · intro hleads
    have hnew : (ofImports files).Full := full_ofImportsIn hfiles _
    apply hfull.same hnew
    intro source target
    by_cases hsource : source = path
    · rw [hsource]
      exact hpath target
    · rw [hrest source target hsource, edge_ofImports_iff hfiles, hothers source hsource]
      cases ho : index.files.get? source with
      | some o => simpa using hleads source o hsource ho target
      -- What is no file of the index is a node of neither graph.
      | none =>
        refine iff_of_false ?_ (by simp)
        intro hedge
        obtain ⟨targets, hget, -⟩ := edge_iff.1 hedge
        obtain ⟨-, o, -, hsome, -⟩ := h.imports hget
        rw [ho] at hsome
        cases hsome

/-- The imports after a file was entered. -/
theorem Orderly.same_imports_enter_iff (h : index.Orderly) {o : Outline}
    (ho : Outline.ofBytes bytes path = .ok o) :
    ((index.releaseFile path).enter path o).imports.Same
        (ofImports (index.files.put path o)) ↔
      index.LeadsAmong path (index.files.put path o).keys := by
  have hnodup := nodup_keys_put h.nodup_files path o
  refine h.same_ofImports_iff hnodup ?_ (h.releaseFile_enter ho).full_imports ?_ ?_
  · intro other hne
    rw [get?_put, if_neg hne]
  · intro other target hne
    rw [edge_iff, edge_iff]
    simp only [enter, get?_putImports, if_neg hne, h.get?_imports_releaseFile]
  · intro target
    rw [edge_ofImports_iff hnodup, edge_iff]
    simp only [enter, get?_putImports, if_true, files_releaseFile, get?_put]
    split
    · rename_i hnone
      simp [hnone]
    · simp

/-- The imports after a file was taken out. -/
theorem Orderly.same_imports_remove_iff (h : index.Orderly) (path : String) :
    ((index.releaseFile path).dropFile path).imports.Same
        (ofImports (index.files.erase path)) ↔
      index.LeadsAmong path (index.files.erase path).keys := by
  have hnodup := nodup_keys_erase h.nodup_files path
  refine h.same_ofImports_iff hnodup ?_ (h.releaseFile_dropFile path).full_imports ?_ ?_
  · intro other hne
    rw [get?_erase, if_neg hne]
  · intro other target hne
    rw [imports_dropFile, edge_iff, edge_iff, h.get?_imports_releaseFile, if_neg hne]
  · intro target
    rw [imports_dropFile, edge_ofImports_iff hnodup, edge_iff,
      h.get?_imports_releaseFile, get?_erase]
    simp

end

/-! ## A file that can be read -/

/-- Entering a file with the graphs made at once leads to the same as making all of them later
exactly when the other files point where their imports lead. -/
theorem Orderly.same_refresh_iff {index : Index} (h : index.Orderly) {path : String} {o : Outline}
    (ho : Outline.ofBytes bytes path = .ok o) :
    ((index.releaseFile path).enter path o).refresh.Same
        ((index.releaseFile path).enter path o).rebuild ↔
      index.LeadsAmong path (index.files.put path o).keys := by
  rw [← h.same_imports_enter_iff ho]
  have hfiles : ((index.releaseFile path).enter path o).files = index.files.put path o := by
    simp [enter]
  constructor
  · intro hsame
    have himports := hsame.imports
    rwa [Index.rebuild, hfiles] at himports
  · intro himports
    have hentered := h.releaseFile_enter ho
    have hleads : ((index.releaseFile path).enter path o).imports.Same
        (ofImports ((index.releaseFile path).enter path o).files) := by
      rwa [hfiles]
    -- Both make the dependencies from the same files and symbols.
    exact
      { files := rfl
        totals := rfl
        symbols := rfl
        imports := hleads
        importers := hleads.transpose hentered.nodup_imports
          (nodup_keys_ofImports hentered.nodup_files)
        dependencies := Graph.Same.refl _
        dependents := Graph.Same.refl _ }

/-- In a current index all files point where their imports lead. -/
theorem Current.edge_imports_iff {index : Index} (h : index.Current) (hi : index.Orderly)
    {path target : String} {o : Outline} (ho : index.files.get? path = some o) :
    index.imports.Edge path target ↔ target ∈ o.importTargets path index.files.keys := by
  have hedge : index.imports.Edge path target ↔ (ofImports index.files).Edge path target :=
    h.imports.2 path target
  rw [hedge, edge_ofImports_iff hi.nodup_files, ho]
  simp

/-! ## A file that cannot be read -/

theorem remove_of_missing {index : Index} {path : String}
    (h : index.files.get? (Project.key index.root path) = none) : index.remove path = index := by
  have hhas : index.files.has (Project.key index.root path) = false := has_eq_false_iff.2 h
  simp only [remove, releaseFile, dropFile, h, hhas, Bool.false_eq_true, if_false]

section

variable {index : Index} {path : String} {o : Outline}

theorem importers_releaseFile_of_mem (h : index.files.get? path = some o) :
    (index.releaseFile path).importers = index.importers.dropTarget path := by
  simp only [releaseFile, h, release]

theorem dependencies_releaseFile_dropFile (index : Index) (path : String) :
    ((index.releaseFile path).dropFile path).dependencies = index.dependencies ∧
      ((index.releaseFile path).dropFile path).dependents = index.dependents := by
  unfold dropFile releaseFile
  constructor
  · split <;> split <;> rfl
  · split <;> split <;> rfl

/-- With current graphs, the others are led elsewhere exactly if they lose a target. -/
theorem Current.leadsAmong_iff (h : index.Current) (hi : index.Orderly) (files : List String) :
    index.LeadsAmong path files ↔
      ∀ other p, other ≠ path → index.files.get? other = some p → ∀ target,
        target ∈ p.importTargets other index.files.keys ↔ target ∈ p.importTargets other files := by
  unfold LeadsAmong
  refine forall_congr' fun other => forall_congr' fun p => forall_congr' fun hne =>
    forall_congr' fun hp => forall_congr' fun target => ?_
  rw [h.edge_imports_iff hi hp]

/-- **An index with current graphs loses a file with current graphs exactly when the file is
detached.** -/
theorem Current.releaseFile_dropFile_iff (h : index.Current) (hi : index.Orderly)
    (ho : index.files.get? path = some o) :
    ((index.releaseFile path).dropFile path).Current ↔ index.Detached path := by
  have hold := nodup_keys_ofImports hi.nodup_files
  have hnew := nodup_keys_ofImports (nodup_keys_erase hi.nodup_files path)
  have hfiles : ((index.releaseFile path).dropFile path).files = index.files.erase path := by simp
  have hsymbols : ((index.releaseFile path).dropFile path).symbols =
      (index.releaseFile path).symbols := by simp
  have himporters : ((index.releaseFile path).dropFile path).importers =
      index.importers.dropTarget path := by
    rw [importers_dropFile, importers_releaseFile_of_mem ho]
  obtain ⟨hdeps, hdependents⟩ := dependencies_releaseFile_dropFile index path
  have hleads := (hi.same_imports_remove_iff path).trans (h.leadsAmong_iff hi _)
  -- Where the others lead stays the same, so that only the file itself is missing among importers.
  have hrest : (∀ other p, other ≠ path → index.files.get? other = some p → ∀ target,
      target ∈ p.importTargets other index.files.keys ↔
        target ∈ p.importTargets other (index.files.erase path).keys) →
      ∀ source target, (ofImports (index.files.erase path)).Edge source target ↔
        (ofImports index.files).Edge source target ∧ source ≠ path := by
    intro hmoved source target
    rw [edge_ofImports_iff (nodup_keys_erase hi.nodup_files path),
      edge_ofImports_iff hi.nodup_files, get?_erase]
    by_cases hsource : source = path
    · simp [hsource]
    · rw [if_neg hsource, and_iff_left hsource]
      refine exists_congr fun p => and_congr_right fun hp => ?_
      exact (hmoved source p hsource hp target).symm
  constructor
  · intro hcurrent
    have himports := hcurrent.imports
    have hnodes := hcurrent.importers
    have hdependencies := hcurrent.dependencies
    simp only [rebuild, hfiles, hsymbols, himporters, hdeps] at himports hnodes hdependencies
    refine ⟨hleads.1 himports, fun target hedge => ?_, ?_⟩
    -- A target of the file stays a node, so that some other file has to point to it.
    · have hnode : has index.importers target = true :=
        (h.importers.1 target).2 ((has_transpose_iff hold).2 ⟨path, hedge⟩)
      rw [← has_dropTarget index.importers path, hnodes.1,
        has_transpose_iff hnew] at hnode
      obtain ⟨other, hother⟩ := hnode
      obtain ⟨hother, hne⟩ := (hrest (hleads.1 himports) other target).1 hother
      exact ⟨other, hne, hother⟩
    · exact h.dependencies.symm.trans hdependencies
  · rintro ⟨hmoved, hshared, hdependencies⟩
    have hnodes : (index.importers.dropTarget path).Same
        (ofImports (index.files.erase path)).transpose := by
      refine ⟨fun target => ?_, fun target source => ?_⟩
      · rw [has_dropTarget, h.importers.1, has_transpose_iff hnew]
        simp only [hrest hmoved]
        refine (has_transpose_iff hold).trans ⟨?_, ?_⟩
        · rintro ⟨source, hedge⟩
          by_cases hsource : source = path
          · obtain ⟨other, hne, hother⟩ := hshared target (hsource ▸ hedge)
            exact ⟨other, hother, hne⟩
          · exact ⟨source, hedge, hsource⟩
        · rintro ⟨source, hedge, -⟩
          exact ⟨source, hedge⟩
      · rw [edge_dropTarget_iff, h.importers.2, edge_transpose_iff hnew,
          hrest hmoved source target]
        exact and_congr_left fun _ => edge_transpose_iff hold
    have hkept := h.dependencies.trans hdependencies
    have hturned := h.dependents.trans (hdependencies.transpose
      (nodup_keys_ofDependencies _ _) (nodup_keys_ofDependencies _ _))
    refine ⟨⟨?_, ?_, ?_, ?_⟩, rfl, rfl, rfl⟩
    · simp only [rebuild, hfiles]
      exact hleads.2 hmoved
    · simp only [rebuild, hfiles, himporters]
      exact hnodes
    · simp only [rebuild, hfiles, hsymbols, hdeps]
      exact hkept
    · simp only [rebuild, hfiles, hsymbols, hdependents]
      exact hturned

end

theorem current_ofTree {root : String} {settings : Settings} {tree : FileTree} {index : Index}
    (h : ofTree root settings tree = .ok index) : index.Current := by
  unfold Current
  rw [rebuild_ofTree h]
  exact ⟨⟨.refl _, .refl _, .refl _, .refl _⟩, rfl, rfl, rfl⟩

end Index

/-! ## Both ways compared -/

namespace Project

/-- **When a file is entered with the graphs made at once, the index is the one that making all
graphs later leads to, exactly under these conditions.** Both ways fail alike, and files, totals and
symbols always agree. If the file can be read, the graphs agree if and only if every other file
points already where its imports lead once the file is there, as in a current index that had the
file before. If it cannot be read, both ways only take it out, and the graphs agree if and only if
they are current then; an index with current graphs keeps them so if and only if it did not have the
file or the file was detached. -/
theorem reindex_same_iff {root : String} {settings : Settings} {turns : List Turn} {i : Index}
    (hi : ((fresh root settings).through turns).index = some i) (tree : FileTree) (path : String) :
    let key := key i.root path
    let now := i.reindex tree path false
    let later := i.reindex tree path true
    now.2 = later.2 ∧ (now.2 ≠ none → now.1 = later.1) ∧
      (now.1.files = later.1.rebuild.files ∧ now.1.totals = later.1.rebuild.totals ∧
        now.1.symbols = later.1.rebuild.symbols) ∧
      (now.2 = none → ∀ o, i.present? tree path = some o →
        (now.1.Same later.1.rebuild ↔ i.LeadsAmong key (i.files.put key o).keys) ∧
        (i.Current → i.files.has key = true → now.1.Same later.1.rebuild)) ∧
      (now.2 = none → i.present? tree path = none →
        (now.1.Same later.1.rebuild ↔ (i.remove path).Current) ∧
        (i.Current →
          (now.1.Same later.1.rebuild ↔ (i.files.has key = true → i.Detached key)))) := by
  have horderly := orderly_through turns hi
  intro key now later
  rcases i.reindex_outcome tree path with ⟨fault, -, hleft⟩ | ⟨hnone, hleft⟩ | ⟨o, hsome, hleft⟩
  · have hnow : now = (i.releaseFile key, some fault) := hleft false
    have hlater : later = (i.releaseFile key, some fault) := hleft true
    rw [hnow, hlater]
    have hfailed : ¬ some fault = none := Option.some_ne_none fault
    exact ⟨rfl, fun _ => rfl, ⟨rfl, rfl, rfl⟩, fun h => absurd h hfailed, fun h => absurd h hfailed⟩
  · have hnow : now = (i.remove path, none) := hleft false
    have hlater : later = (i.remove path, none) := hleft true
    rw [hnow, hlater]
    refine ⟨rfl, fun _ => rfl, ⟨rfl, rfl, rfl⟩, fun _ o ho => ?_, fun _ _ => ⟨Iff.rfl, ?_⟩⟩
    · rw [hnone] at ho
      cases ho
    · intro hcurrent
      cases hfile : i.files.get? key with
      -- A file that the index did not have is not missed.
      | none =>
        have hhas : i.files.has key = false := Assoc.has_eq_false_iff.2 hfile
        show (i.remove path).Current ↔ _
        rw [Index.remove_of_missing hfile, hhas]
        exact iff_of_true hcurrent fun h => absurd h Bool.false_ne_true
      | some o =>
        have hhas : i.files.has key = true := Assoc.has_iff_exists.2 ⟨o, hfile⟩
        rw [forall_prop_of_true hhas]
        exact hcurrent.releaseFile_dropFile_iff horderly hfile
  · obtain ⟨bytes, hbytes⟩ := Index.ofBytes_of_present? hsome
    have hnow : now = (((i.releaseFile key).enter key o).refresh, none) := hleft false
    have hlater : later = ((i.releaseFile key).enter key o, none) := hleft true
    have hiff := horderly.same_refresh_iff hbytes
    rw [hnow, hlater]
    refine ⟨rfl, fun h => absurd rfl h, ⟨rfl, rfl, rfl⟩, fun _ p hp => ?_, fun _ hnone => ?_⟩
    · obtain rfl := Option.some.inj (hsome.symm.trans hp)
      refine ⟨hiff, fun hcurrent hhas => hiff.2 ?_⟩
      -- With the file there before, the imports are looked for among the same files.
      rw [hcurrent.leadsAmong_iff horderly, Assoc.keys_put, if_pos (Assoc.has_iff_mem_keys.1 hhas)]
      exact fun _ _ _ _ _ => Iff.rfl
    · rw [hsome] at hnone
      cases hnone

/-- A file that imports another one, which is not there. -/
def importerAlone : FileTree := .ofTexts [("a.py", "import b\n")]

/-- The same with the other file. -/
def importerAndImported : FileTree := .ofTexts [("a.py", "import b\n"), ("b.py", "x = 1\n")]

/-- The importing file with another line. -/
def importerChanged : FileTree := .ofTexts [("a.py", "import b\nimport c\n")]

/-- A file that appears is entered without those that import it. -/
theorem importer_of_new_file_missed :
    ∃ i, ((fresh "/project" .usual).through [⟨importerAlone, .index⟩]).index = some i ∧
      (i.reindex importerAndImported "b.py" false).2 = none ∧
      ¬ (i.reindex importerAndImported "b.py" false).1.Same
        (i.reindex importerAndImported "b.py" true).1.rebuild := by
  have hview : ((fresh "/project" .usual).through [⟨importerAlone, .index⟩]).index.map
      (fun i => ((i.reindex importerAndImported "b.py" false).2,
        (i.reindex importerAndImported "b.py" false).1.imports.targets "a.py",
        (i.reindex importerAndImported "b.py" true).1.rebuild.imports.targets "a.py")) =
      some (none, [], ["b.py"]) := by decide +kernel
  obtain ⟨i, hi, hseen⟩ := Option.map_eq_some_iff.1 hview
  obtain ⟨hfault, hseen⟩ := Prod.mk.inj hseen
  obtain ⟨hnow, hlater⟩ := Prod.mk.inj hseen
  refine ⟨i, hi, hfault, fun hsame => ?_⟩
  have hedge := hsame.imports.2 "a.py" "b.py"
  rw [Graph.Edge, Graph.Edge, hnow, hlater] at hedge
  simp at hedge

/-- A file that is changed is entered as it would be with all graphs made later. -/
theorem changed_file_same_either_way :
    ∃ i, ((fresh "/project" .usual).through [⟨importerAlone, .index⟩]).index = some i ∧
      i.files.keys = ["a.py"] ∧ (i.reindex importerChanged "a.py" false).2 = none ∧
      (i.reindex importerChanged "a.py" false).1.Same
        (i.reindex importerChanged "a.py" true).1.rebuild := by
  have hfinds : Settings.usual.Finds importerAlone [⟨"a.py", "a.py"⟩] := by decide +kernel
  have hmade : ∃ i, Index.ofTree "/project" .usual importerAlone = .ok i ∧
      i.files.has (key i.root "a.py") = true ∧ i.files.keys = ["a.py"] ∧
      (i.reindex importerChanged "a.py" false).2 = none ∧
      (i.present? importerChanged "a.py").isSome = true :=
    ⟨_, hfinds.ofTree (by decide +kernel) _, by decide +kernel⟩
  obtain ⟨i, hofTree, hhas, hkeys, hfault, hpresent⟩ := hmade
  have hi : ((fresh "/project" .usual).through [⟨importerAlone, .index⟩]).index = some i := by
    simp [through, perform, makeIndex, fresh, hofTree]
  obtain ⟨o, ho⟩ := Option.isSome_iff_exists.1 hpresent
  obtain ⟨-, -, -, hread, -⟩ := reindex_same_iff hi importerChanged "a.py"
  exact ⟨i, hi, hkeys, hfault, (hread hfault o ho).2 (Index.current_ofTree hofTree) hhas⟩

end Project

end SourceAtlas
