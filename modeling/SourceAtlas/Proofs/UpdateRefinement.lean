import SourceAtlas.Proofs.ClassMethods
import SourceAtlas.Proofs.Graphs
import SourceAtlas.Proofs.ProjectRuns

/-!
# Updates against a fresh index

When the files of a project change, its index can follow them one by one, or a fresh index can be
made. If no two files share a name, in the sense of `Index.CollisionFree`, both lead to the same
files, graphs and symbols, in whatever order the files are followed (`Index.Agrees`); the totals
differ by what the two searches found again.

`Index.Between` is the invariant: every file of the index is as it was or as it will be, and every
name that it defines belongs to it.
-/

set_option autoImplicit false

namespace SourceAtlas

open Assoc

variable {o : Outline}

namespace Outline

/-- A method of the file has the bare name. -/
def HasMethod (o : Outline) (name : String) : Prop :=
  ∃ f ∈ o.functions, f.isMethod = true ∧ f.name = name

instance (o : Outline) (name : String) : Decidable (o.HasMethod name) := by
  unfold HasMethod
  infer_instance

/-- The names that an update enters are those that the file defines and the bare names of its
methods. -/
theorem mem_updatedNames_iff (h : AllQualified o.functions) {name : String} :
    name ∈ o.updatedNames ↔ name ∈ o.ownNames ∨ o.HasMethod name := by
  rw [mem_updatedNames]
  constructor
  · rintro (⟨f, hf, hq | hn⟩ | hclass)
    · exact Or.inl (mem_ownNames.2 (Or.inl ⟨f, hf, hq⟩))
    · rcases h f hf with ⟨-, -, heq⟩ | ⟨parent, hmethod, -⟩
      · exact Or.inl (mem_ownNames.2 (Or.inl ⟨f, hf, heq.trans hn⟩))
      · exact Or.inr ⟨f, hf, hmethod, hn⟩
    · exact Or.inl (mem_ownNames.2 (Or.inr hclass))
  · rintro (hown | ⟨f, hf, -, hn⟩)
    · exact mem_updatedNames.1 (updatedNames_of_ownNames hown)
    · exact Or.inl ⟨f, hf, Or.inr hn⟩

end Outline

namespace Index

/-- A file of the index defines the name: a function has it as its qualified name, or a class. -/
def Defines (index : Index) (name : String) : Prop := ∃ e ∈ index.files, name ∈ e.2.ownNames

instance (index : Index) (name : String) : Decidable (index.Defines name) := by
  unfold Defines
  infer_instance

/-- A method of a file of the index has the bare name. -/
def HasMethod (index : Index) (name : String) : Prop := ∃ e ∈ index.files, e.2.HasMethod name

/-- The files as they are before and after some changes. -/
def versions (before fresh : Index) : List (String × Outline) := before.files ++ fresh.files

/-- No version of a file defines a name that a version of another file defines or has as the bare
name of a method; and the bare name of a method is referred to only if a file defines it in the
end. -/
structure CollisionFree (before fresh : Index) : Prop where
  apart : ∀ e ∈ versions before fresh, ∀ d ∈ versions before fresh, e.1 ≠ d.1 →
    ∀ name ∈ e.2.ownNames, name ∉ d.2.ownNames ∧ ¬ d.2.HasMethod name
  referred : ∀ e ∈ versions before fresh, ∀ d ∈ versions before fresh,
    ∀ name ∈ d.2.referredNames, e.2.HasMethod name → fresh.Defines name

instance (before fresh : Index) : Decidable (CollisionFree before fresh) :=
  decidable_of_iff
    ((∀ e ∈ versions before fresh, ∀ d ∈ versions before fresh, e.1 ≠ d.1 →
        ∀ name ∈ e.2.ownNames, name ∉ d.2.ownNames ∧ ¬ d.2.HasMethod name) ∧
      ∀ e ∈ versions before fresh, ∀ d ∈ versions before fresh,
        ∀ name ∈ d.2.referredNames, e.2.HasMethod name → fresh.Defines name)
    ⟨fun h => ⟨h.1, h.2⟩, fun h => ⟨h.apart, h.referred⟩⟩

/-- The four graphs of both are the same as maps of sets. -/
structure SameGraphs (index other : Index) : Prop where
  imports : index.imports.Same other.imports
  importers : index.importers.Same other.importers
  dependencies : index.dependencies.Same other.dependencies
  dependents : index.dependents.Same other.dependents

/-- Both hold the same files, have the same graphs as maps of sets, and agree on every symbol that
is not merely the bare name of a method. -/
structure Agrees (index fresh : Index) : Prop extends index.SameGraphs fresh where
  files : ∀ path, index.files.get? path = fresh.files.get? path
  fileTotal : index.totals.files = fresh.totals.files
  symbols : ∀ name, fresh.Defines name ∨ ¬ fresh.HasMethod name →
    index.symbols.get? name = fresh.symbols.get? name

/-! ## Files on the way -/

/-- The index stands between two others: each of its files is as in one of them, and the names that
a file defines are symbols. -/
structure Between (before fresh index : Index) (extra : Count → Int) : Prop where
  consistent : index.Consistent extra
  version : ∀ {path o}, index.files.get? path = some o → (path, o) ∈ versions before fresh
  complete : index.Complete

variable {before fresh index : Index} {extra more : Count → Int} {root name path : String}
  {settings : Settings} {tree : FileTree}

section

variable (hfree : CollisionFree before fresh)
  (hqualified : ∀ e ∈ versions before fresh, AllQualified e.2.functions)
  (h : Between before fresh index extra)

include hfree hqualified h

/-- A name that some version of a file defines can belong to that file only. -/
theorem Between.owner_eq {owner : String} (ho : (path, o) ∈ versions before fresh)
    (hname : name ∈ o.ownNames) (hown : index.symbols.get? name = some owner) : owner = path := by
  obtain ⟨p, hp, hupdated⟩ := h.consistent.owner hown
  by_contra hne
  have hapart := hfree.apart _ ho _ (h.version hp) (Ne.symm hne) name hname
  rcases (Outline.mem_updatedNames_iff (hqualified _ (h.version hp))).1 hupdated with
    hdefined | hmethod
  · exact hapart.1 hdefined
  · exact hapart.2 hmethod

/-- Every name that a file of the index defines belongs to the file. -/
theorem Between.get?_symbols (ho : index.files.get? path = some o) (hname : name ∈ o.ownNames) :
    index.symbols.get? name = some path := by
  obtain ⟨owner, hown⟩ := has_iff_exists.1 (h.complete path o ho name hname)
  rwa [h.owner_eq hfree hqualified (h.version ho) hname hown] at hown

omit hfree in
/-- A name that no file of the index has is no symbol. -/
theorem Between.get?_symbols_eq_none (hdefines : ¬ index.Defines name)
    (hmethod : ¬ index.HasMethod name) :
    index.symbols.get? name = none := by
  rw [Option.eq_none_iff_forall_ne_some]
  intro owner hown
  obtain ⟨o, ho, hupdated⟩ := h.consistent.owner hown
  rcases (Outline.mem_updatedNames_iff (hqualified _ (h.version ho))).1 hupdated with
    hdefined | hhas
  · exact hdefines ⟨(owner, o), mem_of_get? ho, hdefined⟩
  · exact hmethod ⟨(owner, o), mem_of_get? ho, hhas⟩

theorem Between.not_forsakes (path : String) (kept : List String) : ¬ index.Forsakes path kept := by
  rintro ⟨name, hown, -, other, o, hne, ho, hname⟩
  rw [h.get?_symbols hfree hqualified ho hname] at hown
  exact hne (Option.some.inj hown)

end

/-- A new index stands between itself and any other. -/
theorem between_ofTree (h : ofTree root settings tree = .ok index)
    (hside : index = before ∨ index = fresh) :
    Between before fresh index fun c => c.sum (foundAgain settings tree) := by
  obtain ⟨-, -, -, rfl⟩ := ofTree_eq_ok h
  exact
    { consistent := consistent_ofOutlines (single_taken settings tree)
      version := fun {path o} ho => by
        rcases hside with rfl | rfl
        · exact List.mem_append_left _ (mem_of_get? ho)
        · exact List.mem_append_right _ (mem_of_get? ho)
      complete := complete_ofOutlines root _ }

theorem rebuild_ofTree (h : ofTree root settings tree = .ok index) : index.rebuild = index := by
  obtain ⟨-, -, -, rfl⟩ := ofTree_eq_ok h
  rfl

/-! ## Following the files -/

/-- The index with one file as it is in the fresh index. -/
def settle (fresh index : Index) (path : String) : Index :=
  match fresh.files.get? path with
  | some o => (index.releaseFile path).enter path o
  | none => (index.releaseFile path).dropFile path

theorem get?_files_settle (fresh index : Index) (path key : String) :
    (settle fresh index path).files.get? key =
      if key = path then fresh.files.get? key else index.files.get? key := by
  unfold settle
  cases hfile : fresh.files.get? path with
  | some o =>
    simp only [enter, files_releaseFile, get?_put]
    by_cases hkey : key = path
    · rw [if_pos hkey, if_pos hkey, hkey, hfile]
    · rw [if_neg hkey, if_neg hkey]
  | none =>
    simp only [files_dropFile, files_releaseFile, get?_erase]
    by_cases hkey : key = path
    · rw [if_pos hkey, if_pos hkey, hkey, hfile]
    · rw [if_neg hkey, if_neg hkey]

@[simp] theorem root_settle (fresh index : Index) (path : String) :
    (settle fresh index path).root = index.root := by
  unfold settle
  split
  · exact root_releaseFile index path
  · simp

theorem get?_files_foldl_settle (fresh index : Index) (paths : List String) (key : String) :
    (paths.foldl (settle fresh) index).files.get? key =
      if key ∈ paths then fresh.files.get? key else index.files.get? key := by
  induction paths generalizing index with
  | nil => simp
  | cons path paths ih =>
    rw [List.foldl_cons, ih, get?_files_settle]
    by_cases hkey : key = path <;> simp [hkey]

section

variable (hfree : CollisionFree before fresh)
  (hqualified : ∀ e ∈ versions before fresh, AllQualified e.2.functions)
  (h : Between before fresh index extra)

include hfree hqualified h

/-- Following one file keeps the index between the two. -/
theorem Between.settle (path : String) :
    Between before fresh (settle fresh index path) extra where
  consistent := by
    unfold Index.settle
    split
    · exact h.consistent.releaseFile_enter path _
    · exact h.consistent.releaseFile_dropFile path
  version {key o} ho := by
    rw [get?_files_settle] at ho
    split at ho
    · exact List.mem_append_right _ (mem_of_get? ho)
    · exact h.version ho
  complete := by
    unfold Index.settle
    split
    · exact (complete_enter_iff h.consistent h.complete path _).2
        (h.not_forsakes hfree hqualified path _)
    · exact (complete_dropFile_iff h.consistent h.complete path).2
        (h.not_forsakes hfree hqualified path _)

theorem Between.foldl_settle (paths : List String) :
    Between before fresh (paths.foldl (Index.settle fresh) index) extra := by
  induction paths generalizing index with
  | nil => exact h
  | cons path paths ih => exact ih (h.settle hfree hqualified path)

/-- Two indexes between the same agree on the symbols of the files they share. -/
theorem Between.get?_symbols_eq (hfresh : Between before fresh fresh more)
    (hperm : index.files.Perm fresh.files) {name : String}
    (hname : fresh.Defines name ∨ ¬ fresh.HasMethod name) :
    index.symbols.get? name = fresh.symbols.get? name := by
  by_cases hdefines : fresh.Defines name
  · obtain ⟨⟨path, o⟩, hmem, hown⟩ := hdefines
    have ho := get?_of_mem h.consistent.nodup_files (hperm.mem_iff.2 hmem)
    have ho' := get?_of_mem hfresh.consistent.nodup_files hmem
    rw [h.get?_symbols hfree hqualified ho hown, hfresh.get?_symbols hfree hqualified ho' hown]
  -- A name that is no symbol of the fresh index is none here either.
  · have hmethod := hname.resolve_left hdefines
    have hdefines' : ¬ index.Defines name := by
      simpa only [Defines, hperm.mem_iff] using hdefines
    have hmethod' : ¬ index.HasMethod name := by
      simpa only [HasMethod, hperm.mem_iff] using hmethod
    rw [hfresh.get?_symbols_eq_none hqualified hdefines hmethod,
      h.get?_symbols_eq_none hqualified hdefines' hmethod']

/-- An index with all files of the fresh one agrees with it once its graphs are made anew. -/
theorem Between.agrees_rebuild (hfresh : Between before fresh fresh more)
    (hfiles : ∀ path, index.files.get? path = fresh.files.get? path)
    (hgraphs : fresh.rebuild = fresh)
    (hgo : ∀ path ∈ fresh.files.keys, Text.endsWith ".go".toList path.toList = false) :
    index.rebuild.Agrees fresh := by
  have hperm : index.files.Perm fresh.files :=
    perm_of_get?_eq h.consistent.nodup_files hfresh.consistent.nodup_files hfiles
  have himports : index.rebuild.imports.Same fresh.rebuild.imports :=
    Graph.same_ofImports h.consistent.nodup_files hfresh.consistent.nodup_files hfiles hgo
  have hdependencies : index.rebuild.dependencies.Same fresh.rebuild.dependencies := by
    refine Graph.same_ofDependencies (fun e => hperm.mem_iff) fun e he => ?_
    refine Outline.dependences_congr fun name hname => ?_
    -- The bare name of a method that the file refers to is defined by some file.
    have hknown : fresh.Defines name ∨ ¬ fresh.HasMethod name := by
      by_contra hnone
      push Not at hnone
      obtain ⟨hundefined, d, hd, hmethod⟩ := hnone
      exact hundefined (hfree.referred d (List.mem_append_right _ hd) e
        (List.mem_append_right _ he) name hname hmethod)
    rw [has_eq_isSome, has_eq_isSome,
      h.get?_symbols_eq hfree hqualified hfresh hperm hknown]
  have hnodup := Graph.nodup_keys_ofImports h.consistent.nodup_files
  have hnodup' := Graph.nodup_keys_ofImports hfresh.consistent.nodup_files
  rw [← hgraphs]
  exact
    { files := hfiles
      fileTotal := by
        show index.totals.files = fresh.totals.files
        rw [h.consistent.fileTotal, hfresh.consistent.fileTotal, hperm.length_eq]
      imports := himports
      importers := himports.transpose hnodup hnodup'
      dependencies := hdependencies
      dependents := hdependencies.transpose (Graph.nodup_keys_ofDependencies _ _)
        (Graph.nodup_keys_ofDependencies _ _)
      symbols := fun name hname => h.get?_symbols_eq hfree hqualified hfresh hperm hname }

end

/-- Two indexes with the same files count the same, each with its own extra. -/
theorem Between.total_add_extra (h : Between before fresh index extra)
    (hfresh : Between before fresh fresh more)
    (hfiles : ∀ path, index.files.get? path = fresh.files.get? path) (c : Count) :
    c.total index.totals + more c = c.total fresh.totals + extra c := by
  have hperm :=
    perm_of_get?_eq h.consistent.nodup_files hfresh.consistent.nodup_files hfiles
  have hcount := h.consistent.count c
  have hcountFresh := hfresh.consistent.count c
  rw [Count.sum_perm c hperm] at hcount
  omega

end Index

/-! ## The run -/

namespace Project

variable {paths : List String}

/-- The turn by which the index follows a file: the file is entered again, with the graphs left for
later, or taken out if it is not in the fresh index. -/
def following (fresh : Index) (new : FileTree) (path : String) : Turn :=
  ⟨new, if fresh.files.has path then .reindex path true else .remove path⟩

variable {root path : String} {settings : Settings} {old new : FileTree}
  {before fresh index : Index}

section

variable (hroot : Path.IsRoot root) (hnew : new.Proper)
  (hfresh : Index.ofTree root settings new = .ok fresh)

include hroot hnew hfresh

theorem perform_following (hindex : index.root = root) (hpath : Path.Proper path) :
    perform ⟨root, settings, some index⟩ (following fresh new path) =
      (⟨root, settings, some (Index.settle fresh index path)⟩, none) := by
  subst hindex
  unfold following Index.settle
  cases hfile : fresh.files.get? path with
  | none =>
    have hhas : fresh.files.has path = false := has_eq_false_iff.2 hfile
    simp [perform, hhas, remove, change, Index.remove_of_key (Project.key_of_proper hroot hpath)]
  | some o =>
    have hhas : fresh.files.has path = true := has_iff_exists.2 ⟨o, hfile⟩
    obtain ⟨bytes, hbytes, ho⟩ := Index.file_of_ofTree hfresh hfile
    simp [perform, hhas, reindex, Index.reindex_of_present hroot hnew hpath hbytes ho]

theorem after?_following (hindex : index.root = root) (hpaths : ∀ path ∈ paths, Path.Proper path) :
    after? ⟨root, settings, some index⟩ (paths.map (following fresh new)) =
      some ⟨root, settings, some (paths.foldl (Index.settle fresh) index)⟩ := by
  induction paths generalizing index with
  | nil => rfl
  | cons path paths ih =>
    rw [List.map_cons, after?,
      perform_following hroot hnew hfresh hindex (hpaths path List.mem_cons_self)]
    exact ih (by simpa using hindex) (List.forall_mem_cons.1 hpaths).2

end

/-- A file that is in both indexes with the same bytes, or in neither, has the same outline. -/
theorem get?_files_of_unchanged (hbefore : Index.ofTree root settings old = .ok before)
    (hfresh : Index.ofTree root settings new = .ok fresh)
    (hkeys : path ∈ before.files.keys ↔ path ∈ fresh.files.keys)
    (hbytes : path ∈ fresh.files.keys → old.files.get? path = new.files.get? path) :
    before.files.get? path = fresh.files.get? path := by
  by_cases hmem : path ∈ fresh.files.keys
  · obtain ⟨o, ho⟩ := mem_keys_iff.1 (hkeys.2 hmem)
    obtain ⟨p, hp⟩ := mem_keys_iff.1 hmem
    obtain ⟨b, hb, hob⟩ := Index.file_of_ofTree hbefore ho
    obtain ⟨c, hc, hpc⟩ := Index.file_of_ofTree hfresh hp
    have hsame : b = c := Option.some.inj (hb.symm.trans ((hbytes hmem).trans hc))
    subst hsame
    rw [ho, hp, Except.ok.inj (hob.symm.trans hpc)]
  · rw [get?_eq_none_iff.2 hmem, get?_eq_none_iff.2 fun h => hmem (hkeys.1 h)]

theorem proper_of_mem_keys {tree : FileTree} (htree : tree.Proper)
    (h : Index.ofTree root settings tree = .ok index) (hmem : path ∈ index.files.keys) :
    Path.Proper path := by
  obtain ⟨o, ho⟩ := mem_keys_iff.1 hmem
  obtain ⟨bytes, hbytes, -⟩ := Index.file_of_ofTree h ho
  exact htree.files path (mem_keys_iff.2 ⟨bytes, hbytes⟩)

section

variable (hbefore : Index.ofTree root settings old = .ok before)
  (hfresh : Index.ofTree root settings new = .ok fresh)

include hbefore hfresh

theorem allQualified_versions :
    ∀ e ∈ Index.versions before fresh, AllQualified e.2.functions := by
  have hqualified : ∀ {tree : FileTree} {index : Index},
      Index.ofTree root settings tree = .ok index → ∀ e ∈ index.files,
        AllQualified e.2.functions := by
    intro tree index h e he
    have hnodup : index.files.keys.Nodup := by
      obtain ⟨-, -, -, rfl⟩ := Index.ofTree_eq_ok h
      exact nodup_keys_ofPairs _
    obtain ⟨bytes, -, hread⟩ := Index.file_of_ofTree h (get?_of_mem hnodup he)
    exact (Outline.coherent_ofText hread).allQualified
  intro e he
  exact (List.mem_append.1 he).elim (hqualified hbefore e) (hqualified hfresh e)

/-- All files are as in the fresh index once the index has followed those that differ. -/
theorem get?_files_followed
    (hall : ∀ path, path ∈ before.files.keys ∨ path ∈ fresh.files.keys →
      path ∉ before.files.keys ∨ path ∉ fresh.files.keys ∨
        old.files.get? path ≠ new.files.get? path → path ∈ paths) (path : String) :
    (paths.foldl (Index.settle fresh) before).files.get? path = fresh.files.get? path := by
  rw [Index.get?_files_foldl_settle]
  split
  · rfl
  · rename_i hskip
    have hkept := fun hsome hchange => hskip (hall path hsome hchange)
    refine get?_files_of_unchanged hbefore hfresh ?_ ?_
    · by_contra hdiffer
      tauto
    · intro hmem
      by_contra hdiffer
      exact hkept (Or.inr hmem) (Or.inr (Or.inr hdiffer))

end

/-- A class and a function, each in a file. -/
def classAndFunction : FileTree :=
  .ofTexts [("a.py", "class A:\n    def run(self):\n        pass\n"),
    ("b.py", "def g():\n    pass\n")]

/-- The class uses a function of a new file, and the other file is gone. -/
def classAndHelper : FileTree :=
  .ofTexts [("a.py", "from c import h\nclass A:\n    def run(self):\n        h()\n"),
    ("c.py", "def h():\n    pass\n")]

/-- A file that two globs lead to. -/
def oneFunction : FileTree := .ofTexts [("a.py", "def f():\n    pass\n"), ("d/b.py", "x = 1\n")]

/-- The same file with a second function. -/
def twoFunctions : FileTree :=
  .ofTexts [("a.py", "def f():\n    pass\n\n\ndef g():\n    pass\n"), ("d/b.py", "x = 1\n")]

end Project

end SourceAtlas
