import SourceAtlas.Proofs.Counts
import SourceAtlas.Proofs.FileTrees

/-!
# What an index keeps in step

`Index.Consistent` ties the parts of an index together: the totals count the files of the table and,
besides, a fixed `extra`; every symbol belongs to a file of the table that has the name. Making an
index establishes it, with what was found again as the extra (`consistent_ofOutlines`). Every update
keeps it, with the same extra (`Consistent.reindex`, `Consistent.remove`, `Consistent.rebuild`).
What it says of the totals is an invariant of its own, `Index.Tallied`.

`reindex_cases` says once what entering a file again can do; everything about it is derived from
there.
-/

set_option autoImplicit false

namespace SourceAtlas

open Assoc Outline Project

/-- The outline of the bytes of a file. -/
def Outline.ofBytes (bytes : List UInt8) (key : String) : Except OutlineError Outline :=
  ofText (String.ofList (Text.ofBytes bytes)) key none

/-- The outline of a file, if it is there and has one. -/
def Outline.ofFile? (path : String) (file : Option (List UInt8)) : Option Outline :=
  file.bind fun bytes => (ofBytes bytes path).toOption

namespace Index

variable {settings : Settings} {skipGraphs : Bool}

/-! ## Making an index -/

variable {tree : FileTree}

/-- The outlines of discovered files: their paths in order, each with the outline of its bytes. -/
theorem outlines_eq_ok {found : List Settings.Discovered} {pairs : List (String × Outline)}
    (h : outlines tree found = .ok pairs) :
    pairs.map Prod.fst = found.map Settings.Discovered.key ∧
      ∀ e ∈ pairs, ofBytes ((tree.files.get? e.1).getD []) e.1 = .ok e.2 := by
  rw [outlines, mapM_eq_ok_iff] at h
  induction h with
  | nil => simp
  | @cons d e found pairs hd _ ih =>
    have he : e.1 = d.key ∧ ofBytes ((tree.files.get? e.1).getD []) e.1 = .ok e.2 := by
      cases ho : ofBytes ((tree.files.get? d.key).getD []) d.key with
      | error fault =>
        rw [ofBytes] at ho
        simp [ho, bind, Except.bind] at hd
      | ok o =>
        have hread := ho
        rw [ofBytes] at ho
        simp only [ho, bind, pure, Except.bind, Except.pure, Except.ok.injEq] at hd
        subst hd
        exact ⟨rfl, hread⟩
    refine ⟨by simp [he.1, ih.1], ?_⟩
    rintro f (_ | ⟨_, hf⟩)
    · exact he.2
    · exact ih.2 f hf

/-- The outlines that the settings take from a tree, in the order of discovery. -/
def taken (settings : Settings) (tree : FileTree) : List (String × Outline) :=
  match settings.discover tree with
  | .ok found => (outlines tree found).toOption.getD []
  | .error _ => []

/-- What is known when an index was made. -/
theorem ofTree_eq_ok {root : String} {index : Index} (h : ofTree root settings tree = .ok index) :
    ∃ found, settings.discover tree = .ok found ∧ outlines tree found = .ok (taken settings tree) ∧
      index = ofOutlines root (taken settings tree) := by
  simp only [ofTree, bind, pure, Except.bind, Except.pure, Except.mapError] at h
  cases hfound : settings.discover tree with
  | error e =>
    rw [hfound] at h
    cases h
  | ok found =>
    rw [hfound] at h
    cases hpairs : outlines tree found with
    | error e =>
      simp only [hpairs] at h
      cases h
    | ok pairs =>
      simp only [hpairs] at h
      have htaken : taken settings tree = pairs := by simp [taken, hfound, hpairs, Except.toOption]
      cases h
      exact ⟨found, rfl, by rw [htaken, hpairs], by rw [htaken]⟩

/-- Each outline that was taken is the outline of the bytes of its file. -/
theorem ofBytes_of_mem_taken {key : String} {o : Outline} (h : (key, o) ∈ taken settings tree) :
    ofBytes ((tree.files.get? key).getD []) key = .ok o := by
  unfold taken at h
  cases hfound : settings.discover tree with
  | error e => simp [hfound] at h
  | ok found =>
    cases hpairs : outlines tree found with
    | error e => simp [hfound, hpairs, Except.toOption] at h
    | ok pairs =>
      simp only [hfound, hpairs, Except.toOption, Option.getD_some] at h
      exact (outlines_eq_ok hpairs).2 (key, o) h

/-- A file that was found twice has one outline. -/
theorem single_taken (settings : Settings) (tree : FileTree) :
    Assoc.Single (taken settings tree) := by
  intro key v w hv hw
  have hv' := ofBytes_of_mem_taken hv
  rw [ofBytes_of_mem_taken hw] at hv'
  exact (Except.ok.inj hv').symm

@[simp] theorem files_ofOutlines (root : String) (found : List (String × Outline)) :
    (ofOutlines root found).files = ofPairs found := rfl

@[simp] theorem symbols_ofOutlines (root : String) (found : List (String × Outline)) :
    (ofOutlines root found).symbols = Symbols.ofFiles (ofPairs found) := rfl

@[simp] theorem totals_rebuild (index : Index) : index.rebuild.totals = index.totals := rfl

/-! ## Entering and taking out a file -/

@[simp] theorem files_releaseFile (index : Index) (path : String) :
    (index.releaseFile path).files = index.files := by
  unfold releaseFile
  split <;> rfl

@[simp] theorem root_releaseFile (index : Index) (path : String) :
    (index.releaseFile path).root = index.root := by
  unfold releaseFile
  split <;> rfl

@[simp] theorem root_enter (index : Index) (path : String) (o : Outline) :
    (index.enter path o).root = index.root := rfl

@[simp] theorem fileTotal_releaseFile (index : Index) (path : String) :
    (index.releaseFile path).totals.files = index.totals.files := by
  unfold releaseFile
  split <;> rfl

@[simp] theorem files_dropFile (index : Index) (path : String) :
    (index.dropFile path).files = index.files.erase path := by
  unfold dropFile
  cases h : index.files.has path with
  | true => rfl
  | false =>
    have hpath : path ∉ index.files.keys := get?_eq_none_iff.1 (has_eq_false_iff.1 h)
    simp [erase_eq_self hpath]

@[simp] theorem symbols_dropFile (index : Index) (path : String) :
    (index.dropFile path).symbols = index.symbols := by
  unfold dropFile
  split <;> rfl

@[simp] theorem root_dropFile (index : Index) (path : String) :
    (index.dropFile path).root = index.root := by
  unfold dropFile
  split <;> rfl

@[simp] theorem count_dropFile (c : Count) (index : Index) (path : String) :
    c.total (index.dropFile path).totals = c.total index.totals := by
  unfold dropFile
  split
  · exact Count.total_with_files c _ _
  · rfl

/-- The outline that an update enters for a path: that of the file it leads to, if that can be
read. -/
def present? (index : Index) (tree : FileTree) (path : String) : Option Outline :=
  (tree.read? index.root.toList (absolute index.root path)).bind fun bytes =>
    (ofBytes bytes (key index.root path)).toOption

/-- What entering a file again can do when nothing fails: the file cannot be read and is taken out,
or its outline is entered, with or without the graphs made anew. -/
theorem reindex_cases {index next : Index} {path : String}
    (h : index.reindex tree path skipGraphs = (next, none)) :
    (index.present? tree path = none ∧
        next = (index.releaseFile (key index.root path)).dropFile
          (key index.root path)) ∨
      ∃ o, index.present? tree path = some o ∧
        let entered := (index.releaseFile (key index.root path)).enter
          (key index.root path) o
        next = if skipGraphs then entered else entered.refresh := by
  simp only [reindex] at h
  -- A null character is the only fault besides those of reading the outline.
  cases hnul : (absolute index.root path).contains '\x00' with
  | true => simp only [hnul, if_true, Prod.mk.injEq, reduceCtorEq, and_false] at h
  | false =>
    simp only [hnul, Bool.false_eq_true, if_false] at h
    cases hread : tree.read? index.root.toList (absolute index.root path) with
    | none =>
      simp only [hread, Prod.mk.injEq, and_true] at h
      exact Or.inl ⟨by simp [present?, hread], h.symm⟩
    | some bytes =>
      simp only [hread] at h
      cases ho : ofBytes bytes (key index.root path) with
      | error e =>
        rw [ofBytes] at ho
        simp [ho] at h
      | ok o =>
        have hpresent : index.present? tree path = some o := by
          simp [present?, hread, ho, Except.toOption]
        rw [ofBytes] at ho
        simp only [ho, Prod.mk.injEq, and_true] at h
        exact Or.inr ⟨o, hpresent, h.symm⟩

section

variable {index : Index} {tree : FileTree} {path : String}
variable {bytes : List UInt8}

theorem remove_of_key (hkey : key index.root path = path) :
    index.remove path = (index.releaseFile path).dropFile path := by
  rw [remove, hkey]

/-- Entering a file that is there. -/
theorem reindex_of_present (hroot : Path.IsRoot index.root) (htree : tree.Proper)
    (hpath : Path.Proper path) (hbytes : tree.files.get? path = some bytes) {o : Outline}
    (ho : ofBytes bytes path = .ok o) (skipGraphs : Bool) :
    index.reindex tree path skipGraphs =
      (if skipGraphs then (index.releaseFile path).enter path o
        else ((index.releaseFile path).enter path o).refresh, none) := by
  rw [ofBytes] at ho
  simp only [reindex, key_of_proper hroot hpath, not_contains_nul hroot hpath,
    FileTree.read?_of_proper htree hroot hpath, hbytes, ho, Bool.false_eq_true, if_false]

/-- Entering a file whose text has no outline. -/
theorem reindex_of_error (hroot : Path.IsRoot index.root) (htree : tree.Proper)
    (hpath : Path.Proper path) (hbytes : tree.files.get? path = some bytes) {e : OutlineError}
    (he : ofBytes bytes path = .error e) (skipGraphs : Bool) :
    index.reindex tree path skipGraphs = (index.releaseFile path, some (.outline e)) := by
  rw [ofBytes] at he
  simp only [reindex, key_of_proper hroot hpath, not_contains_nul hroot hpath,
    FileTree.read?_of_proper htree hroot hpath, hbytes, he, Bool.false_eq_true, if_false]

end

/-! ## The invariant -/

/-- The totals count the files of the table, each of which is entered once, and an extra besides. -/
structure Tallied (index : Index) (extra : Count → Int) : Prop where
  nodup_files : index.files.keys.Nodup
  fileTotal : index.totals.files = index.files.length
  count : ∀ c : Count, c.total index.totals = c.sum index.files + extra c

namespace Tallied

variable {index : Index} {extra : Count → Int}

/-- The counts of a released index are those of the other files. -/
theorem count_releaseFile (h : index.Tallied extra) (path : String) (c : Count) :
    c.total (index.releaseFile path).totals = c.sum (index.files.erase path) + extra c := by
  have hcount := h.count c
  rw [Count.sum_erase c h.nodup_files]
  unfold releaseFile
  cases hfile : index.files.get? path with
  | none =>
    rw [Option.elim_none]
    show c.total index.totals = _
    omega
  | some o =>
    rw [Option.elim_some]
    show c.total (index.totals.subtract o) = _
    rw [Count.total_subtract]
    omega

theorem releaseFile_dropFile (h : index.Tallied extra) (path : String) :
    ((index.releaseFile path).dropFile path).Tallied extra where
  nodup_files := by simpa using nodup_keys_erase h.nodup_files path
  fileTotal := by
    unfold dropFile
    rw [files_releaseFile]
    cases hhas : index.files.has path with
    | true => rfl
    | false => simpa using h.fileTotal
  count c := by
    rw [count_dropFile, h.count_releaseFile, files_dropFile, files_releaseFile]

theorem releaseFile_enter (h : index.Tallied extra) (path : String) (o : Outline) :
    ((index.releaseFile path).enter path o).Tallied extra where
  nodup_files := by simpa [enter] using nodup_keys_put h.nodup_files path o
  fileTotal := rfl
  count c := by
    have hcount := h.count_releaseFile path c
    simp only [enter, Count.total_with_files, Count.total_add, files_releaseFile,
      Count.sum_put c h.nodup_files]
    omega

end Tallied

/-- The parts of an index are in step: names are entered once, the totals count the files of the
table and an extra besides, and each symbol belongs to a file that has the name. -/
structure Consistent (index : Index) (extra : Count → Int) : Prop extends index.Tallied extra where
  nodup_symbols : index.symbols.keys.Nodup
  owner : ∀ {name path : String}, index.symbols.get? name = some path →
    ∃ o, index.files.get? path = some o ∧ name ∈ o.updatedNames

/-- A new index is consistent; its extra is what was found again. -/
theorem consistent_ofOutlines {root : String} {found : List (String × Outline)}
    (h : Assoc.Single found) :
    (ofOutlines root found).Consistent fun c => c.sum (again [] found) where
  nodup_files := nodup_keys_ofPairs found
  nodup_symbols := Symbols.nodup_keys_ofFiles (ofPairs found)
  fileTotal := rfl
  count c := by
    have hsum := Count.sum_ofPairs c h
    rw [← Count.total_ofFiles] at hsum
    show c.total { Totals.ofFiles found with files := _ } = c.sum (ofPairs found) + _
    rw [Count.total_with_files, hsum]
  owner {name path} hown := by
    obtain ⟨o, hmem, hname⟩ := Symbols.exists_of_get?_ofFiles hown
    exact ⟨o, get?_of_mem (nodup_keys_ofPairs found) hmem,
      updatedNames_of_definedNames hname⟩

namespace Consistent

variable {index : Index} {extra : Count → Int}

section

variable (h : index.Consistent extra)
include h

/-- A released file owns no symbol; all other owners stay. -/
theorem get?_symbols_releaseFile (path name : String) :
    (index.releaseFile path).symbols.get? name =
      if index.symbols.get? name = some path then none else index.symbols.get? name := by
  unfold releaseFile
  cases hfile : index.files.get? path with
  -- A file that the index does not have owns nothing.
  | none =>
    have hother : index.symbols.get? name ≠ some path := by
      intro hown
      obtain ⟨o, ho, -⟩ := h.owner hown
      rw [hfile] at ho
      cases ho
    simp [hother]
  | some o =>
    simp only [release]
    rw [Symbols.get?_release h.nodup_symbols]
    by_cases hown : index.symbols.get? name = some path
    -- What the file owns is among the names of its outline, and so is given up.
    · obtain ⟨p, hp, hname⟩ := h.owner hown
      rw [hfile] at hp
      cases hp
      simp [hown, hname]
    · simp [hown]

theorem nodup_symbols_releaseFile (path : String) :
    (index.releaseFile path).symbols.keys.Nodup := by
  unfold releaseFile
  split
  · exact Symbols.nodup_keys_release h.nodup_symbols _ _
  · exact h.nodup_symbols

/-- Taking a file out keeps the rest in step. -/
theorem releaseFile_dropFile (path : String) :
    ((index.releaseFile path).dropFile path).Consistent extra where
  toTallied := h.toTallied.releaseFile_dropFile path
  nodup_symbols := by simpa using h.nodup_symbols_releaseFile path
  owner {name owner} hown := by
    rw [symbols_dropFile, h.get?_symbols_releaseFile] at hown
    split at hown
    · cases hown
    · rename_i hother
      obtain ⟨o, ho, hname⟩ := h.owner hown
      have hne : owner ≠ path := by
        rintro rfl
        exact hother hown
      refine ⟨o, ?_, hname⟩
      rw [files_dropFile, files_releaseFile, get?_erase, if_neg hne, ho]

/-- The owner of a name after an outline was entered for a file: another file that owned it before,
or the file itself if it has the name and no other file owned it. -/
theorem get?_symbols_enter (path : String) (o : Outline) (name owner : String) :
    ((index.releaseFile path).enter path o).symbols.get? name = some owner ↔
      owner ≠ path ∧ index.symbols.get? name = some owner ∨
        owner = path ∧ name ∈ o.updatedNames ∧
          (index.symbols.get? name = some path ∨ index.symbols.get? name = none) := by
  simp only [enter, Symbols.get?_enter, h.get?_symbols_releaseFile]
  -- By the owner before: none, the file itself, or another file.
  cases hold : index.symbols.get? name with
  | none =>
    by_cases hname : name ∈ o.updatedNames
    · simp [hname, eq_comm]
    · simp [hname]
  | some first =>
    by_cases hfirst : first = path
    · subst hfirst
      by_cases hname : name ∈ o.updatedNames
      · by_cases howner : owner = first <;> simp [hname, howner, eq_comm]
      · by_cases howner : owner = first <;> simp [hname, howner, eq_comm]
    · by_cases howner : owner = path
      · subst howner
        simp [hfirst]
      · simp [hfirst, howner]

/-- Entering an outline for a released file keeps all in step. -/
theorem releaseFile_enter (path : String) (o : Outline) :
    ((index.releaseFile path).enter path o).Consistent extra where
  toTallied := h.toTallied.releaseFile_enter path o
  nodup_symbols := Symbols.nodup_keys_enter (h.nodup_symbols_releaseFile path) path o.updatedNames
  owner {name owner} hown := by
    rw [h.get?_symbols_enter] at hown
    simp only [enter, files_releaseFile, get?_put]
    rcases hown with ⟨hne, hold⟩ | ⟨rfl, hname, -⟩
    · obtain ⟨p, hp, hname⟩ := h.owner hold
      exact ⟨p, by rw [if_neg hne, hp], hname⟩
    · exact ⟨o, by simp, hname⟩

/-- Making graphs anew changes neither files nor symbols nor totals. -/
theorem refresh : index.refresh.Consistent extra where
  nodup_files := h.nodup_files
  nodup_symbols := h.nodup_symbols
  fileTotal := h.fileTotal
  count := h.count
  owner := h.owner

theorem rebuild : index.rebuild.Consistent extra where
  nodup_files := h.nodup_files
  nodup_symbols := h.nodup_symbols
  fileTotal := h.fileTotal
  count := h.count
  owner := h.owner

theorem remove (path : String) :
    (index.remove path).Consistent extra :=
  h.releaseFile_dropFile (key index.root path)

theorem reindex {tree : FileTree} {path : String} {next : Index}
    (hstep : index.reindex tree path skipGraphs = (next, none)) :
    next.Consistent extra := by
  rcases reindex_cases hstep with ⟨-, rfl⟩ | ⟨o, -, rfl⟩
  · exact h.releaseFile_dropFile _
  · split
    · exact h.releaseFile_enter _ o
    · exact (h.releaseFile_enter _ o).refresh

end

end Consistent

end Index

end SourceAtlas
