import SourceAtlas.Proofs.Discovery

/-!
# What the usual settings find

The usual settings name files twice: as globs for a search, and as wildcards for the path of a file
that an update takes. In a proper tree a search finds every file that the wildcards fit, provided it
is not left out and not too large (`get?_files_usual`). Nothing but a text without an outline can
make the search fail.
-/

set_option autoImplicit false

namespace SourceAtlas

open Settings

/-! ## Wildcards for endings -/

namespace Wildcard

theorem mem_ends {t cs : List Char} : t ∈ ends cs ↔ t <:+ cs := by
  induction cs with
  | nil => simp [ends]
  | cons c cs ih => rw [ends, List.mem_cons, ih, List.suffix_cons_iff]

/-- Plain characters fit themselves only. -/
theorem fits_chars {text cs : List Char} :
    fits (text.map WildPart.char) cs = true ↔ cs = text := by
  induction text generalizing cs with
  | nil => simp [fits]
  | cons t text ih =>
    cases cs with
    | nil => simp [fits]
    | cons c cs => simp [fits, WildPart.fitsChar, ih]

/-- An asterisk with plain characters behind it fits the texts with that ending. -/
theorem fits_ending {ending cs : List Char} :
    fits (.star :: ending.map WildPart.char) cs = true ↔ ending <:+ cs := by
  simp [fits, mem_ends, fits_chars]

/-- With a folder in front, a slash comes before the ending. -/
theorem suffix_of_fits_in_folder {ending cs : List Char}
    (h : fits (.star :: .char '/' :: .star :: ending.map WildPart.char) cs = true) :
    ∃ rest, '/' :: rest <:+ cs ∧ ending <:+ rest := by
  simp only [fits, List.any_eq_true, mem_ends] at h
  obtain ⟨tail, htail, hfits⟩ := h
  cases tail with
  | nil => cases hfits
  | cons c rest =>
    simp only [fits, WildPart.fitsChar, Bool.and_eq_true, beq_iff_eq, List.any_eq_true,
      mem_ends, fits_chars] at hfits
    obtain ⟨rfl, ending', hending, rfl⟩ := hfits
    exact ⟨rest, htail, hending⟩

end Wildcard

namespace Settings

/-- The ending that a usual glob asks for. -/
def usualEnding (pattern : String) : List Char := pattern.toList.drop 4

theorem usualIncludes_spec : ∀ pattern ∈ usualIncludes,
    '/' ∉ usualEnding pattern ∧
      Glob.ofText pattern.toList =
        .ok [.folders, .wild (.star :: (usualEnding pattern).map WildPart.char)] ∧
      Wildcard.ofText pattern.toList =
        .star :: .char '/' :: .star :: (usualEnding pattern).map WildPart.char := by
  decide +kernel

end Settings

/-! ## Files by folder and name -/

namespace FileTree

/-- A file lies in a folder of the tree, or in the root. -/
theorem exists_folder {tree : FileTree} (htree : tree.Proper) {path : String}
    (hpath : path ∈ tree.files.keys) :
    ∃ folder name, folder ∈ tree.foldersFrom "" ∧ childName? folder path = some name ∧
      child folder name = path ∧
      (name.toList = path.toList ∨ '/' :: name.toList <:+ path.toList) := by
  by_cases hslash : '/' ∈ path.toList
  · obtain ⟨front, last, heq, hlast, hfront, hsteps⟩ :=
      (htree.files path hpath).exists_last_step hslash
    have hfolder : String.ofList front ∈ tree.folders := by
      refine htree.parents path hpath _ ?_
      have hpos := List.length_pos_iff.2 (Path.steps_ne_nil front)
      refine List.mem_map.2 ⟨(Path.steps front).length - 1, by simp [hsteps]; omega, ?_⟩
      rw [hsteps, Nat.sub_add_cancel hpos, List.take_left, Path.ofSteps_steps]
    refine ⟨String.ofList front, String.ofList last, ?_, ?_, ?_, Or.inr ?_⟩
    · simp [foldersFrom, hfolder]
    · simp [childName?, heq, Text.cutLast?_append hlast]
    · rw [← String.toList_inj, heq]
      simp [child, String.isEmpty_iff, ← String.toList_eq_nil_iff, hfront]
    · rw [heq, String.toList_ofList]
      exact List.suffix_append front _
  · refine ⟨"", path, by simp [foldersFrom], ?_, by simp [child], Or.inl rfl⟩
    simp [childName?, Text.cutLast?_of_not_mem hslash]

end FileTree

/-- An ending without a slash that a path has is an ending of its last step. -/
theorem Path.suffix_name {ending name path : List Char} (hending : ending <:+ path)
    (hslash : '/' ∉ ending) (hname : name = path ∨ '/' :: name <:+ path) : ending <:+ name := by
  rcases hname with rfl | hname
  · exact hending
  rcases List.suffix_or_suffix_of_suffix hending hname with h | h
  · rcases List.suffix_cons_iff.1 h with rfl | h
    · exact absurd List.mem_cons_self hslash
    · exact h
  · exact absurd (h.subset List.mem_cons_self) hslash

/-- A glob for an ending in any folder leads to every file with that ending. -/
theorem Glob.exists_spot_of_ending {tree : FileTree} (htree : tree.Proper) {path : String}
    (hpath : path ∈ tree.files.keys) {ending : List Char} (hslash : '/' ∉ ending)
    (hending : ending <:+ path.toList) :
    ∃ spot ∈ select tree [.folders, .wild (.star :: ending.map WildPart.char)] ⟨"", []⟩,
      spot.path = path := by
  obtain ⟨folder, name, hfolder, hchild, hjoin, hname⟩ := FileTree.exists_folder htree hpath
  have hentry : (name, false) ∈ tree.entries folder :=
    List.mem_append_right _ (List.mem_filterMap.2 ⟨path, hpath, by rw [hchild]; rfl⟩)
  have hfits := Wildcard.fits_ending.2 (Path.suffix_name hending hslash hname)
  refine ⟨Spot.enter ⟨folder, [] ++ stepsBelow "" folder⟩ name, ?_, hjoin⟩
  simp only [select, List.mem_flatMap, List.mem_filter]
  exact ⟨folder, hfolder, (name, false), ⟨hentry, by simp [hfits]⟩, List.mem_singleton.2 rfl⟩

/-! ## The index by the usual settings -/

/-- Every file of the tree has an outline. -/
def FileTree.Readable (tree : FileTree) : Prop :=
  ∀ path bytes, tree.files.get? path = some bytes → ∃ o, Outline.ofBytes bytes path = .ok o

theorem FileTree.readable_of_forall {tree : FileTree}
    (h : ∀ e ∈ tree.files, (Outline.ofBytes e.2 e.1).isOk = true) : tree.Readable := by
  intro path bytes hbytes
  have hok := h _ (Assoc.mem_of_get? hbytes)
  cases hread : Outline.ofBytes bytes path with
  | ok o => exact ⟨o, rfl⟩
  | error e => simp [hread, Except.isOk, Except.toBool] at hok

namespace Settings

variable {tree : FileTree}

theorem exists_discover (tree : FileTree) : ∃ found, usual.discover tree = .ok found := by
  rw [exists_discover_iff]
  intro pattern hpattern
  obtain ⟨-, hglob, -⟩ := usualIncludes_spec pattern hpattern
  exact ⟨_, hglob⟩

/-- A file that the usual wildcards fit is found, if the settings take it. -/
theorem mem_discover_usual (htree : tree.Proper) {found : List Discovered}
    (h : usual.discover tree = .ok found) {path : String} (hincluded : usual.isIncluded path = true)
    (htakes : usual.Takes tree path) : path ∈ found.map Discovered.key := by
  obtain ⟨-, bytes, hbytes, -⟩ := id htakes
  obtain ⟨pattern, hpattern, hfits⟩ := List.any_eq_true.1 hincluded
  obtain ⟨hslash, hglob, hwild⟩ := usualIncludes_spec pattern hpattern
  rw [hwild] at hfits
  obtain ⟨rest, hrest, hending⟩ := Wildcard.suffix_of_fits_in_folder hfits
  have hsuffix := hending.trans ((List.suffix_cons '/' rest).trans hrest)
  obtain ⟨spot, hspot, rfl⟩ := Glob.exists_spot_of_ending htree
    (Assoc.mem_keys_iff.2 ⟨bytes, hbytes⟩) hslash hsuffix
  refine List.mem_map.2 ⟨discovered spot, ?_, rfl⟩
  exact (mem_discover_iff h).2 ⟨pattern, hpattern, _, hglob, spot, hspot, htakes, rfl⟩

end Settings

namespace Index

theorem exists_outlines {tree : FileTree} (hread : tree.Readable)
    {found : List Settings.Discovered} (h : usual.discover tree = .ok found) :
    ∃ pairs, outlines tree found = .ok pairs := by
  refine exists_mapM_eq_ok fun d hd => ?_
  obtain ⟨-, -, -, -, spot, -, ⟨-, bytes, hbytes, -⟩, rfl⟩ := (mem_discover_iff h).1 hd
  obtain ⟨o, ho⟩ := hread spot.path bytes hbytes
  rw [Outline.ofBytes] at ho
  simp [discovered, hbytes, ho, bind, pure, Except.bind, Except.pure]

/-- What the usual settings take in of a file: its bytes, unless they are too many. -/
def sized (file : Option (List UInt8)) : Option (List UInt8) :=
  file.filter fun bytes => (bytes.length : Int) ≤ usualMaxSize

section Made

variable {root : String} {tree : FileTree} (htree : tree.Proper) {index : Index}
  (hmade : ofTree root .usual tree = .ok index) {path : String}
  (hincluded : usual.isIncluded path = true)
  (hexcluded : usual.isExcluded path = false)

include htree hmade hincluded hexcluded

/-- An index by the usual settings holds every file that an update takes and that is not too
large. -/
theorem exists_outline_of_ofTree {bytes : List UInt8} (hbytes : tree.files.get? path = some bytes)
    (hsize : (bytes.length : Int) ≤ usualMaxSize) :
    ∃ o, Outline.ofBytes bytes path = .ok o ∧ index.files.get? path = some o := by
  obtain ⟨found, hfound, houtlines, hindex⟩ := ofTree_eq_ok hmade
  have hkey := mem_discover_usual htree hfound hincluded ⟨hexcluded, bytes, hbytes, hsize⟩
  rw [← (outlines_eq_ok houtlines).1, ← Assoc.mem_keys_ofPairs, ← files_ofOutlines, ← hindex]
    at hkey
  obtain ⟨o, ho⟩ := Assoc.mem_keys_iff.1 hkey
  obtain ⟨same, hsame, hread⟩ := file_of_ofTree hmade ho
  obtain rfl := Option.some.inj (hbytes.symm.trans hsame)
  exact ⟨o, hread, ho⟩

/-- Of the files that an update takes, an index by the usual settings holds exactly those that are
not too large. -/
theorem get?_files_of_ofTree :
    index.files.get? path = Outline.ofFile? path (sized (tree.files.get? path)) := by
  by_cases htakes : usual.Takes tree path
  · obtain ⟨-, bytes, hbytes, hsize⟩ := htakes
    obtain ⟨o, hread, ho⟩ := exists_outline_of_ofTree htree hmade hincluded hexcluded hbytes hsize
    have hsized : sized (some bytes) = some bytes := by
      simpa [sized, Option.filter_eq_some_iff] using
        show (bytes.length : Int) ≤ usualMaxSize from hsize
    rw [ho, hbytes, hsized]
    simp [Outline.ofFile?, hread, Except.toOption]
  -- Of the files in question the settings leave out only those that are too large.
  · have hnone : path ∉ index.files.keys := by
      intro hmem
      obtain ⟨found, hfound, houtlines, rfl⟩ := ofTree_eq_ok hmade
      rw [files_ofOutlines, Assoc.mem_keys_ofPairs, (outlines_eq_ok houtlines).1] at hmem
      obtain ⟨d, hd, rfl⟩ := List.mem_map.1 hmem
      obtain ⟨-, -, -, -, spot, -, hspot, rfl⟩ := (mem_discover_iff hfound).1 hd
      exact htakes hspot
    have hsized : sized (tree.files.get? path) = none := by
      cases hbytes : tree.files.get? path with
      | none => rfl
      | some bytes =>
        have hlarge : ¬ (bytes.length : Int) ≤ usualMaxSize := fun hsize =>
          htakes ⟨hexcluded, bytes, hbytes, hsize⟩
        simpa [sized, Option.filter_eq_none_iff] using hlarge
    rw [Assoc.get?_eq_none_iff.2 hnone, hsized]
    rfl

end Made

/-- **The usual settings make an index of every readable tree.** Of the files that an update takes,
it holds exactly those that are not too large. -/
theorem get?_files_usual (root : String) {tree : FileTree} (htree : tree.Proper)
    (hread : tree.Readable) :
    ∃ index, ofTree root .usual tree = .ok index ∧ index.root = root ∧
      ∀ path, usual.isIncluded path = true → usual.isExcluded path = false →
        index.files.get? path = Outline.ofFile? path (sized (tree.files.get? path)) := by
  obtain ⟨found, hfound⟩ := exists_discover tree
  obtain ⟨pairs, hpairs⟩ := exists_outlines hread hfound
  have hmade : ofTree root .usual tree = .ok (ofOutlines root pairs) := by
    simp [ofTree, hfound, hpairs, bind, pure, Except.bind, Except.pure, Except.mapError]
  exact ⟨_, hmade, rfl, fun _ => get?_files_of_ofTree htree hmade⟩

end Index

end SourceAtlas
