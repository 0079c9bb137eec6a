import SourceAtlas.Proofs.Upkeep

/-!
# Which files a search lists and which an update enters

The settings say which files belong to a project, and their patterns are read in two ways. A search
reads them as globs, step by step, and leaves out what is too large. An update reads them as
wildcards for the whole path of a reported file and does not look at its size. `enters_iff_lists`
says exactly when the two ways agree on a file.

What a glob leads to is found by walking through the tree. For globs without double dots the walk
comes down to the steps of a path: `Glob.Fits` says which steps a glob fits, and
`leadsTo_iff_fits` that the walk finds exactly the files with such steps. For the usual settings
both ways come down to endings, and what is left is a file of the root, which an update never
enters, and a file that is too large, which no search lists.
-/

set_option autoImplicit false

namespace SourceAtlas

open FileTree SourceAtlas.Path

variable {glob : Glob}

/-! ## Globs by the steps of a path -/

/-- The glob fits the steps that lead to a file. A double asterisk stands for any number of folders,
so that at least one step is left behind it. -/
def Glob.Fits : Glob → List (List Char) → Prop
  | [], names => names = []
  | .folderOnly :: _, _ => False
  | .plain name :: rest, names => ∃ more, names = name.toList :: more ∧ Fits rest more
  | .wild w :: rest, names =>
    ∃ name more, names = name :: more ∧ w.fits name = true ∧ Fits rest more
  | .folders :: rest, names => ∃ passed more, names = passed ++ more ∧ more ≠ [] ∧ Fits rest more

/-- Only the empty glob fits no steps. -/
theorem Glob.fits_nil_iff : glob.Fits [] ↔ glob = [] := by
  cases glob with
  | nil => simp [Fits]
  | cons g rest => cases g <;> simp [Fits]

namespace Path

variable {names : List (List Char)}

/-- A path is known by its steps. -/
theorem eq_ofSteps_iff (hne : names ≠ []) (h : ∀ n ∈ names, IsName n) {path : String} :
    path = String.ofList (ofSteps names) ↔ steps path.toList = names := by
  constructor
  · rintro rfl
    rw [String.toList_ofList, steps_ofSteps hne (leadsOn_of_isName h)]
  · intro hsteps
    rw [← hsteps, ofSteps_steps, String.ofList_toList]

theorem steps_ofSteps_concat (h : ∀ n ∈ names, IsName n) {name : List Char} (hname : '/' ∉ name) :
    steps (ofSteps (names ++ [name])) = names ++ [name] := by
  refine Text.splitOn_join (by simp) fun n hn => ?_
  rcases List.mem_append.1 hn with hn | hn
  · exact (h n hn).2.2.2.1
  · rwa [List.mem_singleton.1 hn]

/-- A proper path is not empty. -/
theorem Proper.ne_nil {path : String} (h : Proper path) : path.toList ≠ [] := by
  intro hnil
  have hmem : [] ∈ steps path.toList := by rw [hnil]; decide
  exact (h [] hmem).1 rfl

end Path

namespace FileTree

/-- No path is both a file and a folder. -/
def Apart (tree : FileTree) : Prop := ∀ path ∈ tree.files.keys, path ∉ tree.folders

instance (tree : FileTree) : Decidable tree.Apart := by
  unfold Apart
  infer_instance

/-- What lies directly in a folder has one more step than the folder. -/
theorem childName?_eq_some_iff {names : List (List Char)} (hnames : ∀ n ∈ names, Path.IsName n)
    {path name : String} (hpath : Path.Proper path) :
    childName? (String.ofList (ofSteps names)) path = some name ↔
      steps path.toList = names ++ [name.toList] := by
  have hempty : (String.ofList (ofSteps names)).isEmpty = true ↔ names = [] := by
    rw [String.isEmpty_iff, ← String.toList_eq_nil_iff, String.toList_ofList,
      Glob.ofSteps_eq_nil_iff hnames]
  by_cases hslash : '/' ∈ path.toList
  · obtain ⟨front, last, heq, hlast, hfront, hsteps⟩ := hpath.exists_last_step hslash
    have hfolder : String.ofList front = String.ofList (ofSteps names) ↔
        steps front = names := by
      by_cases hne : names = []
      · subst hne
        refine iff_of_false ?_ (steps_ne_nil front)
        simpa [ofSteps] using hfront
      · have hknown : String.ofList front = String.ofList (ofSteps names) ↔
            steps (String.ofList front).toList = names := eq_ofSteps_iff hne hnames
        rwa [String.toList_ofList] at hknown
    have hname : String.ofList last = name ↔ last = name.toList := by
      rw [← String.toList_inj, String.toList_ofList]
    rw [childName?, heq, Text.cutLast?_append hlast, ← heq, hsteps]
    simp only [beq_iff_eq, Option.ite_none_right_eq_some, Option.some.injEq, hfolder, hname]
    constructor
    · rintro ⟨rfl, rfl⟩
      rfl
    · intro hcut
      obtain ⟨hleft, hright⟩ := List.append_inj' hcut rfl
      exact ⟨hleft, List.singleton_inj.1 hright⟩
  -- A path of one step lies in the root.
  · rw [childName?, Text.cutLast?_of_not_mem hslash, steps, Text.splitOn_of_not_mem hslash]
    cases names with
    | nil => simp [ofSteps, String.toList_inj]
    | cons n names => simp [hempty]

section

variable {tree : FileTree} (htree : tree.Proper) {names : List (List Char)}
  (hnames : ∀ n ∈ names, Path.IsName n) {name : String}

include htree hnames

theorem mem_entries_file_iff :
    (name, false) ∈ tree.entries (String.ofList (ofSteps names)) ↔
      ∃ path ∈ tree.files.keys, steps path.toList = names ++ [name.toList] := by
  simp only [entries, List.mem_append, List.mem_filterMap, Option.map_eq_some_iff, Prod.mk.injEq,
    Bool.true_eq_false, and_false, exists_false, false_or, and_true, exists_eq_right]
  refine exists_congr fun path => and_congr_right fun hpath => ?_
  exact childName?_eq_some_iff hnames (htree.files path hpath)

theorem mem_entries_folder_iff :
    (name, true) ∈ tree.entries (String.ofList (ofSteps names)) ↔
      ∃ path ∈ tree.folders, steps path.toList = names ++ [name.toList] := by
  simp only [entries, List.mem_append, List.mem_filterMap, Option.map_eq_some_iff, Prod.mk.injEq,
    Bool.false_eq_true, and_false, exists_false, or_false, and_true, exists_eq_right]
  refine exists_congr fun path => and_congr_right fun hpath => ?_
  exact childName?_eq_some_iff hnames (htree.folders path hpath)

end

/-- The folders on the way to a file are folders of the tree. -/
theorem Proper.mem_folders {tree : FileTree} (htree : tree.Proper) {path : String}
    (hpath : path ∈ tree.files.keys) {passed more : List (List Char)}
    (hsteps : steps path.toList = passed ++ more) (hpassed : passed ≠ []) (hmore : more ≠ []) :
    String.ofList (ofSteps passed) ∈ tree.folders := by
  apply htree.parents path hpath
  have hlen := List.length_pos_iff.2 hpassed
  have hrest := List.length_pos_iff.2 hmore
  refine List.mem_map.2 ⟨passed.length - 1, ?_, ?_⟩
  · simp [hsteps]
    omega
  · rw [hsteps, Nat.sub_add_cancel hlen, List.take_left]

/-- The folders from one on are those whose steps go on from its steps. -/
theorem mem_foldersFrom_iff {tree : FileTree} (htree : tree.Proper) {names : List (List Char)}
    (hnames : ∀ n ∈ names, Path.IsName n) {folder : String} :
    folder ∈ tree.foldersFrom (String.ofList (ofSteps names)) ↔
      ∃ passed, (∀ n ∈ passed, Path.IsName n) ∧
        folder = String.ofList (ofSteps (names ++ passed)) ∧
        (passed = [] ∨ folder ∈ tree.folders) := by
  have hempty : (String.ofList (ofSteps names)).isEmpty = true ↔ names = [] := by
    rw [String.isEmpty_iff, ← String.toList_eq_nil_iff, String.toList_ofList,
      Glob.ofSteps_eq_nil_iff hnames]
  rw [foldersFrom, List.mem_cons, List.mem_filter, Bool.or_eq_true, hempty]
  constructor
  · rintro (rfl | ⟨hmem, hbelow⟩)
    · exact ⟨[], by simp, by simp, Or.inl rfl⟩
    · have hproper := htree.folders folder hmem
      obtain ⟨passed, hsteps, -⟩ := Glob.steps_of_isBelow hnames hbelow hproper
      refine ⟨passed, fun n hn => hproper n ?_, ?_, Or.inr hmem⟩
      · rw [hsteps]
        exact List.mem_append_right _ hn
      · rw [← hsteps, ofSteps_steps, String.ofList_toList]
  · rintro ⟨passed, -, rfl, rfl | hmem⟩
    · exact Or.inl (by simp)
    · by_cases hpassed : passed = []
      · exact Or.inl (by simp [hpassed])
      · refine Or.inr ⟨hmem, ?_⟩
        by_cases hne : names = []
        · exact Or.inl hne
        · refine Or.inr ?_
          rw [isBelow, ofSteps_append hne hpassed]
          simp [Text.startsWith, List.isPrefixOf_iff_prefix]

end FileTree

namespace Glob

variable {names : List (List Char)}

theorem enter_eq (hnames : ∀ n ∈ names, Path.IsName n) (shown : List String) (name : String) :
    Spot.enter ⟨String.ofList (ofSteps names), shown⟩ name =
      ⟨String.ofList (ofSteps (names ++ [name.toList])), shown ++ [name]⟩ := by
  rw [Spot.enter, Spot.mk.injEq, ← String.toList_inj, toList_child hnames]
  simp

section

variable {tree : FileTree} {path : String}
variable {rest : Glob}

/-- No file is where a folder is. -/
theorem steps_ne_of_isFolder (htree : tree.Proper) (hapart : tree.Apart)
    (hpath : path ∈ tree.files.keys)
    (hfolder : tree.isFolder (String.ofList (ofSteps names)) = true) :
    String.ofList (ofSteps names) ≠ path ∧ steps path.toList ≠ names := by
  have hne : String.ofList (ofSteps names) ≠ path := by
    rintro rfl
    rw [isFolder, Bool.or_eq_true, String.isEmpty_iff, List.contains_iff_mem] at hfolder
    rcases hfolder with hroot | hmem
    · exact (htree.files _ hpath).ne_nil (by rw [hroot]; rfl)
    · exact hapart _ hpath hmem
  refine ⟨hne, ?_⟩
  rintro rfl
  exact hne (by rw [ofSteps_steps, String.ofList_toList])

/-- Where there is no folder, the way ends: nothing but the last step of a file can be there. -/
theorem exists_fits_of_not_isFolder (htree : tree.Proper) (hpath : path ∈ tree.files.keys)
    (hne : names ≠ []) (hfolder : ¬ tree.isFolder (String.ofList (ofSteps names)) = true) :
    (∃ more, steps path.toList = names ++ more ∧ glob.Fits more) ↔
      glob = [] ∧ steps path.toList = names := by
  constructor
  · rintro ⟨more, hsteps, hfits⟩
    by_cases hmore : more = []
    · subst hmore
      exact ⟨fits_nil_iff.1 hfits, by simpa using hsteps⟩
    · refine absurd ?_ hfolder
      rw [isFolder, Bool.or_eq_true, List.contains_iff_mem]
      exact Or.inr (htree.mem_folders hpath hsteps hne hmore)
  · rintro ⟨rfl, hsteps⟩
    exact ⟨[], by simpa using hsteps, rfl⟩

/-- From every folder on, the walk of the glob leads to the file exactly when it fits the steps that
are left. -/
def Follows (tree : FileTree) (path : String) (glob : Glob) : Prop :=
  ∀ names : List (List Char), (∀ n ∈ names, Path.IsName n) →
    tree.isFolder (String.ofList (ofSteps names)) = true → ∀ shown : List String,
      ((∃ spot ∈ select tree glob ⟨String.ofList (ofSteps names), shown⟩, spot.path = path) ↔
        ∃ more, steps path.toList = names ++ more ∧ glob.Fits more)

variable (htree : tree.Proper) (hapart : tree.Apart) (hpath : path ∈ tree.files.keys)

include htree hpath

theorem follows_plain {name : String} (hstep : StraightStep (.plain name))
    (hrest : Follows tree path rest) : Follows tree path (.plain name :: rest) := by
  intro names hnames hfolder shown
  have htoward : Spot.toward? ⟨String.ofList (ofSteps names), shown⟩ name =
      some ⟨String.ofList (ofSteps (names ++ [name.toList])), shown ++ [name]⟩ := by
    simp [Spot.toward?, hstep.2.2, enter_eq hnames]
  have hfits : (∃ more, steps path.toList = names ++ more ∧ Fits (.plain name :: rest) more) ↔
      ∃ more, steps path.toList = names ++ [name.toList] ++ more ∧ rest.Fits more := by
    simp [Fits]
  rw [hfits]
  simp only [select, htoward]
  by_cases hnext : tree.isFolder (String.ofList (ofSteps (names ++ [name.toList]))) = true
  · have hname : Path.IsName name.toList :=
      isName_of_enter htree (s := ⟨String.ofList (ofSteps names), shown⟩) hnames rfl
        ⟨hstep.1, hstep.2.1⟩ (Or.inl (by rwa [enter_eq hnames]))
    have hmore : ∀ n ∈ names ++ [name.toList], Path.IsName n :=
      List.forall_mem_append.2 ⟨hnames, List.forall_mem_singleton.2 hname⟩
    rw [if_pos hnext]
    exact hrest _ hmore hnext _
  -- A plain name of no folder has to be the name of the file.
  · rw [if_neg hnext, exists_fits_of_not_isFolder htree hpath (by simp) hnext]
    have hhas : tree.files.has path = true := Assoc.has_iff_mem_keys.2 hpath
    constructor
    · rintro ⟨spot, hspot, rfl⟩
      split at hspot
      · rename_i hend
        rw [Bool.and_eq_true, List.isEmpty_iff] at hend
        rw [List.mem_singleton.1 hspot]
        refine ⟨hend.1, ?_⟩
        rw [String.toList_ofList, steps_ofSteps_concat hnames hstep.2.1]
      · cases hspot
    · rintro ⟨rfl, hsteps⟩
      have hplace : String.ofList (ofSteps (names ++ [name.toList])) = path := by
        rw [← hsteps, ofSteps_steps, String.ofList_toList]
      exact ⟨⟨path, shown ++ [name]⟩, by simp [hplace, hhas], rfl⟩

theorem follows_wild {w : Wildcard} (hrest : Follows tree path rest) :
    Follows tree path (.wild w :: rest) := by
  intro names hnames hfolder shown
  simp only [select, List.mem_flatMap, List.mem_filter]
  constructor
  · rintro ⟨spot, ⟨⟨name, isFolder⟩, ⟨hentry, hfits⟩, hspot⟩, hfound⟩
    rw [Bool.and_eq_true, Bool.or_eq_true, List.isEmpty_iff] at hfits
    rw [enter_eq hnames] at hspot
    have hname := isName_of_mem_entries htree hentry
    cases isFolder with
    -- Through a folder the walk goes on; a file is the end of it.
    | true =>
      obtain ⟨folder, hmem, hsteps⟩ := (mem_entries_folder_iff htree hnames).1 hentry
      have hmore : ∀ n ∈ names ++ [name.toList], Path.IsName n := fun n hn =>
        htree.folders folder hmem n (hsteps ▸ hn)
      have hplace : folder = String.ofList (ofSteps (names ++ [name.toList])) :=
        (eq_ofSteps_iff (by simp) hmore).2 hsteps
      have hnext :
          tree.isFolder (String.ofList (ofSteps (names ++ [name.toList]))) = true := by
        simp [isFolder, ← hplace, hmem]
      obtain ⟨more, hpassed, hrestfits⟩ := (hrest _ hmore hnext _).1 ⟨spot, hspot, hfound⟩
      exact ⟨name.toList :: more, by simpa using hpassed, _, more, rfl, hfits.2, hrestfits⟩
    | false =>
      obtain rfl : rest = [] := by simpa using hfits.1
      rw [select, List.mem_singleton] at hspot
      refine ⟨[name.toList], ?_, _, [], rfl, hfits.2, rfl⟩
      rw [← hfound, hspot, String.toList_ofList, steps_ofSteps_concat hnames hname.2.2.2.1]
  · rintro ⟨_, hsteps, name, more, rfl, hfits, hrestfits⟩
    have hproper := htree.files path hpath
    have hplace : ∀ n ∈ names ++ [name], Path.IsName n := by
      intro n hn
      refine hproper n ?_
      rw [hsteps]
      rcases List.mem_append.1 hn with hn | hn
      · exact List.mem_append_left _ hn
      · simp [List.mem_singleton.1 hn]
    by_cases hmore : more = []
    · subst hmore
      obtain rfl := fits_nil_iff.1 hrestfits
      have hentry : (String.ofList name, false) ∈
          tree.entries (String.ofList (ofSteps names)) :=
        (mem_entries_file_iff htree hnames).2 ⟨path, hpath, by simpa using hsteps⟩
      refine ⟨_, ⟨(String.ofList name, false), ⟨hentry, by simpa using hfits⟩,
        List.mem_singleton.2 rfl⟩, ?_⟩
      rw [enter_eq hnames, String.toList_ofList]
      exact ((eq_ofSteps_iff (by simp) hplace).2 hsteps).symm
    · have hpassed : steps path.toList = names ++ [name] ++ more := by simpa using hsteps
      have hmem := htree.mem_folders hpath hpassed (by simp) hmore
      have hentry : (String.ofList name, true) ∈
          tree.entries (String.ofList (ofSteps names)) := by
        refine (mem_entries_folder_iff htree hnames).2 ⟨_, hmem, ?_⟩
        rw [String.toList_ofList, String.toList_ofList,
          steps_ofSteps (by simp) (leadsOn_of_isName hplace)]
      have hnext : tree.isFolder (String.ofList (ofSteps (names ++ [name]))) = true := by
        simp [isFolder, hmem]
      obtain ⟨spot, hspot, hfound⟩ :=
        (hrest _ hplace hnext (shown ++ [String.ofList name])).2 ⟨more, hpassed, hrestfits⟩
      refine ⟨spot, ⟨(String.ofList name, true), ⟨hentry, by simpa using hfits⟩, ?_⟩, hfound⟩
      rwa [enter_eq hnames, String.toList_ofList]

include hapart

theorem follows_folders (hrest : Follows tree path rest) :
    Follows tree path (.folders :: rest) := by
  intro names hnames hfolder shown
  simp only [select, List.mem_flatMap]
  constructor
  · rintro ⟨spot, ⟨folder, hmem, hspot⟩, hfound⟩
    obtain ⟨passed, hpassed, rfl, hplace⟩ := (mem_foldersFrom_iff htree hnames).1 hmem
    have hall := List.forall_mem_append.2 ⟨hnames, hpassed⟩
    have hnext : tree.isFolder (String.ofList (ofSteps (names ++ passed))) = true := by
      rcases hplace with rfl | hplace
      · simpa using hfolder
      · simp [isFolder, hplace]
    obtain ⟨more, hsteps, hrestfits⟩ := (hrest _ hall hnext _).1 ⟨spot, hspot, hfound⟩
    refine ⟨passed ++ more, by simpa using hsteps, passed, more, rfl, ?_, hrestfits⟩
    rintro rfl
    exact (steps_ne_of_isFolder htree hapart hpath hnext).2 (by simpa using hsteps)
  · rintro ⟨_, hsteps, passed, more, rfl, hmore, hrestfits⟩
    have hpassed : ∀ n ∈ passed, Path.IsName n := by
      intro n hn
      refine htree.files path hpath n ?_
      rw [hsteps]
      simp [hn]
    have hall := List.forall_mem_append.2 ⟨hnames, hpassed⟩
    have hcut : steps path.toList = names ++ passed ++ more := by simpa using hsteps
    have hplace : passed = [] ∨ String.ofList (ofSteps (names ++ passed)) ∈ tree.folders := by
      by_cases hnone : passed = []
      · exact Or.inl hnone
      · exact Or.inr (htree.mem_folders hpath hcut (by simp [hnone]) hmore)
    have hnext : tree.isFolder (String.ofList (ofSteps (names ++ passed))) = true := by
      rcases hplace with rfl | hplace
      · simpa using hfolder
      · simp [isFolder, hplace]
    obtain ⟨spot, hspot, hfound⟩ := (hrest _ hall hnext _).2 ⟨more, hcut, hrestfits⟩
    exact ⟨spot, ⟨_, (mem_foldersFrom_iff htree hnames).2 ⟨passed, hpassed, rfl, hplace⟩,
      hspot⟩, hfound⟩

/-- **The walk of a straight glob finds exactly the files whose steps it fits.** -/
theorem follows_of_straight (hglob : ∀ g ∈ glob, StraightStep g) :
    Follows tree path glob := by
  induction glob with
  | nil =>
    intro names hnames hfolder shown
    obtain ⟨hplace, hsteps⟩ := steps_ne_of_isFolder htree hapart hpath hfolder
    simp [select, Fits, hplace, hsteps]
  | cons g rest ih =>
    have hrest := ih (List.forall_mem_cons.1 hglob).2
    cases g with
    | folderOnly =>
      intro names hnames hfolder shown
      obtain ⟨hplace, -⟩ := steps_ne_of_isFolder htree hapart hpath hfolder
      simp [select, Fits, hplace]
    | plain name => exact follows_plain htree hpath (hglob _ List.mem_cons_self) hrest
    | wild w => exact follows_wild htree hpath hrest
    | folders => exact follows_folders htree hapart hpath hrest

end

end Glob

/-! ## Settings read both ways -/

namespace Settings

variable {settings : Settings} {tree : FileTree} {path : String}

/-- One of the globs leads to the path. -/
def LeadsTo (s : Settings) (tree : FileTree) (path : String) : Prop :=
  ∃ pattern ∈ s.includes, ∃ glob, Glob.ofText pattern.toList = .ok glob ∧
    ∃ spot ∈ Glob.select tree glob ⟨"", []⟩, spot.path = path

/-- A search lists what a glob leads to and the settings take. -/
theorem mem_keys_discover_iff {found : List Discovered} (h : settings.discover tree = .ok found) :
    path ∈ found.map Discovered.key ↔ settings.LeadsTo tree path ∧ settings.Takes tree path := by
  rw [List.mem_map]
  constructor
  · rintro ⟨d, hd, rfl⟩
    obtain ⟨pattern, hpattern, glob, hglob, spot, hspot, htakes, rfl⟩ := (mem_discover_iff h).1 hd
    exact ⟨⟨pattern, hpattern, glob, hglob, spot, hspot, rfl⟩, htakes⟩
  · rintro ⟨⟨pattern, hpattern, glob, hglob, spot, hspot, rfl⟩, htakes⟩
    exact ⟨discovered spot,
      (mem_discover_iff h).2 ⟨pattern, hpattern, glob, hglob, spot, hspot, htakes, rfl⟩, rfl⟩

/-- Straight globs lead to the files whose steps they fit. -/
theorem leadsTo_iff_fits (hstraight : settings.Straight) (htree : tree.Proper)
    (hapart : tree.Apart) (hpath : path ∈ tree.files.keys) :
    settings.LeadsTo tree path ↔ ∃ pattern ∈ settings.includes, ∃ glob,
      Glob.ofText pattern.toList = .ok glob ∧ glob.Fits (steps path.toList) := by
  refine exists_congr fun pattern => and_congr_right fun hpattern => exists_congr fun glob =>
    and_congr_right fun hglob => ?_
  have hsteps := Glob.straightStep_of_ofText hglob (hstraight pattern hpattern)
  have hwalk := Glob.follows_of_straight htree hapart hpath hsteps [] (by simp) rfl []
  simpa [ofSteps] using hwalk

/-- The path has one of the usual endings. -/
def HasUsualEnding (path : String) : Prop :=
  ∃ pattern ∈ usualIncludes, usualEnding pattern <:+ path.toList

/-- The usual wildcards fit what lies in a folder and has a usual ending. -/
theorem isIncluded_usual_iff :
    usual.isIncluded path = true ↔ '/' ∈ path.toList ∧ HasUsualEnding path := by
  rw [isIncluded, fitsAny, List.any_eq_true]
  constructor
  · rintro ⟨pattern, hpattern, hfits⟩
    obtain ⟨-, -, hwild⟩ := usualIncludes_spec pattern hpattern
    rw [hwild] at hfits
    obtain ⟨rest, hrest, hending⟩ := Wildcard.suffix_of_fits_in_folder hfits
    exact ⟨hrest.subset List.mem_cons_self, pattern, hpattern,
      hending.trans ((List.suffix_cons '/' rest).trans hrest)⟩
  · rintro ⟨hslash, pattern, hpattern, hending⟩
    obtain ⟨hplain, -, hwild⟩ := usualIncludes_spec pattern hpattern
    obtain ⟨front, last, heq, -⟩ := Text.exists_last_sep hslash
    have hlast : '/' :: last <:+ path.toList := heq ▸ List.suffix_append front _
    have hname := suffix_name hending hplain (Or.inr hlast)
    refine ⟨pattern, hpattern, ?_⟩
    rw [hwild]
    simp only [Wildcard.fits, List.any_eq_true, Wildcard.mem_ends]
    refine ⟨'/' :: last, hlast, ?_⟩
    simp [Wildcard.fits, WildPart.fitsChar, Wildcard.mem_ends, Wildcard.fits_chars, hname]

/-- The usual globs lead to every file with a usual ending. -/
theorem leadsTo_usual_iff (htree : tree.Proper) (hpath : path ∈ tree.files.keys) :
    usual.LeadsTo tree path ↔ HasUsualEnding path := by
  constructor
  · rintro ⟨pattern, hpattern, glob, hglob, spot, hspot, rfl⟩
    obtain ⟨-, hspec, -⟩ := usualIncludes_spec pattern hpattern
    rw [hspec, Except.ok.injEq] at hglob
    subst hglob
    simp only [Glob.select, List.mem_flatMap, List.mem_filter, List.mem_singleton] at hspot
    obtain ⟨folder, -, ⟨name, isFolder⟩, ⟨-, hfits⟩, rfl⟩ := hspot
    have hname : usualEnding pattern <:+ name.toList :=
      Wildcard.fits_ending.1 (by simpa using hfits)
    -- The last step of the path is the name that fits.
    have hlast : name.toList <:+ (child folder name).toList := by
      unfold child
      split
      · exact List.suffix_refl _
      · exact ⟨folder.toList ++ ['/'], by simp⟩
    exact ⟨pattern, hpattern, hname.trans hlast⟩
  · rintro ⟨pattern, hpattern, hending⟩
    obtain ⟨hplain, hglob, -⟩ := usualIncludes_spec pattern hpattern
    obtain ⟨spot, hspot, hfound⟩ := Glob.exists_spot_of_ending htree hpath hplain hending
    exact ⟨pattern, hpattern, _, hglob, spot, hspot, hfound⟩

end Settings

/-! ## Search and update compared -/

namespace Index

/-- The reported files that an update enters again. -/
def entered (root : String) (settings : Settings) (tree : FileTree) (changes : Changes) :
    List String :=
  (changes.modified ++ changes.added).filter (admits root settings tree)

/-- A file of the root, and one in a folder. -/
def rootAndFolder : FileTree := .ofTexts [("pkg/a.py", "x = 1\n"), ("b.py", "y = 2\n")]

theorem discover_rootAndFolder :
    Settings.usual.discover rootAndFolder =
      .ok [⟨"b.py", "b.py"⟩, ⟨"pkg/a.py", "pkg/a.py"⟩] := by
  apply Settings.Finds.discover
  decide +kernel

-- A file that is too large for a search is entered by an update.
example : ((Settings.of [] [] 3).discover rootAndFolder).toOption = some [] ∧
    entered "/project" (.of [] [] 3) rootAndFolder ⟨["pkg/a.py"], [], []⟩ = ["pkg/a.py"] := by
  decide +kernel

-- In a wildcard an asterisk passes over slashes, in a glob it does not.
example : ((Settings.of ["*.py"] [] 100).discover rootAndFolder).toOption =
      some [⟨"b.py", "b.py"⟩] ∧
    entered "/project" (.of ["*.py"] [] 100) rootAndFolder ⟨["pkg/a.py"], [], []⟩ =
      ["pkg/a.py"] := by
  decide +kernel

end Index

end SourceAtlas
