import SourceAtlas.Proofs.Graphs

/-!
# The folder that a Go import names

A Go import stands for a folder, and any folder counts whose path ends with some last steps of the
import. The search tries the ends of the import, the longest first, and for each of them all folders
with Go files, of which it keeps one file each.

Three facts make up the law of the search. The folders that are kept are those of all Go files
(`exists_mem_goFolders_iff`), so that one look at an end fails only if no Go file lies in a folder
with that end (`fileAt?_eq_none_iff`). The ends are all runs of last steps, and the search through
them stops at the longest with a find (`findSome?_pathEnds`). So `goFile_of_longest_run` can speak
of all folders and all runs at once, of those too that the search never comes to.
-/

set_option autoImplicit false

namespace SourceAtlas

/-- The path is made up of the steps, or ends with them behind a slash. -/
def Path.EndsIn (p : List Char) (run : List (List Char)) : Prop :=
  p = ofSteps run ∨ '/' :: ofSteps run <:+ p

namespace Resolve

open SourceAtlas.Text

variable {f target : String} {run : List (List Char)} {folder : List Char}
variable {folders : List (List Char × String)} {e : List Char × String}

/-- The name of the file has the extension of Go sources. -/
def IsGoFile (f : String) : Prop := ".go".toList <:+ f.toList

/-! ## Folders with Go files -/

/-- The folders with that of one more file, unless it is there. -/
def addFolder (folders : List (List Char × String)) (f : String) : List (List Char × String) :=
  if folders.any (·.1 == Path.folder f.toList) then folders
  else folders ++ [(Path.folder f.toList, f)]

theorem goFolders_eq (files : List String) :
    goFolders files =
      (files.filter fun f => endsWith ".go".toList f.toList).foldl addFolder [] := rfl

theorem mem_addFolder (h : e ∈ addFolder folders f) :
    e ∈ folders ∨ e = (Path.folder f.toList, f) := by
  unfold addFolder at h
  split at h
  · exact Or.inl h
  · simpa using h

theorem mem_addFolder_of_mem (h : e ∈ folders) (f : String) : e ∈ addFolder folders f := by
  unfold addFolder
  split
  · exact h
  · exact List.mem_append_left _ h

theorem exists_mem_addFolder (folders : List (List Char × String)) (f : String) :
    ∃ g, (Path.folder f.toList, g) ∈ addFolder folders f := by
  unfold addFolder
  split
  · rename_i hany
    obtain ⟨⟨folder, g⟩, hmem, hfolder⟩ := List.any_eq_true.1 hany
    exact ⟨g, beq_iff_eq.1 hfolder ▸ hmem⟩
  · exact ⟨f, List.mem_append_right _ (List.mem_singleton_self _)⟩

/-- Folders of files that are entered one after the other: each comes from a file, none is lost, and
every file has its folder there. -/
theorem foldl_addFolder (fs : List String) (folders : List (List Char × String)) :
    (∀ e ∈ fs.foldl addFolder folders,
        e ∈ folders ∨ ∃ f ∈ fs, e = (Path.folder f.toList, f)) ∧
      (∀ e ∈ folders, e ∈ fs.foldl addFolder folders) ∧
      ∀ f ∈ fs, ∃ g, (Path.folder f.toList, g) ∈ fs.foldl addFolder folders := by
  induction fs generalizing folders with
  | nil => simp
  | cons f fs ih =>
    obtain ⟨hfrom, hkept, hall⟩ := ih (addFolder folders f)
    rw [List.foldl_cons]
    refine ⟨fun e he => ?_, fun e he => hkept e (mem_addFolder_of_mem he f), fun g hg => ?_⟩
    · rcases hfrom e he with hadded | ⟨g, hg, rfl⟩
      · rcases mem_addFolder hadded with hold | hnew
        · exact Or.inl hold
        · exact Or.inr ⟨f, List.mem_cons_self, hnew⟩
      · exact Or.inr ⟨g, List.mem_cons_of_mem _ hg, rfl⟩
    · rcases List.mem_cons.1 hg with rfl | hg
      · obtain ⟨first, hfirst⟩ := exists_mem_addFolder folders g
        exact ⟨first, hkept _ hfirst⟩
      · exact hall g hg

variable {files : List String}

theorem mem_goSources :
    f ∈ files.filter (fun f => endsWith ".go".toList f.toList) ↔ f ∈ files ∧ IsGoFile f := by
  rw [List.mem_filter, endsWith, List.isSuffixOf_iff_suffix]
  rfl

/-- Every folder is kept with a Go file that lies in it. -/
theorem of_mem_goFolders (h : (folder, f) ∈ goFolders files) :
    f ∈ files ∧ IsGoFile f ∧ folder = Path.folder f.toList := by
  rw [goFolders_eq] at h
  rcases (foldl_addFolder _ []).1 _ h with hnone | ⟨g, hg, heq⟩
  · cases hnone
  · cases heq
    obtain ⟨hmem, hgo⟩ := mem_goSources.1 hg
    exact ⟨hmem, hgo, rfl⟩

theorem exists_mem_goFolders_iff :
    (∃ f, (folder, f) ∈ goFolders files) ↔
      ∃ f ∈ files, IsGoFile f ∧ Path.folder f.toList = folder := by
  constructor
  · rintro ⟨f, hf⟩
    obtain ⟨hmem, hgo, rfl⟩ := of_mem_goFolders hf
    exact ⟨f, hmem, hgo, rfl⟩
  · rintro ⟨f, hmem, hgo, rfl⟩
    rw [goFolders_eq]
    exact (foldl_addFolder _ []).2.2 f (mem_goSources.2 ⟨hmem, hgo⟩)

/-! ## One look -/

/-- The file of the first folder with the ending. -/
def fileAt? (files : List String) (ending : List Char) : Option String :=
  ((goFolders files).find? fun e => namesFolder ending e.1).map Prod.snd

theorem goFile?_eq (target : String) (files : List String) :
    goFile? target files = (pathEnds (Path.steps target.toList)).findSome? (fileAt? files) := rfl

theorem namesFolder_iff :
    namesFolder (Path.ofSteps run) folder = true ↔ Path.EndsIn folder run := by
  rw [namesFolder, Bool.or_eq_true, beq_iff_eq, endsWith, List.isSuffixOf_iff_suffix]
  rfl

theorem of_fileAt?_eq_some (h : fileAt? files (Path.ofSteps run) = some f) :
    f ∈ files ∧ IsGoFile f ∧ Path.EndsIn (Path.folder f.toList) run := by
  obtain ⟨⟨folder, g⟩, hfound, rfl⟩ := Option.map_eq_some_iff.1 h
  obtain ⟨hmem, hgo, rfl⟩ := of_mem_goFolders (List.mem_of_find?_eq_some hfound)
  have hnames : namesFolder (Path.ofSteps run) (Path.folder g.toList) = true := by
    simpa using List.find?_some hfound
  exact ⟨hmem, hgo, namesFolder_iff.1 hnames⟩

/-- A look fails only if no Go file at all lies in a folder with that end. -/
theorem fileAt?_eq_none_iff :
    fileAt? files (Path.ofSteps run) = none ↔
      ∀ f ∈ files, IsGoFile f → ¬ Path.EndsIn (Path.folder f.toList) run := by
  rw [fileAt?, Option.map_eq_none_iff, List.find?_eq_none]
  constructor
  · intro hnone f hmem hgo hends
    obtain ⟨g, hg⟩ := exists_mem_goFolders_iff.2 ⟨f, hmem, hgo, rfl⟩
    exact hnone _ hg (namesFolder_iff.2 hends)
  · rintro hnone ⟨folder, f⟩ he hnames
    obtain ⟨hmem, hgo, rfl⟩ := of_mem_goFolders he
    exact hnone f hmem hgo (namesFolder_iff.1 hnames)

/-! ## One look after the other -/

/-- A search through the ends of a path fails if every look fails, and otherwise stops at the
longest end with a find. The induction is on the steps: the first look is at all of them. -/
theorem findSome?_pathEnds (look : List Char → Option String) (steps : List (List Char)) :
    ((pathEnds steps).findSome? look = none ↔
        ∀ run, run <:+ steps → run ≠ [] → look (Path.ofSteps run) = none) ∧
      ∀ f, (pathEnds steps).findSome? look = some f →
        ∃ run, run <:+ steps ∧ run ≠ [] ∧ look (Path.ofSteps run) = some f ∧
          ∀ other, other <:+ steps → run.length < other.length →
            look (Path.ofSteps other) = none := by
  induction steps with
  | nil =>
    refine ⟨iff_of_true rfl fun run hrun hne => absurd (List.suffix_nil.1 hrun) hne, ?_⟩
    rintro f ⟨⟩
  | cons step steps ih =>
    obtain ⟨hnone, hsome⟩ := ih
    rw [pathEnds, List.findSome?_cons]
    cases hfirst : look (Path.ofSteps (step :: steps)) with
    | some found =>
      refine ⟨iff_of_false (Option.some_ne_none found) fun hall => ?_, ?_⟩
      · rw [hall _ (List.suffix_refl _) (List.cons_ne_nil _ _)] at hfirst
        cases hfirst
      -- No end is longer than the whole path.
      · rintro f ⟨⟩
        refine ⟨step :: steps, List.suffix_refl _, List.cons_ne_nil _ _, hfirst, ?_⟩
        intro other hother hlonger
        exact absurd hother.length_le (Nat.not_le_of_lt hlonger)
    | none =>
      refine ⟨hnone.trans ⟨fun hall run hrun hne => ?_, fun hall run hrun => ?_⟩, ?_⟩
      · rcases List.suffix_cons_iff.1 hrun with rfl | hrun
        · exact hfirst
        · exact hall run hrun hne
      · exact hall run (hrun.trans (List.suffix_cons step steps))
      · intro f hf
        obtain ⟨run, hrun, hne, hlook, hlongest⟩ := hsome f hf
        refine ⟨run, hrun.trans (List.suffix_cons step steps), hne, hlook, ?_⟩
        intro other hother hlonger
        rcases List.suffix_cons_iff.1 hother with rfl | hother
        · exact hfirst
        · exact hlongest other hother hlonger

/-! ## The law of the search -/

theorem goFile?_eq_none_iff :
    goFile? target files = none ↔
      ∀ f ∈ files, IsGoFile f → ∀ run, run <:+ Path.steps target.toList → run ≠ [] →
        ¬ Path.EndsIn (Path.folder f.toList) run := by
  rw [goFile?_eq, (findSome?_pathEnds _ _).1]
  constructor
  · intro hnone f hmem hgo run hrun hne
    exact fileAt?_eq_none_iff.1 (hnone run hrun hne) f hmem hgo
  · intro hnone run hrun hne
    exact fileAt?_eq_none_iff.2 fun f hmem hgo => hnone f hmem hgo run hrun hne

theorem of_goFile?_eq_some (h : goFile? target files = some f) :
    f ∈ files ∧ IsGoFile f ∧ ∃ run, run <:+ Path.steps target.toList ∧ run ≠ [] ∧
      Path.EndsIn (Path.folder f.toList) run ∧
      ∀ g ∈ files, IsGoFile g → ∀ other, other <:+ Path.steps target.toList →
        Path.EndsIn (Path.folder g.toList) other → other.length ≤ run.length := by
  rw [goFile?_eq] at h
  obtain ⟨run, hrun, hne, hlook, hlongest⟩ := (findSome?_pathEnds _ _).2 f h
  obtain ⟨hmem, hgo, hends⟩ := of_fileAt?_eq_some hlook
  refine ⟨hmem, hgo, run, hrun, hne, hends, ?_⟩
  intro g hg hgoes other hother hnamed
  -- A longer run was looked at before, and no folder had that end.
  by_contra hlonger
  exact fileAt?_eq_none_iff.1 (hlongest other hother (Nat.lt_of_not_le hlonger)) g hg hgoes hnamed

theorem byLanguage?_go (htarget : target ≠ "") (file : String) (files : List String) :
    byLanguage? .go file target files = goFile? target files := by
  have hempty : target.isEmpty = false := by simpa using htarget
  rw [byLanguage?, hempty]
  rfl

/-- **A Go import leads to the folder that the longest run of its last steps names.** It leads
nowhere if and only if no folder with a Go file is named by a run of last steps, or ends with one
behind a slash. Otherwise it leads to a Go file of the project, and the folder of that file is named
by a run that is at least as long as any that names the folder of any Go file. -/
theorem goFile_of_longest_run {target : String} (htarget : target ≠ "") (file : String)
    (files : List String) :
    (byLanguage? .go file target files = none ↔
        ∀ f ∈ files, IsGoFile f → ∀ run, run <:+ Path.steps target.toList → run ≠ [] →
          ¬ Path.EndsIn (Path.folder f.toList) run) ∧
      ∀ f, byLanguage? .go file target files = some f →
        f ∈ files ∧ IsGoFile f ∧ ∃ run, run <:+ Path.steps target.toList ∧ run ≠ [] ∧
          Path.EndsIn (Path.folder f.toList) run ∧
          ∀ g ∈ files, IsGoFile g → ∀ other, other <:+ Path.steps target.toList →
            Path.EndsIn (Path.folder g.toList) other → other.length ≤ run.length := by
  rw [byLanguage?_go htarget]
  exact ⟨goFile?_eq_none_iff, fun f hf => of_goFile?_eq_some hf⟩

-- A slash at the end leaves an empty last step, and that names the root.
example : byLanguage? .go "" "lib/" ["lib.go", "cmd/main.go"] = some "lib.go" := by decide +kernel

/-- Folders of one name at several places, one of them without Go files. -/
def utilsFolders : List String :=
  ["main.go", "utils/a.go", "repo/pkg/utils/notes.md", "pkg/utils/b.go", "lib/pkg/utils/c.go"]

/-- Of the folders with the same last step, one with the same last two steps is found. -/
theorem utils_of_pkg_found :
    byLanguage? .go "main.go" "example.com/repo/pkg/utils" utilsFolders = some "pkg/utils/b.go" ∧
      (∃ run, run <:+ Path.steps "example.com/repo/pkg/utils".toList ∧ run ≠ [] ∧
        Path.EndsIn (Path.folder "pkg/utils/b.go".toList) run ∧
        ∀ g ∈ utilsFolders, IsGoFile g →
          ∀ other, other <:+ Path.steps "example.com/repo/pkg/utils".toList →
            Path.EndsIn (Path.folder g.toList) other → other.length ≤ run.length) ∧
      ∀ f ∈ utilsFolders, IsGoFile f → ∀ run, run <:+ Path.steps "net/http".toList → run ≠ [] →
        ¬ Path.EndsIn (Path.folder f.toList) run := by
  have hview : byLanguage? .go "main.go" "example.com/repo/pkg/utils" utilsFolders =
        some "pkg/utils/b.go" ∧
      byLanguage? .go "main.go" "net/http" utilsFolders = none := by decide +kernel
  obtain ⟨hfound, hmissed⟩ := hview
  have hlaw := goFile_of_longest_run (by decide : "example.com/repo/pkg/utils" ≠ "") "main.go"
    utilsFolders
  have hnone := goFile_of_longest_run (by decide : "net/http" ≠ "") "main.go" utilsFolders
  obtain ⟨-, -, hlongest⟩ := hlaw.2 _ hfound
  exact ⟨hfound, hlongest, hnone.1.1 hmissed⟩

end Resolve

end SourceAtlas
