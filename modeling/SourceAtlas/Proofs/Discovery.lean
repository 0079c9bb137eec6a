import SourceAtlas.Proofs.Consistency

/-!
# Which files a search finds

`mem_discover_iff` says what the settings take from a tree. Only a double dot in a glob can lead to
one file in two ways: settings without any are straight, and a search by straight settings shows
every file under its own path (`shown_eq_key`), so that it finds no file again
(`again_taken_of_straight`). With double dots, too, the steps by which a file was found tell which
file it is (`key_eq_of_shown`).
-/

set_option autoImplicit false

namespace SourceAtlas

open FileTree SourceAtlas.Path Text

variable {name path : String}

/-! ## Spots that are shown under their paths -/

namespace Glob

/-- The steps by which the spot was found are names, and they make up its path. -/
def Spot.Straight (s : Spot) : Prop :=
  ∃ names : List (List Char), (∀ n ∈ names, Path.IsName n) ∧ s.shown = names.map String.ofList ∧
    s.path = String.ofList (ofSteps names)

/-- A plain step holds a text that can stand between two slashes. -/
def WholeStep : GlobStep → Prop
  | .plain name => name.toList ≠ [] ∧ '/' ∉ name.toList
  | _ => True

/-- The step is not a way back. -/
def StraightStep : GlobStep → Prop
  | .plain name => name.toList ≠ [] ∧ '/' ∉ name.toList ∧ name ≠ ".."
  | _ => True

theorem ofSteps_eq_nil_iff {names : List (List Char)} (h : ∀ n ∈ names, Path.IsName n) :
    ofSteps names = [] ↔ names = [] := by
  constructor
  · intro hnil
    cases names with
    | nil => rfl
    | cons n names =>
      have hsteps := steps_ofSteps (by simp) (leadsOn_of_isName h)
      rw [hnil] at hsteps
      have hn : n = [] := by
        have := congrArg List.head? hsteps
        simpa [steps, splitOn, splitWhere_nil] using this.symm
      exact absurd hn (h n List.mem_cons_self).1
  · rintro rfl
    rfl

/-- The path of something in a folder whose path is made up of names. -/
theorem toList_child {names : List (List Char)} (h : ∀ n ∈ names, Path.IsName n)
    (name : String) :
    (child (String.ofList (ofSteps names)) name).toList =
      ofSteps (names ++ [name.toList]) := by
  by_cases hnames : names = []
  · subst hnames
    simp [child, ofSteps]
  · have hne : ofSteps names ≠ [] := fun hnil => hnames ((ofSteps_eq_nil_iff h).1 hnil)
    have hempty : (String.ofList (ofSteps names)).isEmpty = false := by
      rw [Bool.eq_false_iff, ne_eq, String.isEmpty_iff, ← String.toList_eq_nil_iff]
      simpa using hne
    rw [child, hempty, ofSteps_append hnames (by simp)]
    simp [ofSteps]

theorem Spot.Straight.enter {s : Spot} (h : s.Straight) (hname : Path.IsName name.toList) :
    (s.enter name).Straight := by
  obtain ⟨names, hnames, hshown, hpath⟩ := h
  refine ⟨names ++ [name.toList], ?_, ?_, ?_⟩
  · exact List.forall_mem_append.2 ⟨hnames, List.forall_mem_singleton.2 hname⟩
  · simp [Spot.enter, hshown]
  · rw [← String.toList_inj, Spot.enter, hpath, toList_child hnames]
    simp

/-- A straight spot is shown under its path. -/
theorem Spot.Straight.shown_eq {s : Spot} (h : s.Straight) : "/".intercalate s.shown = s.path := by
  obtain ⟨names, hnames, hshown, hpath⟩ := h
  rw [hshown, hpath, ← String.toList_inj]
  simp [ofSteps, join, Function.comp_def]

end Glob

namespace FileTree

/-- What lies directly in a folder has a name, the last step of its path. -/
theorem childName?_mem_steps {folder : String} (h : childName? folder path = some name) :
    name.toList ∈ steps path.toList := by
  unfold childName? at h
  by_cases hmem : '/' ∈ path.toList
  · obtain ⟨front, last, hpath, hlast⟩ := exists_last_sep hmem
    rw [hpath, cutLast?_append hlast] at h
    simp only [Option.ite_none_right_eq_some, Option.some.injEq] at h
    rw [← h.2, hpath, steps, splitOn_append_sep, splitOn_of_not_mem hlast]
    simp
  · rw [cutLast?_of_not_mem hmem] at h
    simp only [Option.ite_none_right_eq_some, Option.some.injEq] at h
    rw [← h.2, steps, splitOn_of_not_mem hmem]
    exact List.mem_singleton_self _

theorem isName_of_mem_entries {tree : FileTree} (htree : tree.Proper) {folder : String}
    {e : String × Bool} (h : e ∈ tree.entries folder) : Path.IsName e.1.toList := by
  simp only [entries, List.mem_append, List.mem_filterMap, Option.map_eq_some_iff] at h
  rcases h with ⟨path, hpath, name, hname, rfl⟩ | ⟨path, hpath, name, hname, rfl⟩
  · exact htree.folders path hpath _ (childName?_mem_steps hname)
  · exact htree.files path hpath _ (childName?_mem_steps hname)

end FileTree

/-! ## Straight globs -/

namespace Glob

variable {tree : FileTree} {s : Spot} {glob : Glob} {names : List (List Char)} {folder : String}
variable {text : List Char}

/-- The steps from a folder to one below it are the rest of the other's steps. -/
theorem steps_of_isBelow (h : ∀ n ∈ names, Path.IsName n)
    (hbelow : names = [] ∨ isBelow (String.ofList (ofSteps names)) folder = true)
    (hproper : Path.Proper folder) :
    ∃ more, steps folder.toList = names ++ more ∧
      stepsBelow (String.ofList (ofSteps names)) folder = more.map String.ofList := by
  by_cases hnames : names = []
  · subst hnames
    have hne : folder.toList ≠ [] := by
      intro hnil
      have hmem : [] ∈ steps folder.toList := by rw [hnil]; decide
      exact (hproper [] hmem).1 rfl
    exact ⟨steps folder.toList, rfl, by simp [stepsBelow, ofSteps, hne]⟩
  -- A folder below another starts with its path and a slash.
  · obtain ⟨rest, hrest⟩ : ∃ rest, ofSteps names ++ '/' :: rest = folder.toList := by
      rcases hbelow with hnil | hbelow
      · exact absurd hnil hnames
      · simpa [isBelow, startsWith, List.isPrefixOf_iff_prefix, List.IsPrefix]
          using hbelow
    have hsteps : steps folder.toList = names ++ steps rest := by
      rw [← hrest, steps, splitOn_append_sep, ← steps,
        steps_ofSteps hnames (leadsOn_of_isName h), ← steps]
    have hne : rest ≠ [] := by
      rintro rfl
      have hmem : [] ∈ steps folder.toList := by
        rw [hsteps]
        exact List.mem_append_right _ (by decide)
      exact (hproper [] hmem).1 rfl
    refine ⟨steps rest, hsteps, ?_⟩
    have hempty : (String.ofList (ofSteps names)).isEmpty = false := by
      rw [Bool.eq_false_iff, ne_eq, String.isEmpty_iff, ← String.toList_eq_nil_iff]
      simpa [ofSteps_eq_nil_iff h] using hnames
    have hdrop : folder.toList.drop ((ofSteps names).length + 1) = rest := by
      rw [← hrest, ← List.drop_drop]
      simp
    simp [stepsBelow, hempty, hdrop, hne]

/-- A folder from a place on is that place or lies below it: its path goes on from the path of the
place by names. -/
theorem exists_steps_of_mem_foldersFrom (htree : tree.Proper) (hnames : ∀ n ∈ names, Path.IsName n)
    (h : folder ∈ tree.foldersFrom (String.ofList (ofSteps names))) :
    ∃ more, (∀ n ∈ more, Path.IsName n) ∧
      folder = String.ofList (ofSteps (names ++ more)) ∧
      stepsBelow (String.ofList (ofSteps names)) folder = more.map String.ofList := by
  rw [foldersFrom, List.mem_cons, List.mem_filter] at h
  rcases h with rfl | ⟨hmem, hbelow⟩
  · have hself : stepsBelow (String.ofList (ofSteps names))
        (String.ofList (ofSteps names)) = [] := by
      by_cases hnil : ofSteps names = [] <;> simp [stepsBelow, hnil]
    exact ⟨[], by simp, by simp, by simp [hself]⟩
  · have hproper := htree.folders folder hmem
    have hcases : names = [] ∨
        isBelow (String.ofList (ofSteps names)) folder = true := by
      simpa [String.isEmpty_iff, ← String.toList_eq_nil_iff, ofSteps_eq_nil_iff hnames] using hbelow
    obtain ⟨more, hsteps, hmore⟩ := steps_of_isBelow hnames hcases hproper
    refine ⟨more, fun n hn => hproper n (by simp [hsteps, hn]), ?_, hmore⟩
    rw [← hsteps, ofSteps_steps, String.ofList_toList]

/-- The folders from a straight spot on are straight spots. -/
theorem straight_of_mem_foldersFrom (htree : tree.Proper) (hs : s.Straight)
    (h : folder ∈ tree.foldersFrom s.path) :
    (⟨folder, s.shown ++ stepsBelow s.path folder⟩ : Spot).Straight := by
  obtain ⟨names, hnames, hshown, hpath⟩ := hs
  obtain ⟨more, hmore, hfolder, hbelow⟩ :=
    exists_steps_of_mem_foldersFrom htree hnames (hpath ▸ h)
  refine ⟨names ++ more, ?_, by rw [hpath, hbelow, hshown, List.map_append], hfolder⟩
  exact List.forall_mem_append.2 ⟨hnames, hmore⟩

/-- Where a plain step leads in the tree, there is a name. -/
theorem isName_of_enter (htree : tree.Proper) (hnames : ∀ n ∈ names, Path.IsName n)
    (hpath : s.path = String.ofList (ofSteps names)) (hstep : WholeStep (.plain name))
    (h : tree.isFolder (s.enter name).path = true ∨ tree.files.has (s.enter name).path = true) :
    Path.IsName name.toList := by
  have hchild : (s.enter name).path.toList = ofSteps (names ++ [name.toList]) := by
    rw [Spot.enter, hpath, toList_child hnames]
  have hsteps : steps (s.enter name).path.toList = names ++ [name.toList] := by
    rw [hchild]
    refine splitOn_join (by simp) fun n hn => ?_
    rcases List.mem_append.1 hn with hn | hn
    · exact (hnames n hn).2.2.2.1
    · rw [List.mem_singleton.1 hn]
      exact hstep.2
  -- The root itself is no folder with a name: its steps would end in an empty one.
  have hproper : Path.Proper (s.enter name).path := by
    rcases h with h | h
    · rw [isFolder, Bool.or_eq_true, String.isEmpty_iff, List.contains_iff_mem] at h
      rcases h with h | h
      · rw [h] at hsteps
        have hlast := congrArg List.getLast? hsteps
        simp [steps, splitOn, splitWhere_nil] at hlast
        exact absurd hlast (by simpa using hstep.1)
      · exact htree.folders _ h
    · exact htree.files _ (Assoc.has_iff_mem_keys.1 h)
  exact hproper _ (by rw [hsteps]; simp)

/-- What steps by names, ways to folders below and plain steps keep, a glob keeps. -/
theorem select_induction (htree : tree.Proper) {Kept : Spot → Prop}
    (henter : ∀ {s name}, Kept s → Path.IsName name.toList → Kept (s.enter name))
    (hbelow : ∀ {s folder}, Kept s → folder ∈ tree.foldersFrom s.path →
      Kept ⟨folder, s.shown ++ stepsBelow s.path folder⟩)
    (htoward : ∀ name, GlobStep.plain name ∈ glob → ∀ {s next}, Kept s →
      s.toward? name = some next →
      tree.isFolder next.path = true ∨ tree.files.has next.path = true → Kept next)
    (hs : Kept s) : ∀ t ∈ select tree glob s, Kept t := by
  induction glob generalizing s with
  | nil =>
    intro t ht
    rw [select, List.mem_singleton] at ht
    rwa [ht]
  | cons g rest ih =>
    have hrest : ∀ {s}, Kept s → ∀ t ∈ select tree rest s, Kept t :=
      ih fun name hname => htoward name (List.mem_cons_of_mem _ hname)
    intro t ht
    cases g with
    | folderOnly =>
      rw [select, List.mem_singleton] at ht
      rwa [ht]
    | folders =>
      rw [select, List.mem_flatMap] at ht
      obtain ⟨folder, hfolder, ht⟩ := ht
      exact hrest (hbelow hs hfolder) t ht
    | wild w =>
      simp only [select, List.mem_flatMap, List.mem_filter] at ht
      obtain ⟨e, ⟨he, -⟩, ht⟩ := ht
      exact hrest (henter hs (isName_of_mem_entries htree he)) t ht
    | plain name =>
      cases hnext : s.toward? name with
      | none => simp [select, hnext] at ht
      | some next =>
        -- A plain step goes on from a folder, and ends at a file.
        have hkept := htoward name List.mem_cons_self hs hnext
        simp only [select, hnext] at ht
        split at ht
        · rename_i hfolder
          exact hrest (hkept (Or.inl hfolder)) t ht
        · split at ht
          · rename_i hfile
            rw [Bool.and_eq_true] at hfile
            rw [List.mem_singleton.1 ht]
            exact hkept (Or.inr hfile.2)
          · cases ht

/-- Straight steps lead from a straight spot to straight spots only. -/
theorem straight_select (htree : tree.Proper) (hglob : ∀ g ∈ glob, StraightStep g)
    (hs : s.Straight) : ∀ t ∈ select tree glob s, t.Straight := by
  refine select_induction htree (fun hs => hs.enter)
    (fun hs => straight_of_mem_foldersFrom htree hs) ?_ hs
  intro name hmem s next hs hnext hthere
  obtain ⟨hne, hslash, hdots⟩ := hglob _ hmem
  -- Only a plain step could turn back, and a straight one has no double dots.
  rw [Spot.toward?, if_neg (by simpa using hdots)] at hnext
  cases hnext
  obtain ⟨names, hnames, -, hpath⟩ := id hs
  exact hs.enter (isName_of_enter htree hnames hpath ⟨hne, hslash⟩ hthere)

theorem eq_toList_of_step {p : List Char} (h : step p = .ok (.plain name)) :
    p = name.toList := by
  unfold step at h
  repeat' split at h
  all_goals cases h
  simp

theorem wholeStep_of_step {p : List Char} {g : GlobStep} (h : step p = .ok g) (hne : p ≠ [])
    (hslash : '/' ∉ p) : WholeStep g := by
  unfold step at h
  split at h
  · cases h
    trivial
  split at h
  · cases h
  split at h
  · cases h
    trivial
  cases h
  exact ⟨by simpa using hne, by simpa using hslash⟩

/-- The steps of a glob are what stands between the slashes of its text, and perhaps a last one that
stays where it is. -/
theorem exists_part_of_ofText (h : ofText text = .ok glob) {g : GlobStep} (hg : g ∈ glob) :
    g = .folderOnly ∨ ∃ p ∈ steps text, p ≠ [] ∧ step p = .ok g := by
  unfold ofText at h
  split at h
  · cases h
  split at h
  · cases h
  simp only at h
  split at h
  · cases h
  cases hparts : ((steps text).filter fun s => !s.isEmpty && s != ['.']).mapM step with
  | error e => simp [hparts] at h
  | ok parts =>
    have hpart : g ∈ parts → ∃ p ∈ steps text, p ≠ [] ∧ step p = .ok g := by
      intro hg
      obtain ⟨p, hp, hstep⟩ := (mem_iff_of_mapM_eq_ok hparts).1 hg
      rw [List.mem_filter] at hp
      have hne : p ≠ [] := by
        rintro rfl
        simp at hp
      exact ⟨p, hp.1, hne, hstep⟩
    -- A slash at the end adds the step that stays.
    simp only [hparts, Except.ok.injEq] at h
    rw [← h] at hg
    split at hg
    · rcases List.mem_append.1 hg with hg | hg
      · exact Or.inr (hpart hg)
      · exact Or.inl (List.mem_singleton.1 hg)
    · exact Or.inr (hpart hg)

/-- A text without double dots between its slashes has straight steps only. -/
theorem straightStep_of_ofText (h : ofText text = .ok glob) (hdots : ['.', '.'] ∉ steps text) :
    ∀ g ∈ glob, StraightStep g := by
  intro g hg
  rcases exists_part_of_ofText h hg with rfl | ⟨p, hp, hne, hstep⟩
  · trivial
  have hwhole := wholeStep_of_step hstep hne (not_mem_of_mem_splitOn hp)
  cases g with
  | folders => trivial
  | wild w => trivial
  | folderOnly => trivial
  | plain name =>
    refine ⟨hwhole.1, hwhole.2, ?_⟩
    rintro rfl
    rw [eq_toList_of_step hstep] at hp
    exact hdots (by simpa using hp)

/-! ## Spots that are known by how they are shown -/

theorem wholeStep_of_ofText (h : ofText text = .ok glob) :
    ∀ g ∈ glob, WholeStep g := by
  intro g hg
  rcases exists_part_of_ofText h hg with rfl | ⟨p, hp, hne, hstep⟩
  · trivial
  · exact wholeStep_of_step hstep hne (not_mem_of_mem_splitOn hp)

/-- The path of the spot is made up of names, namely of what the steps by which it was found come to
when every double dot takes the step before it back. -/
def Spot.Spelled (s : Spot) : Prop :=
  ∃ names : List (List Char), (∀ n ∈ names, Path.IsName n) ∧
    s.path = String.ofList (ofSteps names) ∧ (∀ t ∈ s.shown, '/' ∉ t.toList) ∧
    reduce true [] (s.shown.map String.toList) = names

theorem spelled_start : Spot.Spelled ⟨"", []⟩ := ⟨[], by simp, rfl, by simp, rfl⟩

/-- Going on by names, from a spot that is spelled. -/
theorem Spot.Spelled.onward {names more : List (List Char)} (hnames : ∀ n ∈ names, Path.IsName n)
    (hshown : ∀ t ∈ s.shown, '/' ∉ t.toList)
    (hreduce : reduce true [] (s.shown.map String.toList) = names)
    (hmore : ∀ n ∈ more, Path.IsName n)
    (hpath : path = String.ofList (ofSteps (names ++ more))) :
    (⟨path, s.shown ++ more.map String.ofList⟩ : Spot).Spelled := by
  refine ⟨names ++ more, ?_, hpath, ?_, ?_⟩
  · exact List.forall_mem_append.2 ⟨hnames, hmore⟩
  · intro t ht
    rcases List.mem_append.1 ht with ht | ht
    · exact hshown t ht
    · obtain ⟨n, hn, rfl⟩ := List.mem_map.1 ht
      simpa using (hmore n hn).2.2.2.1
  · have hback : (more.map String.ofList).map String.toList = more := by
      simp [Function.comp_def]
    rw [List.map_append, reduce_append, hreduce, hback,
      reduce_leadsOn (leadsOn_of_isName hmore), List.reverse_reverse]

theorem Spot.Spelled.enter (h : s.Spelled) (hname : Path.IsName name.toList) :
    (s.enter name).Spelled := by
  obtain ⟨names, hnames, hpath, hshown, hreduce⟩ := h
  have hchild : child s.path name =
      String.ofList (ofSteps (names ++ [name.toList])) := by
    rw [← String.toList_inj, hpath, toList_child hnames]
    simp
  have hone : ∀ n ∈ [name.toList], Path.IsName n := by simpa using hname
  have hnext := onward hnames hshown hreduce hone hchild
  simpa [Spot.enter] using hnext

/-- A double dot leads back to the folder around. -/
theorem Spot.Spelled.back (h : s.Spelled) :
    (⟨String.ofList (Path.folder s.path.toList), s.shown ++ [".."]⟩ : Spot).Spelled := by
  obtain ⟨names, hnames, hpath, hshown, hreduce⟩ := h
  refine ⟨names.dropLast, ?_, ?_, ?_, ?_⟩
  · intro n hn
    exact hnames n ((List.dropLast_sublist names).subset hn)
  · rw [hpath, String.toList_ofList, folder_ofSteps hnames]
  · exact List.forall_mem_append.2 ⟨hshown, List.forall_mem_singleton.2 (by decide)⟩
  · rw [List.map_append, reduce_append, hreduce]
    exact reduce_dots hnames

/-- The folders from a spelled spot on are spelled. -/
theorem Spot.Spelled.below (htree : tree.Proper) (h : s.Spelled)
    (hfolder : folder ∈ tree.foldersFrom s.path) :
    (⟨folder, s.shown ++ stepsBelow s.path folder⟩ : Spot).Spelled := by
  obtain ⟨names, hnames, hpath, hshown, hreduce⟩ := h
  obtain ⟨more, hmore, hsteps, hbelow⟩ :=
    exists_steps_of_mem_foldersFrom htree hnames (hpath ▸ hfolder)
  rw [hpath, hbelow]
  exact onward hnames hshown hreduce hmore hsteps

/-- Everything that a glob leads to from a spelled spot is spelled. -/
theorem spelled_select (htree : tree.Proper) (hglob : ∀ g ∈ glob, WholeStep g) (hs : s.Spelled) :
    ∀ t ∈ select tree glob s, t.Spelled := by
  refine select_induction htree (fun hs => hs.enter) (fun hs => hs.below htree) ?_ hs
  intro name hmem s next hs hnext hthere
  -- A plain step is a way back, or leads to a place of its name.
  unfold Spot.toward? at hnext
  split at hnext
  · rename_i hdots
    split at hnext
    · cases hnext
    · cases hnext
      rw [beq_iff_eq.1 hdots]
      exact hs.back
  · cases hnext
    obtain ⟨names, hnames, hpath, -⟩ := id hs
    exact hs.enter (isName_of_enter htree hnames hpath (hglob _ hmem) hthere)

/-- A spelled spot is known by how it is shown. -/
theorem Spot.Spelled.path_eq (h : s.Spelled) (hne : s.path ≠ "") :
    s.path = String.ofList (ofSteps
      (reduce true [] (steps ("/".intercalate s.shown).toList))) := by
  obtain ⟨names, hnames, hpath, hshown, hreduce⟩ := h
  have hsome : s.shown.map String.toList ≠ [] := by
    intro hnil
    rw [hnil] at hreduce
    rw [hpath, ← hreduce] at hne
    exact hne rfl
  have hsteps : steps ("/".intercalate s.shown).toList = s.shown.map String.toList := by
    have hjoin : ("/".intercalate s.shown).toList =
        join ['/'] (s.shown.map String.toList) := by
      simp [join]
    rw [hjoin]
    refine splitOn_join hsome fun t ht => ?_
    obtain ⟨u, hu, rfl⟩ := List.mem_map.1 ht
    exact hshown u hu
  rw [hsteps, hreduce, hpath]

end Glob

/-! ## What a search finds -/

namespace Settings

variable {settings : Settings} {tree : FileTree}

/-- The file is there, within the size, and no pattern leaves it out. -/
def Takes (s : Settings) (tree : FileTree) (path : String) : Prop :=
  s.isExcluded path = false ∧
    ∃ bytes, tree.files.get? path = some bytes ∧ (bytes.length : Int) ≤ s.maxSize

variable {found : List Discovered} {d : Discovered}

theorem mem_globbed_iff {pattern : String} (h : settings.globbed tree pattern = .ok found) :
    d ∈ found ↔ ∃ glob, Glob.ofText pattern.toList = .ok glob ∧
      ∃ spot ∈ Glob.select tree glob ⟨"", []⟩, settings.Takes tree spot.path ∧
        d = discovered spot := by
  simp only [globbed, bind, pure, Except.bind, Except.pure] at h
  cases hglob : Glob.ofText pattern.toList with
  | error e => simp [hglob] at h
  | ok glob =>
    simp only [hglob, Except.ok.injEq] at h
    rw [← h]
    simp only [List.mem_map, List.mem_filter, Glob.files, Except.ok.injEq, exists_eq_left',
      Bool.and_eq_true, Bool.not_eq_true', Option.any_eq_true, decide_eq_true_eq]
    constructor
    · rintro ⟨spot, ⟨⟨hspot, -⟩, hexcluded, bytes, hbytes, hsize⟩, rfl⟩
      exact ⟨spot, hspot, ⟨hexcluded, bytes, hbytes, hsize⟩, rfl⟩
    · rintro ⟨spot, hspot, ⟨hexcluded, bytes, hbytes, hsize⟩, rfl⟩
      exact ⟨spot, ⟨⟨hspot, Assoc.has_iff_exists.2 ⟨bytes, hbytes⟩⟩, hexcluded, bytes, hbytes,
        hsize⟩, rfl⟩

/-- A search collects what its globs find, drops what was found again in the same way, and puts the
rest in order. -/
theorem exists_lists_of_discover (h : settings.discover tree = .ok found) :
    ∃ lists, settings.includes.mapM (settings.globbed tree) = .ok lists ∧
      found = lists.flatten.eraseDups.mergeSort fun a b => a.shown ≤ b.shown := by
  simp only [discover, bind, pure, Except.bind, Except.pure] at h
  cases hall : settings.includes.mapM (settings.globbed tree) with
  | error e => simp [hall] at h
  | ok lists =>
    simp only [hall, Except.ok.injEq] at h
    exact ⟨lists, rfl, h.symm⟩

/-- A search fails only if one of the patterns is no glob. -/
theorem exists_discover_iff :
    (∃ found, settings.discover tree = .ok found) ↔
      ∀ pattern ∈ settings.includes, ∃ glob, Glob.ofText pattern.toList = .ok glob := by
  have hglobbed : ∀ pattern, (∃ list, settings.globbed tree pattern = .ok list) ↔
      ∃ glob, Glob.ofText pattern.toList = .ok glob := by
    intro pattern
    cases hglob : Glob.ofText pattern.toList <;>
      simp [globbed, hglob, bind, pure, Except.bind, Except.pure]
  constructor
  · rintro ⟨found, h⟩ pattern hpattern
    obtain ⟨lists, hlists, -⟩ := exists_lists_of_discover h
    exact (hglobbed pattern).1 (exists_of_mapM_eq_ok hlists pattern hpattern)
  · intro hglobs
    obtain ⟨lists, hlists⟩ := exists_mapM_eq_ok fun pattern hpattern =>
      (hglobbed pattern).2 (hglobs pattern hpattern)
    simp [discover, hlists, bind, pure, Except.bind, Except.pure]

/-- What the settings take from a tree: whatever one of the globs leads to and they take. -/
theorem mem_discover_iff (h : settings.discover tree = .ok found) :
    d ∈ found ↔ ∃ pattern ∈ settings.includes, ∃ glob, Glob.ofText pattern.toList = .ok glob ∧
      ∃ spot ∈ Glob.select tree glob ⟨"", []⟩, settings.Takes tree spot.path ∧
        d = discovered spot := by
  obtain ⟨lists, hall, rfl⟩ := exists_lists_of_discover h
  rw [List.mem_mergeSort, List.mem_eraseDups, List.mem_flatten]
  simp only [mem_iff_of_mapM_eq_ok hall]
  constructor
  · rintro ⟨list, ⟨pattern, hpattern, hlist⟩, hd⟩
    exact ⟨pattern, hpattern, (mem_globbed_iff hlist).1 hd⟩
  · rintro ⟨pattern, hpattern, hd⟩
    -- No glob failed, so this one has a list of its own.
    obtain ⟨list, hlist⟩ : ∃ list, settings.globbed tree pattern = .ok list := by
      obtain ⟨glob, hglob, -⟩ := hd
      simp [globbed, hglob, bind, pure, Except.bind, Except.pure]
    exact ⟨list, ⟨pattern, hpattern, hlist⟩, (mem_globbed_iff hlist).2 hd⟩

theorem nodup_discover (h : settings.discover tree = .ok found) : found.Nodup := by
  obtain ⟨lists, -, rfl⟩ := exists_lists_of_discover h
  exact (List.mergeSort_perm _ _).nodup_iff.2 (nodup_eraseDups _)

/-- The globs, one after the other, find these files in the order of their spellings. -/
def Finds (settings : Settings) (tree : FileTree) (found : List Discovered) : Prop :=
  (settings.includes.mapM (settings.globbed tree)).map (·.flatten.eraseDups) = .ok found ∧
    found.Pairwise fun a b => a.shown ≤ b.shown

instance : Decidable (settings.Finds tree found) := inferInstanceAs (Decidable (_ ∧ _))

theorem Finds.discover (h : settings.Finds tree found) : settings.discover tree = .ok found := by
  obtain ⟨hfound, hsorted⟩ := h
  cases hlists : settings.includes.mapM (settings.globbed tree) with
  | error e =>
    rw [hlists] at hfound
    cases hfound
  | ok lists =>
    rw [hlists] at hfound
    cases hfound
    simp only [Settings.discover, hlists, bind, pure, Except.bind, Except.pure]
    rw [List.mergeSort_of_pairwise (by simpa using hsorted)]

/-- No glob for the files to take has a double dot between its slashes. -/
def Straight (s : Settings) : Prop := ∀ pattern ∈ s.includes, ['.', '.'] ∉ steps pattern.toList

instance (s : Settings) : Decidable s.Straight := by
  unfold Straight
  infer_instance

/-- A file that a search finds is the one that its spelling comes to. -/
theorem key_eq_of_shown (htree : tree.Proper) (h : settings.discover tree = .ok found)
    (hd : d ∈ found) :
    d.key = String.ofList (ofSteps (reduce true [] (steps d.shown.toList))) := by
  obtain ⟨pattern, -, glob, hglob, spot, hspot, ⟨-, bytes, hbytes, -⟩, rfl⟩ :=
    (mem_discover_iff h).1 hd
  have hspelled := Glob.spelled_select htree (Glob.wholeStep_of_ofText hglob) Glob.spelled_start
    spot hspot
  apply hspelled.path_eq
  -- The root is no file.
  intro hempty
  have hproper := htree.files spot.path (Assoc.mem_keys_iff.2 ⟨bytes, hbytes⟩)
  rw [hempty] at hproper
  exact absurd hproper (by decide)

/-- No two files of a search are shown alike. -/
theorem eq_of_shown_eq (htree : tree.Proper) (h : settings.discover tree = .ok found)
    {d e : Discovered} (hd : d ∈ found) (he : e ∈ found) (hshown : d.shown = e.shown) : d = e := by
  have hkey : d.key = e.key := by
    rw [key_eq_of_shown htree h hd, key_eq_of_shown htree h he, hshown]
  obtain ⟨shown, key⟩ := d
  obtain ⟨shown', key'⟩ := e
  rw [Discovered.mk.injEq]
  exact ⟨hshown, hkey⟩

/-- A search by straight settings shows every file under its own path. -/
theorem shown_eq_key (hstraight : settings.Straight) (htree : tree.Proper)
    (h : settings.discover tree = .ok found) (hd : d ∈ found) : d.shown = d.key := by
  obtain ⟨pattern, hpattern, glob, hglob, spot, hspot, -, rfl⟩ := (mem_discover_iff h).1 hd
  have hsteps := Glob.straightStep_of_ofText hglob (hstraight pattern hpattern)
  have hstart : Glob.Spot.Straight ⟨"", []⟩ := ⟨[], by simp, rfl, rfl⟩
  exact (Glob.straight_select htree hsteps hstart spot hspot).shown_eq

end Settings

/-- A search by straight settings finds no file again. -/
theorem again_taken_of_straight {settings : Settings} {tree : FileTree}
    (hstraight : settings.Straight) (htree : tree.Proper) :
    Assoc.again [] (Index.taken settings tree) = [] := by
  refine Assoc.again_of_nodup ?_
  rw [List.nil_append, Index.taken]
  cases hfound : settings.discover tree with
  | error e => simp
  | ok found =>
    cases hpairs : Index.outlines tree found with
    | error e => simp [hpairs, Except.toOption]
    | ok pairs =>
      simp only [hpairs, Except.toOption, Option.getD_some, (Index.outlines_eq_ok hpairs).1]
      refine List.Nodup.map_on ?_ (Settings.nodup_discover hfound)
      rintro ⟨shown, key⟩ hd ⟨shown', key'⟩ he rfl
      have hd' := Settings.shown_eq_key hstraight htree hfound hd
      have he' := Settings.shown_eq_key hstraight htree hfound he
      rw [Settings.Discovered.mk.injEq]
      exact ⟨hd'.trans he'.symm, rfl⟩

/-- The files of a new index are files of the tree, each with the outline of its bytes. -/
theorem Index.file_of_ofTree {root : String} {settings : Settings} {tree : FileTree} {index : Index}
    (h : ofTree root settings tree = .ok index) {o : Outline}
    (ho : index.files.get? path = some o) :
    ∃ bytes, tree.files.get? path = some bytes ∧ Outline.ofBytes bytes path = .ok o := by
  obtain ⟨found, hfound, houtlines, rfl⟩ := ofTree_eq_ok h
  have hmem : (path, o) ∈ taken settings tree := Assoc.mem_of_get?_ofPairs ho
  have hkey : path ∈ found.map Settings.Discovered.key := by
    rw [← (outlines_eq_ok houtlines).1]
    exact List.mem_map_of_mem hmem
  obtain ⟨d, hd, rfl⟩ := List.mem_map.1 hkey
  obtain ⟨-, -, -, -, spot, -, ⟨-, bytes, hbytes, -⟩, rfl⟩ :=
    (Settings.mem_discover_iff hfound).1 hd
  have hread := ofBytes_of_mem_taken hmem
  rw [show (Settings.discovered spot).key = spot.path from rfl] at hread ⊢
  rw [hbytes] at hread
  exact ⟨bytes, hbytes, hread⟩

/-- The index of files that come in order. -/
theorem Settings.Finds.ofTree {settings : Settings} {tree : FileTree} {found : List Discovered}
    (h : settings.Finds tree found) (hread : (Index.outlines tree found).toOption.isSome = true)
    (root : String) :
    Index.ofTree root settings tree =
      .ok (.ofOutlines root ((Index.outlines tree found).toOption.getD [])) := by
  cases hpairs : Index.outlines tree found with
  | error e => simp [hpairs, Except.toOption] at hread
  | ok pairs =>
    simp [Index.ofTree, h.discover, hpairs, bind, pure, Except.bind, Except.pure,
      Except.mapError, Except.toOption]

end SourceAtlas
