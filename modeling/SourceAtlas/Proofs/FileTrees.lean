import SourceAtlas.Index.Update
import SourceAtlas.Proofs.Cutting
import SourceAtlas.Proofs.Tables

/-!
# Paths in a file tree

A path is proper when each of its steps is a name that a file or a folder can have. For a project at
a proper root, a proper path stands for itself (`key_of_proper`) and leads to the file of that name
if there is one (`locate?_of_proper`, `read?_of_proper`). A tree is proper when its paths are and
every file lies in folders of the tree. Whatever a path looks like, a file that it leads to in a
proper tree is the one that it stands for (`key_of_locate?`).
-/

set_option autoImplicit false

namespace SourceAtlas

open SourceAtlas.Path

namespace Path

open SourceAtlas.Text

variable {path : String}

/-- A name that a file or a folder can have. -/
def IsName (s : List Char) : Prop :=
  s ≠ [] ∧ s ≠ ['.'] ∧ s ≠ ['.', '.'] ∧ '/' ∉ s ∧ '\x00' ∉ s

instance (s : List Char) : Decidable (IsName s) := by
  unfold IsName
  infer_instance

/-- Every step of the path is a name. -/
def Proper (path : String) : Prop := ∀ s ∈ steps path.toList, IsName s

instance (path : String) : Decidable (Proper path) := by
  unfold Proper
  infer_instance

/-- An absolute path without detours, as the root of a project is. -/
def IsRoot (root : String) : Prop :=
  ∃ names, (∀ s ∈ names, IsName s) ∧ root.toList = '/' :: ofSteps names

theorem isRoot_project : IsRoot "/project" := ⟨["project".toList], by decide, rfl⟩

/-- A step of a path without detours: a name, but for null characters. -/
def LeadsOn (s : List Char) : Prop := s ≠ [] ∧ s ≠ ['.'] ∧ s ≠ ['.', '.'] ∧ '/' ∉ s

variable {names : List (List Char)}

theorem leadsOn_of_isName (h : ∀ s ∈ names, IsName s) : ∀ s ∈ names, LeadsOn s := by
  intro s hs
  obtain ⟨hnil, hdot, hdots, hslash, -⟩ := h s hs
  exact ⟨hnil, hdot, hdots, hslash⟩

theorem steps_ofSteps (hne : names ≠ []) (h : ∀ s ∈ names, LeadsOn s) :
    steps (ofSteps names) = names :=
  splitOn_join hne fun s hs => (h s hs).2.2.2

theorem ofSteps_steps (p : List Char) : ofSteps (steps p) = p := join_splitOn '/' p

theorem steps_ne_nil (p : List Char) : steps p ≠ [] := splitWhere_ne_nil _ p

theorem ofSteps_append {as bs : List (List Char)} (has : as ≠ []) (hbs : bs ≠ []) :
    ofSteps (as ++ bs) = ofSteps as ++ '/' :: ofSteps bs := by
  rw [ofSteps, join_append _ has hbs, List.append_assoc]
  rfl

theorem steps_slash (p : List Char) : steps ('/' :: p) = [] :: steps p :=
  splitOn_append_sep '/' [] p

/-- A path of several steps is cut at its last slash into that of a folder and a name. -/
theorem Proper.exists_last_step (h : Proper path) (hslash : '/' ∈ path.toList) :
    ∃ front last, path.toList = front ++ '/' :: last ∧ '/' ∉ last ∧ front ≠ [] ∧
      steps path.toList = steps front ++ [last] := by
  obtain ⟨front, last, heq, hlast⟩ := exists_last_sep hslash
  refine ⟨front, last, heq, hlast, ?_, ?_⟩
  -- A path that started with a slash would have an empty first step.
  · rintro rfl
    refine (h [] ?_).1 rfl
    rw [heq, List.nil_append, steps_slash]
    exact List.mem_cons_self
  · rw [heq, steps, splitOn_append_sep, splitOn_of_not_mem hlast, ← steps]

theorem steps_absolute (hne : names ≠ []) (h : ∀ s ∈ names, LeadsOn s) :
    steps ('/' :: ofSteps names) = [] :: names := by
  rw [steps_slash, steps_ofSteps hne h]

/-- Steps that lead on are all kept when a path is reduced. -/
theorem reduce_leadsOn (h : ∀ s ∈ names, LeadsOn s) (done : List (List Char)) :
    reduce true done names = done.reverse ++ names := by
  induction names generalizing done with
  | nil => simp [reduce]
  | cons s names ih =>
    obtain ⟨hnil, hdot, hdots, -⟩ := h s List.mem_cons_self
    have hstep : reduce true done (s :: names) = reduce true (s :: done) names := by
      simp [reduce, hnil, hdot, hdots]
    rw [hstep, ih (List.forall_mem_cons.1 h).2]
    simp

theorem reduce_absolute (h : ∀ s ∈ names, LeadsOn s) :
    reduce true [] (steps ('/' :: ofSteps names)) = names := by
  cases names with
  | nil => rfl
  | cons s names =>
    rw [steps_absolute (by simp) h]
    simpa [reduce] using reduce_leadsOn h []

/-- Steps can be taken one part after the other. -/
theorem reduce_append (done as bs : List (List Char)) :
    reduce true done (as ++ bs) = reduce true (reduce true done as).reverse bs := by
  induction as generalizing done with
  | nil => simp [reduce]
  | cons s as ih =>
    simp only [List.cons_append, reduce]
    split
    · exact ih done
    split
    · cases done with
      | nil => exact ih []
      | cons d ds =>
        simp only
        split
        · exact ih _
        · exact ih ds
    · exact ih _

/-- What is left of an absolute path leads on. -/
theorem leadsOn_of_mem_reduce {done steps : List (List Char)} (hdone : ∀ s ∈ done, LeadsOn s)
    (hsteps : ∀ s ∈ steps, '/' ∉ s) : ∀ s ∈ reduce true done steps, LeadsOn s := by
  induction steps generalizing done with
  | nil =>
    intro s hs
    rw [reduce, List.mem_reverse] at hs
    exact hdone s hs
  | cons t steps ih =>
    have hrest : ∀ s ∈ steps, '/' ∉ s := (List.forall_mem_cons.1 hsteps).2
    simp only [reduce]
    split
    · exact ih hdone hrest
    rename_i hidle
    split
    -- A double dot takes a step back, or stays at the top.
    · cases done with
      | nil => exact ih hdone hrest
      | cons d ds =>
        have hd : (d == ['.', '.']) = false := by simpa using (hdone d List.mem_cons_self).2.2.1
        simp only [hd, Bool.false_eq_true, if_false]
        exact ih (List.forall_mem_cons.1 hdone).2 hrest
    · rename_i hdots
      simp only [Bool.or_eq_true, List.isEmpty_iff, beq_iff_eq, not_or] at hidle hdots
      refine ih ?_ hrest
      intro s hs
      rcases List.mem_cons.1 hs with rfl | hs
      · exact ⟨hidle.1, hidle.2, hdots, hsteps s List.mem_cons_self⟩
      · exact hdone s hs

theorem eq_slash_of_isAbsolute {p : List Char} (h : isAbsolute p = true) :
    ∃ rest, p = '/' :: rest := by
  rw [isAbsolute, startsWith, List.isPrefixOf_iff_prefix] at h
  obtain ⟨rest, hrest⟩ := h
  exact ⟨rest, hrest.symm⟩

/-- An absolute path leads to the same place without its detours. -/
theorem reduce_normalize {p : List Char} (h : isAbsolute p = true) :
    reduce true [] (steps (normalize p)) = reduce true [] (steps p) := by
  have hleads : ∀ s ∈ reduce true [] (steps p), LeadsOn s :=
    leadsOn_of_mem_reduce (by simp) fun s hs => not_mem_of_mem_splitOn hs
  have hleading : leading p = ['/'] ∨ leading p = ['/', '/'] := by
    obtain ⟨rest, rfl⟩ := eq_slash_of_isAbsolute h
    unfold leading
    split
    · rename_i hlength
      simp at hlength
    · exact Or.inr rfl
    · exact Or.inl rfl
  rcases hleading with hone | htwo
  · simp only [normalize, h, hone, List.cons_append, List.nil_append]
    exact reduce_absolute hleads
  · simp only [normalize, h, htwo, List.cons_append, List.nil_append]
    rw [steps_slash]
    simpa [reduce] using reduce_absolute hleads

theorem reduce_dots (h : ∀ n ∈ names, IsName n) :
    reduce true names.reverse [['.', '.']] = names.dropLast := by
  rcases List.eq_nil_or_concat names with rfl | ⟨front, last, rfl⟩
  · rfl
  · have hlast : last ≠ ['.', '.'] := (h last (by simp)).2.2.1
    simp [reduce, hlast]

/-- A path whose last step is a name does not end with a slash. -/
theorem ofSteps_concat_eq (names : List (List Char)) {name : List Char} (h : IsName name) :
    ∃ front c, ofSteps (names ++ [name]) = front ++ [c] ∧ c ≠ '/' := by
  obtain ⟨hname, -, -, hslash, -⟩ := h
  obtain ⟨start, c, rfl⟩ : ∃ start c, name = start ++ [c] := by
    simpa using (List.eq_nil_or_concat name).resolve_left hname
  have hc : c ≠ '/' := by
    rintro rfl
    simp at hslash
  by_cases hnames : names = []
  · exact ⟨start, c, by simp [hnames, ofSteps], hc⟩
  · refine ⟨ofSteps names ++ '/' :: start, c, ?_, hc⟩
    rw [ofSteps_append hnames (by simp)]
    simp [ofSteps]

/-- The folder of a path is made up of all steps but the last. -/
theorem folder_ofSteps (h : ∀ n ∈ names, IsName n) :
    folder (ofSteps names) = ofSteps names.dropLast := by
  rcases List.eq_nil_or_concat names with rfl | ⟨front, last, rfl⟩
  · rfl
  have hlast : '/' ∉ last := (h last (by simp)).2.2.2.1
  rcases List.eq_nil_or_concat front with rfl | ⟨more, name, rfl⟩
  · simp [folder, ofSteps, cutLast?_of_not_mem hlast]
  -- The folder's own path does not end with a slash, so that nothing of it is dropped.
  · obtain ⟨front, c, hfront, hc⟩ := ofSteps_concat_eq more (h name (by simp))
    have hpath : ofSteps (more.concat name ++ [last]) = front ++ [c] ++ '/' :: last := by
      rw [ofSteps_append (by simp) (by simp), List.concat_eq_append, hfront]
      simp [ofSteps]
    rw [List.concat_eq_append, folder, hpath, cutLast?_append hlast]
    simp [dropEndWhile, hc, hfront]

theorem afterCommon_append (as bs : List (List Char)) : afterCommon as (as ++ bs) = ([], bs) := by
  induction as with
  | nil => cases bs <;> rfl
  | cons a as ih => simp [afterCommon, ih]

theorem afterCommon_prefix (as bs : List (List Char)) : afterCommon (as ++ bs) as = (bs, []) := by
  induction as with
  | nil => cases bs <;> rfl
  | cons a as ih => simp [afterCommon, ih]

theorem not_isAbsolute_of_proper (h : Proper path) :
    isAbsolute path.toList = false := by
  cases hp : path.toList with
  | nil => rfl
  | cons c cs =>
    by_cases hc : c = '/'
    · subst hc
      have hmem : [] ∈ steps path.toList := by
        rw [hp, steps_slash]
        exact List.mem_cons_self
      exact absurd rfl (h [] hmem).1
    · simp [isAbsolute, startsWith, List.isPrefixOf]
      exact fun he => hc he.symm

/-- A root with a name in it has no slash at its end. -/
theorem not_endsWith_slash (hne : names ≠ []) (h : ∀ s ∈ names, IsName s) :
    endsWith ['/'] ('/' :: ofSteps names) = false := by
  by_contra hend
  rw [Bool.not_eq_false, endsWith, List.isSuffixOf_iff_suffix] at hend
  obtain ⟨front, hfront⟩ := hend
  have hsteps := steps_absolute hne (leadsOn_of_isName h)
  rw [← hfront, steps, splitOn_append_sep] at hsteps
  have hlast : names.getLast? = some [] := by
    have := congrArg List.getLast? hsteps
    rw [List.getLast?_cons_of_ne_nil hne] at this
    simpa [splitOn, splitWhere_nil] using this.symm
  exact (h [] (List.mem_of_getLast? hlast)).1 rfl

/-- A proper path seen from a proper root. -/
theorem joinTo_root (h : ∀ s ∈ names, IsName s) (hpath : Proper path) :
    joinTo ('/' :: ofSteps names) path.toList = '/' :: ofSteps (names ++ steps path.toList) := by
  have habs := not_isAbsolute_of_proper hpath
  cases names with
  | nil => simp [joinTo, habs, ofSteps, endsWith, List.isSuffixOf, join_splitOn, steps]
  | cons s names =>
    have hend := not_endsWith_slash (by simp) h
    rw [joinTo, habs, hend, ofSteps_append (by simp) (steps_ne_nil _), ofSteps_steps]
    simp

theorem isAbsolute_joinTo {root : String} (h : IsRoot root) (p : List Char) :
    isAbsolute (joinTo root.toList p) = true := by
  obtain ⟨names, -, hr⟩ := h
  rw [hr, joinTo]
  split
  · assumption
  · split <;> simp [isAbsolute, startsWith]

end Path

namespace Project

variable {root path : String}

/-- Seen from the root, a path comes to the place that it stands for. -/
theorem reduce_absolute_path (root path : String) :
    reduce true [] (steps (absolute root path)) =
      reduce true [] (steps (joinTo root.toList path.toList)) := by
  unfold absolute
  split
  · rename_i habs
    rw [reduce_normalize habs, joinTo, if_pos habs]
  · rfl

theorem absolute_of_proper (hpath : Path.Proper path) :
    absolute root path = joinTo root.toList path.toList := by
  simp [absolute, not_isAbsolute_of_proper hpath]

/-- A proper path stands for itself. -/
theorem key_of_proper (hroot : Path.IsRoot root) (hpath : Path.Proper path) :
    key root path = path := by
  obtain ⟨names, hnames, hr⟩ := hroot
  have hall : ∀ s ∈ names ++ steps path.toList, Path.IsName s :=
    List.forall_mem_append.2 ⟨hnames, hpath⟩
  rw [key, absolute_of_proper hpath, hr, joinTo_root hnames hpath, relativeTo,
    reduce_absolute (leadsOn_of_isName hnames),
    reduce_absolute (leadsOn_of_isName hall), afterCommon_append]
  cases hsteps : steps path.toList with
  | nil => exact absurd hsteps (steps_ne_nil _)
  | cons s ss =>
    have hjoin := ofSteps_steps path.toList
    rw [hsteps] at hjoin
    simp [hjoin]

/-- No proper path at a proper root holds a null character. -/
theorem not_contains_nul (hroot : Path.IsRoot root) (hpath : Path.Proper path) :
    (absolute root path).contains '\x00' = false := by
  obtain ⟨names, hnames, hr⟩ := hroot
  rw [absolute_of_proper hpath, hr, joinTo_root hnames hpath]
  have hjoin : '\x00' ∉ ofSteps (names ++ steps path.toList) := by
    refine Text.not_mem_join (by decide) fun s hs => ?_
    rcases List.mem_append.1 hs with hs | hs
    · exact (hnames s hs).2.2.2.2
    · exact (hpath s hs).2.2.2.2
  simpa using hjoin

end Project

namespace FileTree

variable {names : List (List Char)}

/-- Paths are proper, and every file lies in folders of the tree. -/
structure Proper (tree : FileTree) : Prop where
  files : ∀ path ∈ tree.files.keys, Path.Proper path
  folders : ∀ path ∈ tree.folders, Path.Proper path
  parents : ∀ path ∈ tree.files.keys, ∀ folder ∈ ancestors path, folder ∈ tree.folders

instance (tree : FileTree) : Decidable tree.Proper :=
  decidable_of_iff
    ((∀ path ∈ tree.files.keys, Path.Proper path) ∧ (∀ path ∈ tree.folders, Path.Proper path) ∧
      ∀ path ∈ tree.files.keys, ∀ folder ∈ ancestors path, folder ∈ tree.folders)
    ⟨fun h => ⟨h.1, h.2.1, h.2.2⟩, fun h => ⟨h.files, h.folders, h.parents⟩⟩

/-- The tree that some texts make up. -/
def ofTexts (texts : List (String × String)) : FileTree :=
  texts.foldl (fun tree (path, text) => tree.write path (Text.toBytes text)) .empty

/-- The place is the root, lies above it, or is a folder of the tree. -/
def isPassable (tree : FileTree) (root here : List (List Char)) : Bool :=
  match afterCommon root here with
  | (_, []) => true
  | ([], below) => tree.isFolder (String.ofList (ofSteps below))
  | _ => false

/-- A name leads one step further from a place that can be passed through. -/
theorem follow_cons_name (tree : FileTree) (root here : List (List Char)) {s : List Char}
    (hs : Path.IsName s) (ss : List (List Char)) :
    tree.follow root here (s :: ss) =
      if tree.isPassable root here then tree.follow root (here ++ [s]) ss else none := by
  obtain ⟨hnil, hdot, hdots, -, -⟩ := hs
  rw [follow]
  change (if (!tree.isPassable root here) = true then none else _) = _
  cases tree.isPassable root here <;> simp [hnil, hdot, hdots]

/-- Steps by names lead nowhere else than to their end. -/
theorem follow_names (tree : FileTree) (root : List (List Char)) (h : ∀ s ∈ names, Path.IsName s)
    (here : List (List Char)) :
    tree.follow root here names = none ∨ tree.follow root here names = some (here ++ names) := by
  induction names generalizing here with
  | nil => simp [follow]
  | cons s names ih =>
    rw [follow_cons_name tree root here (h s List.mem_cons_self)]
    split
    · simpa using ih (List.forall_mem_cons.1 h).2 (here ++ [s])
    · exact Or.inl rfl

/-- The way to the root can be gone. -/
theorem follow_to_root (tree : FileTree) {root : List (List Char)}
    (h : ∀ s ∈ root, Path.IsName s) (here below rest : List (List Char))
    (hroot : root = here ++ below) :
    tree.follow root here (below ++ rest) = tree.follow root root rest := by
  induction below generalizing here with
  | nil => simp [hroot]
  | cons s below ih =>
    have hpass : tree.isPassable root here = true := by
      rw [isPassable, hroot, afterCommon_prefix]
    rw [List.cons_append, follow_cons_name tree root here (h s (by simp [hroot])), if_pos hpass]
    exact ih (here ++ [s]) (by simp [hroot])

/-- Below the root, the way to a place can be gone if all folders on it exist. -/
theorem follow_below_root (tree : FileTree) (root : List (List Char))
    (h : ∀ s ∈ names, Path.IsName s) (below : List (List Char))
    (hfolders : ∀ n < names.length, below ++ names.take n ≠ [] →
      tree.isFolder (String.ofList (ofSteps (below ++ names.take n))) = true) :
    tree.follow root (root ++ below) names = some (root ++ below ++ names) := by
  induction names generalizing below with
  | nil => simp [follow]
  | cons s names ih =>
    have hpass : tree.isPassable root (root ++ below) = true := by
      rw [isPassable, afterCommon_append]
      cases below with
      | nil => rfl
      | cons b below => simpa using hfolders 0 (by simp) (by simp)
    have hnext := ih (List.forall_mem_cons.1 h).2 (below ++ [s]) fun n hn _ => by
      simpa using hfolders (n + 1) (by simpa using hn) (by simp)
    rw [follow_cons_name tree root _ (h s List.mem_cons_self), if_pos hpass]
    simpa using hnext

variable {tree : FileTree} {root path : String}

/-- A proper path leads to the file of that name, if there is one. -/
theorem locate?_of_proper (htree : tree.Proper) (hroot : Path.IsRoot root)
    (hpath : Path.Proper path) :
    tree.locate? root.toList (joinTo root.toList path.toList) =
      if tree.files.has path then some path else none := by
  obtain ⟨names, hnames, hr⟩ := hroot
  have hall : ∀ s ∈ names ++ steps path.toList, Path.IsName s :=
    List.forall_mem_append.2 ⟨hnames, hpath⟩
  have hne : names ++ steps path.toList ≠ [] := by
    simp [steps_ne_nil]
  have hto : tree.follow names [] (names ++ steps path.toList) =
      tree.follow names names (steps path.toList) :=
    follow_to_root tree hnames [] names _ rfl
  rw [locate?, hr, joinTo_root hnames hpath,
    reduce_absolute (leadsOn_of_isName hnames),
    steps_absolute hne (leadsOn_of_isName hall), List.drop_one, List.tail_cons, hto]
  -- Only for a file that is there do the folders on the way have to exist.
  cases hhas : tree.files.has path with
  | false =>
    rcases follow_names tree names hpath names with hnone | hsome
    · simp [hnone]
    · simp [hsome, afterCommon_append, ofSteps_steps, hhas]
  | true =>
    have hmem : path ∈ tree.files.keys := Assoc.has_iff_mem_keys.1 hhas
    have hgo := follow_below_root tree names hpath [] fun n hn hne => by
      have hfolder : String.ofList (ofSteps ((steps path.toList).take n)) ∈
          tree.folders := by
        apply htree.parents path hmem
        rw [ancestors, List.mem_map]
        cases n with
        | zero => simp at hne
        | succ n => exact ⟨n, by simp; omega, rfl⟩
      simp [isFolder, hfolder]
    rw [List.append_nil] at hgo
    simp [hgo, afterCommon_append, ofSteps_steps, hhas]

/-- Wherever steps lead, their reduction leads as well. -/
theorem eq_reduce_of_follow {here steps place : List (List Char)} (hhere : ['.', '.'] ∉ here)
    (h : tree.follow names here steps = some place) :
    place = reduce true here.reverse steps := by
  induction steps generalizing here with
  | nil =>
    cases h
    simp [reduce]
  | cons s steps ih =>
    rw [follow] at h
    change (if (!tree.isPassable names here) = true then none else _) = _ at h
    split at h
    · cases h
    simp only [reduce]
    split at h
    · rename_i hidle
      rw [if_pos hidle]
      exact ih hhere h
    rename_i hidle
    rw [if_neg hidle]
    split at h
    · rename_i hdots
      rw [if_pos hdots]
      rcases List.eq_nil_or_concat here with rfl | ⟨front, last, rfl⟩
      · exact ih hhere h
      · rw [List.concat_eq_append, List.mem_append, not_or] at hhere
        have hlast : (last == ['.', '.']) = false := by
          simpa using fun he : last = ['.', '.'] => hhere.2 (by simp [he])
        rw [List.concat_eq_append, List.dropLast_concat] at h
        simpa [hlast] using ih hhere.1 h
    · rename_i hdots
      rw [if_neg hdots]
      have hnext : ['.', '.'] ∉ here ++ [s] := by
        rw [List.mem_append, not_or]
        exact ⟨hhere, fun hs => hdots (by simpa using (List.mem_singleton.1 hs).symm)⟩
      simpa using ih hnext h

/-- A file that a path leads to is the one that the path stands for. -/
theorem key_of_locate? (htree : tree.Proper) (hroot : Path.IsRoot root) {file : String}
    (h : tree.locate? root.toList (joinTo root.toList path.toList) = some file) :
    file ∈ tree.files.keys ∧ Project.key root path = file := by
  obtain ⟨rest, hrest⟩ :=
    eq_slash_of_isAbsolute (isAbsolute_joinTo hroot path.toList)
  have hsame := Project.reduce_absolute_path root path
  rw [hrest] at h hsame
  simp only [locate?, steps_slash, List.drop_one, List.tail_cons] at h hsame
  split at h
  · cases h
  rename_i place hplace
  have hreduce : reduce true [] (steps (Project.absolute root path)) = place := by
    rw [eq_reduce_of_follow (by simp) hplace, hsame]
    simp [reduce]
  split at h
  · rename_i below hbelow
    split at h
    · rename_i hhas
      cases h
      have hfile := Assoc.has_iff_mem_keys.1 hhas
      refine ⟨hfile, ?_⟩
      -- The root itself is no file.
      have hsome : below ≠ [] := by
        rintro rfl
        exact absurd (htree.files _ hfile) (by decide)
      rw [Project.key, relativeTo, hreduce, hbelow]
      cases below with
      | nil => exact absurd rfl hsome
      | cons b below => rfl
    · cases h
  · cases h

/-- A path that stands for itself leads to the file of that name, if there is one. -/
theorem isSome_locate?_iff (htree : tree.Proper) (hroot : Path.IsRoot root)
    (hkey : Project.key root path = path) :
    (tree.locate? root.toList (joinTo root.toList path.toList)).isSome = true ↔
      path ∈ tree.files.keys := by
  constructor
  · intro hsome
    obtain ⟨file, hfile⟩ := Option.isSome_iff_exists.1 hsome
    obtain ⟨hmem, heq⟩ := key_of_locate? htree hroot hfile
    rwa [← hkey, heq]
  · intro hmem
    rw [locate?_of_proper htree hroot (htree.files path hmem),
      if_pos (Assoc.has_iff_mem_keys.2 hmem)]
    rfl

/-- The bytes that a proper path leads to. -/
theorem read?_of_proper (htree : tree.Proper) (hroot : Path.IsRoot root)
    (hpath : Path.Proper path) :
    tree.read? root.toList (Project.absolute root path) = tree.files.get? path := by
  rw [read?, Project.absolute_of_proper hpath, locate?_of_proper htree hroot hpath]
  cases hhas : tree.files.has path with
  | true => simp
  | false => simp [Assoc.has_eq_false_iff.1 hhas]

end FileTree

end SourceAtlas
