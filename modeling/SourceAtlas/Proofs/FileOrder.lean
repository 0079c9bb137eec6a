import SourceAtlas.Proofs.ImportResolution

/-!
# Imports and the order of the files

The files of a project are a set, and whoever goes through a set meets its members in some order
that nothing fixes. Four of the five languages only ask whether a candidate is in the set, so that
the order makes no difference to them (`byLanguage?_congr`). In Go an import names a folder, and the
search for it goes through the whole set: there the order decides.

* One look at an end of the import finds the first Go file, in the order of the files, whose folder
  has that end (`fileAt?_eq_find?`): neither the choice of a file for its folder nor the choice
  among folders is made in any other way.
* The files that are in question are those in a folder that a longest run of last steps names
  (`Contends`). Which these are depends on the set alone; the search gives the first of them.
* So every one of them is the answer in some order (`exists_order_iff`), and the answer is the same
  in all orders only if there is at most one.

`go_imports_in_every_order` joins this with the graph of imports that is made of a tree.
-/

set_option autoImplicit false

namespace SourceAtlas

open Resolve

/-! ## The first of a list -/

/-- The name is the first of the list with the property. -/
def IsFirst (order : List String) (P : String → Prop) (name : String) : Prop :=
  ∃ before after, order = before ++ name :: after ∧ P name ∧ ∀ other ∈ before, ¬ P other

namespace IsFirst

variable {order rest : List String} {P : String → Prop} {name other : String}

theorem of_cons (h : P name) (rest : List String) : IsFirst (name :: rest) P name :=
  ⟨[], rest, rfl, h, by simp⟩

theorem mem (h : IsFirst order P name) : name ∈ order := by
  obtain ⟨before, after, rfl, -, -⟩ := h
  simp

theorem property (h : IsFirst order P name) : P name := by
  obtain ⟨before, after, -, hname, -⟩ := h
  exact hname

/-- There are no two first ones. The two lists of names before them are compared: neither can go on
past the end of the other. -/
theorem unique (h : IsFirst order P name) (h' : IsFirst order P other) : name = other := by
  obtain ⟨before, after, rfl, hname, hbefore⟩ := h
  obtain ⟨before', after', heq, hother, hbefore'⟩ := h'
  rcases List.append_eq_append_iff.1 heq with ⟨more, rfl, hmore⟩ | ⟨more, rfl, hmore⟩
  · cases more with
    | nil => exact (List.cons.inj hmore).1
    | cons first more =>
      obtain ⟨rfl, -⟩ := List.cons.inj hmore
      exact absurd hname (hbefore' name (by simp))
  · cases more with
    | nil => exact (List.cons.inj hmore).1.symm
    | cons first more =>
      obtain ⟨rfl, -⟩ := List.cons.inj hmore
      exact absurd hother (hbefore other (by simp))

/-- A name at the very end is the first only if no other has the property. -/
theorem of_last (h : IsFirst (rest ++ [name]) P name) (hname : name ∉ rest) :
    ∀ other ∈ rest, ¬ P other := by
  obtain ⟨before, after, heq, -, hbefore⟩ := h
  rcases List.eq_nil_or_concat after with rfl | ⟨middle, last, rfl⟩
  · rw [(List.append_inj' heq rfl).1]
    exact hbefore
  -- Otherwise the name would stand among the others as well.
  · have hsplit : rest ++ [name] = (before ++ name :: middle) ++ [last] := by simpa using heq
    rw [(List.append_inj' hsplit rfl).1] at hname
    simp at hname

end IsFirst

namespace Resolve

open SourceAtlas.Text

variable {file target f : String} {files order : List String}

/-! ## One look at the files -/

/-- Folders that are entered one after the other are looked through in the order of the files. -/
theorem find?_foldl_addFolder (P : List Char → Bool) (fs : List String)
    (folders : List (List Char × String)) :
    ((fs.foldl addFolder folders).find? fun e => P e.1).map Prod.snd =
      ((folders.find? fun e => P e.1).map Prod.snd).or
        (fs.find? fun f => P (Path.folder f.toList)) := by
  induction fs generalizing folders with
  | nil => simp
  | cons f fs ih =>
    rw [List.foldl_cons, ih, List.find?_cons]
    unfold addFolder
    split
    -- The folder is there: if it has the property, one that is there is found anyway.
    · rename_i hany
      obtain ⟨e, hmem, hfolder⟩ := List.any_eq_true.1 hany
      cases hP : P (Path.folder f.toList) with
      | false => rfl
      | true =>
        have hsome : (folders.find? fun e => P e.1).isSome = true := by
          rw [List.find?_isSome]
          exact ⟨e, hmem, by rw [beq_iff_eq.1 hfolder, hP]⟩
        obtain ⟨found, hfound⟩ := Option.isSome_iff_exists.1 hsome
        simp [hfound]
    · cases hP : P (Path.folder f.toList) with
      | false => simp [List.find?_append, hP]
      | true => cases hfound : folders.find? fun e => P e.1 <;> simp [List.find?_append, hP, hfound]

/-- One look finds the first Go file whose folder has the ending. -/
theorem fileAt?_eq_find? (files : List String) (ending : List Char) :
    fileAt? files ending = files.find? fun f =>
      endsWith ".go".toList f.toList && namesFolder ending (Path.folder f.toList) := by
  rw [fileAt?, goFolders_eq, find?_foldl_addFolder (namesFolder ending)]
  simp [List.find?_filter]

theorem fileAt?_eq_some_iff {run : List (List Char)} :
    fileAt? files (Path.ofSteps run) = some f ↔
      IsFirst files (fun g => IsGoFile g ∧ Path.EndsIn (Path.folder g.toList) run) f := by
  have hlook : ∀ g : String, (endsWith ".go".toList g.toList &&
      namesFolder (Path.ofSteps run) (Path.folder g.toList)) = true ↔
        IsGoFile g ∧ Path.EndsIn (Path.folder g.toList) run := by
    intro g
    rw [Bool.and_eq_true, namesFolder_iff, endsWith, List.isSuffixOf_iff_suffix]
    rfl
  rw [fileAt?_eq_find?, List.find?_eq_some_iff_append, hlook]
  simp only [Bool.not_eq_true', ← Bool.not_eq_true, hlook]
  constructor
  · rintro ⟨hf, before, after, rfl, hbefore⟩
    exact ⟨before, after, rfl, hf, hbefore⟩
  · rintro ⟨before, after, rfl, hf, hbefore⟩
    exact ⟨hf, before, after, rfl, hbefore⟩

/-! ## The files in question -/

/-- The Go file lies in a folder that the run of last steps of the target names. -/
def NamedBy (target f : String) (run : List (List Char)) : Prop :=
  IsGoFile f ∧ run <:+ Path.steps target.toList ∧ run ≠ [] ∧
    Path.EndsIn (Path.folder f.toList) run

/-- Among the files, this one may be meant by a Go import of the target: a run of last steps names
its folder, and no longer run names the folder of any. -/
def Contends (target : String) (files : List String) (f : String) : Prop :=
  target ≠ "" ∧ f ∈ files ∧ ∃ run, NamedBy target f run ∧
    ∀ g ∈ files, ∀ other, NamedBy target g other → other.length ≤ run.length

/-- No other file contends with this one. -/
def ContendsAlone (target : String) (files : List String) (f : String) : Prop :=
  Contends target files f ∧ ∀ g ∈ files, Contends target files g → g = f

/-- Who contends depends on the set of files alone. -/
theorem contends_of_perm (h : order.Perm files) :
    Contends target order f ↔ Contends target files f := by
  simp only [Contends, h.mem_iff]

/-- Two runs of last steps that are equally long are the same. -/
theorem eq_of_suffix_of_length {run other steps : List (List Char)} (hrun : run <:+ steps)
    (hother : other <:+ steps) (hlength : run.length = other.length) : run = other :=
  (List.suffix_of_suffix_length_le hrun hother (Nat.le_of_eq hlength)).eq_of_length hlength

/-- The search gives the first of the files that contend. -/
theorem isFirst_of_byLanguage?_go (h : byLanguage? .go file target order = some f) :
    IsFirst order (Contends target order) f := by
  have htarget : target ≠ "" := by
    rintro rfl
    cases h
  rw [byLanguage?_go htarget, goFile?_eq] at h
  obtain ⟨run, hrun, hne, hlook, hlongest⟩ := (findSome?_pathEnds _ _).2 f h
  obtain ⟨before, after, horder, ⟨hgo, hends⟩, hbefore⟩ := fileAt?_eq_some_iff.1 hlook
  have hf : f ∈ order := by
    rw [horder]
    simp
  -- Any longer run was looked at before, in vain.
  have hmax : ∀ g ∈ order, ∀ other, NamedBy target g other → other.length ≤ run.length := by
    rintro g hg other ⟨hgoes, hother, -, hnamed⟩
    by_contra hlonger
    have hnone := hlongest other hother (Nat.lt_of_not_le hlonger)
    exact fileAt?_eq_none_iff.1 hnone g hg hgoes hnamed
  refine ⟨before, after, horder, ⟨htarget, hf, run, ⟨hgo, hrun, hne, hends⟩, hmax⟩, ?_⟩
  -- A file before it that contends would do so by the same run, and would have been found.
  rintro g hg ⟨-, hmem, longest, hnamed, hleast⟩
  have hsame : longest = run := by
    apply eq_of_suffix_of_length hnamed.2.1 hrun
    apply Nat.le_antisymm
    · exact hmax g hmem longest hnamed
    · exact hleast f hf run ⟨hgo, hrun, hne, hends⟩
  exact hbefore g hg ⟨hnamed.1, hsame ▸ hnamed.2.2.2⟩

theorem exists_byLanguage?_go (h : Contends target order f) (file : String) :
    ∃ g, byLanguage? .go file target order = some g := by
  obtain ⟨htarget, hf, run, ⟨hgo, hrun, hne, hends⟩, -⟩ := h
  apply Option.isSome_iff_exists.1
  rw [isSome_byLanguage?_iff]
  exact ⟨f, hf, htarget, hgo, run, hrun, hne, hends⟩

/-- In every order of the files, a Go import leads to the first of those that contend. -/
theorem byLanguage?_go_eq_some_iff (h : order.Perm files) :
    byLanguage? .go file target order = some f ↔ IsFirst order (Contends target files) f := by
  have hsame : Contends target order = Contends target files := by
    funext g
    exact propext (contends_of_perm h)
  rw [← hsame]
  constructor
  · intro hfound
    exact isFirst_of_byLanguage?_go hfound
  · intro hfirst
    obtain ⟨g, hg⟩ := exists_byLanguage?_go hfirst.property file
    rw [hg, (isFirst_of_byLanguage?_go hg).unique hfirst]

/-! ## All orders of the files -/

/-- A file that contends is the answer when it comes first. -/
theorem Contends.found_first (h : Contends target files f) (file : String) :
    byLanguage? .go file target (f :: files.erase f) = some f := by
  rw [byLanguage?_go_eq_some_iff (List.perm_cons_erase h.2.1).symm]
  exact .of_cons h _

/-- Every file that contends is the answer in some order, and no other file is. -/
theorem exists_order_iff (file : String) :
    (∃ order, order.Perm files ∧ byLanguage? .go file target order = some f) ↔
      Contends target files f := by
  constructor
  · rintro ⟨order, hperm, hfound⟩
    exact ((byLanguage?_go_eq_some_iff hperm).1 hfound).property
  · intro hf
    exact ⟨_, (List.perm_cons_erase hf.2.1).symm, hf.found_first file⟩

-- Whether a file contends is seen by putting it first.
instance (target : String) (files : List String) (f : String) :
    Decidable (Contends target files f) :=
  decidable_of_iff (f ∈ files ∧ byLanguage? .go "" target (f :: files.erase f) = some f)
    ⟨fun h => (exists_order_iff "").1 ⟨_, (List.perm_cons_erase h.1).symm, h.2⟩,
      fun h => ⟨h.2.1, h.found_first ""⟩⟩

instance (target : String) (files : List String) (f : String) :
    Decidable (ContendsAlone target files f) :=
  inferInstanceAs (Decidable (Contends target files f ∧
    ∀ g ∈ files, Contends target files g → g = f))

/-- The answer is the same in all orders if and only if at most one file contends. -/
theorem same_in_all_orders_iff :
    (∀ order other, order.Perm files → other.Perm files →
        byLanguage? .go file target order = byLanguage? .go file target other) ↔
      ∀ f g, Contends target files f → Contends target files g → f = g := by
  constructor
  · intro hsame f g hf hg
    obtain ⟨order, hperm, hfound⟩ := (exists_order_iff file).2 hf
    obtain ⟨other, hperm', hfound'⟩ := (exists_order_iff file).2 hg
    rw [hsame order other hperm hperm', hfound'] at hfound
    exact (Option.some.inj hfound).symm
  · intro hone order other hperm hperm'
    ext f
    rw [byLanguage?_go_eq_some_iff hperm, byLanguage?_go_eq_some_iff hperm']
    -- With one file in question, any order that gives an answer gives this one.
    have hmeets : ∀ {as bs : List String}, as.Perm files → bs.Perm files →
        IsFirst as (Contends target files) f → IsFirst bs (Contends target files) f := by
      intro as bs has hbs hfirst
      obtain ⟨g, hg⟩ := exists_byLanguage?_go ((contends_of_perm hbs).2 hfirst.property) file
      have hfirst' := (byLanguage?_go_eq_some_iff hbs).1 hg
      rwa [hone f g hfirst.property hfirst'.property]
    exact ⟨hmeets hperm hperm', hmeets hperm' hperm⟩

/-- A file that contends alone is the answer in every order. -/
theorem ContendsAlone.byLanguage?_eq (h : ContendsAlone target files f) (hperm : order.Perm files)
    (file : String) : byLanguage? .go file target order = some f := by
  obtain ⟨g, hg⟩ := exists_byLanguage?_go ((contends_of_perm hperm).2 h.1) file
  have hcontends := ((byLanguage?_go_eq_some_iff hperm).1 hg).property
  rw [hg, h.2 g hcontends.2.1 hcontends]

/-- A file that is the answer even when it comes last contends alone. -/
theorem contendsAlone_of_last (hnodup : files.Nodup) (hf : f ∈ files)
    (h : byLanguage? .go file target (files.erase f ++ [f]) = some f) :
    ContendsAlone target files f := by
  have hperm : (files.erase f ++ [f]).Perm files :=
    (List.perm_append_singleton f (files.erase f)).trans (List.perm_cons_erase hf).symm
  have hfirst := (byLanguage?_go_eq_some_iff hperm).1 h
  refine ⟨hfirst.property, ?_⟩
  intro g hmem hg
  by_contra hother
  have hmem : g ∈ files.erase f := (List.mem_erase_of_ne hother).2 hmem
  exact hfirst.of_last hnodup.not_mem_erase g hmem hg

/-- All languages but Go only ask which files there are. -/
theorem byLanguage?_congr {language : Language} (hlanguage : language ≠ .go)
    (h : order.Perm files) :
    byLanguage? language file target order = byLanguage? language file target files := by
  have hsame : ∀ candidates, firstPresent? candidates order = firstPresent? candidates files :=
    firstPresent?_congr fun g => h.mem_iff
  cases language with
  | go => exact absurd rfl hlanguage
  | python => exact hsame _
  | script => exact hsame _
  | rust => exact hsame _
  | csharp => simp only [byLanguage?, hsame]

/-- What an import of a Go file leads to is what the search gives, if there is a target. -/
theorem import?_go (hfile : language? file = some .go) (target : String) (files : List String) :
    Resolve.import? file target files = byLanguage? .go file target files := by
  unfold import?
  by_cases htarget : target = ""
  · subst htarget
    rfl
  · simp [htarget, hfile]

theorem import?_of_perm_of_not_go (hfile : language? file ≠ some .go) (target : String)
    (h : order.Perm files) :
    Resolve.import? file target order = import? file target files := by
  rcases import?_cases file target with hnone | ⟨language, hlanguage, hrules⟩
  · rw [hnone, hnone]
  · have hother : language ≠ .go := by
      rintro rfl
      exact hfile hlanguage
    rw [hrules, hrules, byLanguage?_congr hother h]

end Resolve

/-! ## The graph of imports in an order of the files -/

/-- Whatever an import of a Go file may lead to, the file itself apart, is what one of its imports
leads to in every order. -/
def GoImportsSettled (files : Assoc Outline) : Prop :=
  ∀ e ∈ files, language? e.1 = some .go →
    ∀ i ∈ e.2.imports, ∀ f ∈ files.keys, f ≠ e.1 → Resolve.Contends i.source files.keys f →
      ∃ j ∈ e.2.imports, Resolve.ContendsAlone j.source files.keys f

instance (files : Assoc Outline) : Decidable (GoImportsSettled files) :=
  inferInstanceAs (Decidable (∀ e ∈ files, language? e.1 = some .go →
    ∀ i ∈ e.2.imports, ∀ f ∈ files.keys, f ≠ e.1 → Resolve.Contends i.source files.keys f →
      ∃ j ∈ e.2.imports, Resolve.ContendsAlone j.source files.keys f))

/-- The graph of imports is the same in all orders exactly if the imports of the Go files are
settled. -/
theorem Graph.same_in_all_orders_iff {files : Assoc Outline} (h : files.keys.Nodup) :
    (∀ order other, order.Perm files.keys → other.Perm files.keys →
        (ofImportsIn order files).Same (ofImportsIn other files)) ↔ GoImportsSettled files := by
  constructor
  -- A file that may be meant is put first, and must still be meant when it is put last.
  · rintro hsame ⟨path, o⟩ he hgo i hi f - hother hf
    have ho : files.get? path = some o := Assoc.get?_of_mem h he
    obtain ⟨order, hperm, hfound⟩ := (exists_order_iff path).2 hf
    have hlast : (files.keys.erase f ++ [f]).Perm files.keys :=
      (List.perm_append_singleton f _).trans (List.perm_cons_erase hf.2.1).symm
    have hedge : (ofImportsIn order files).Edge path f := by
      rw [edge_ofImportsIn_iff_exists h]
      exact ⟨hother, o, ho, i, hi, by rw [import?_go hgo, hfound]⟩
    rw [(hsame order _ hperm hlast).2, edge_ofImportsIn_iff_exists h] at hedge
    obtain ⟨-, same, hget, j, hj, hleads⟩ := hedge
    obtain rfl := Option.some.inj (ho.symm.trans hget)
    rw [import?_go hgo] at hleads
    exact ⟨j, hj, contendsAlone_of_last h hf.2.1 hleads⟩
  · intro hsettled
    have hkept : ∀ {as bs : List String}, as.Perm files.keys → bs.Perm files.keys →
        ∀ {path target}, (ofImportsIn as files).Edge path target →
          (ofImportsIn bs files).Edge path target := by
      intro as bs has hbs path target hedge
      rw [edge_ofImportsIn_iff_exists h] at hedge ⊢
      obtain ⟨hother, o, ho, i, hi, hleads⟩ := hedge
      by_cases hgo : language? path = some .go
      · rw [import?_go hgo, byLanguage?_go_eq_some_iff has] at hleads
        obtain ⟨j, hj, halone⟩ := hsettled _ (Assoc.mem_of_get? ho) hgo i hi target
          hleads.property.2.1 hother hleads.property
        refine ⟨hother, o, ho, j, hj, ?_⟩
        rw [import?_go hgo, halone.byLanguage?_eq hbs]
      · refine ⟨hother, o, ho, i, hi, ?_⟩
        rw [import?_of_perm_of_not_go hgo _ hbs,
          ← import?_of_perm_of_not_go hgo _ has, hleads]
    intro order other hperm hperm'
    apply Full.same (full_ofImportsIn h order) (full_ofImportsIn h other)
    intro source target
    exact ⟨hkept hperm hperm', hkept hperm' hperm⟩

/-- **Where a Go import leads is decided by the order in which the set of files is gone through.**
In every order it leads to the first of the files that contend, which are known from the set. So the
files that it can lead to are exactly those that contend, and it leads to the same one in all orders
if and only if they are not two. The graph of imports of a tree is the same in all orders if and
only if all that the imports of a Go file can lead to, the file itself apart, is what one of its
imports leads to in every order. -/
theorem go_imports_in_every_order (file target : String) (files : List String) :
    (∀ order, order.Perm files → ∀ f, Resolve.byLanguage? .go file target order = some f ↔
        IsFirst order (Resolve.Contends target files) f) ∧
      (∀ f, (∃ order, order.Perm files ∧ Resolve.byLanguage? .go file target order = some f) ↔
        Resolve.Contends target files f) ∧
      ((∀ order other, order.Perm files → other.Perm files →
          Resolve.byLanguage? .go file target order =
            Resolve.byLanguage? .go file target other) ↔
        ∀ f g, Resolve.Contends target files f → Resolve.Contends target files g → f = g) ∧
      ∀ (root : String) (settings : Settings) (tree : FileTree) (index : Index),
        Index.ofTree root settings tree = .ok index →
          index.imports = Graph.ofImportsIn index.files.keys index.files ∧
          ((∀ order other, order.Perm index.files.keys → other.Perm index.files.keys →
              (Graph.ofImportsIn order index.files).Same
                (Graph.ofImportsIn other index.files)) ↔
            GoImportsSettled index.files) := by
  refine ⟨?_, ?_, Resolve.same_in_all_orders_iff, ?_⟩
  · intro order hperm f
    exact Resolve.byLanguage?_go_eq_some_iff hperm
  · intro f
    exact Resolve.exists_order_iff file
  · intro root settings tree index hmade
    have hrebuild := Index.rebuild_ofTree hmade
    refine ⟨?_, Graph.same_in_all_orders_iff (Index.orderly_ofTree hmade).nodup_files⟩
    exact (congrArg Index.imports hrebuild).symm

/-! ## Two folders of one name -/

/-- A Go file that imports the target, and two folders whose paths end alike. -/
def twoFolders (target : String) : FileTree :=
  .ofTexts
    [("main.go", "package main\n\nimport \"" ++ target ++ "\"\n"),
      ("pkg/util/x.go", "package util\n"), ("web/util/y.go", "package util\n")]

/-- The files of such a tree in the order in which they are found. -/
def foundInTwoFolders : List Settings.Discovered :=
  ["main.go", "pkg/util/x.go", "web/util/y.go"].map fun f => ⟨f, f⟩

/-- One tree has two graphs of imports: the import leads to one folder in the order of the paths,
and to the other one when they are turned round. Of two files in one folder, too, the first is
taken. -/
theorem order_decides_go_import :
    (∃ index, Index.ofTree "/project" .usual (twoFolders "example.com/util") = .ok index ∧
        index.files.keys.reverse.Perm index.files.keys ∧
        index.imports.targets "main.go" = ["pkg/util/x.go"] ∧
        (Graph.ofImportsIn index.files.keys.reverse index.files).targets "main.go" =
          ["web/util/y.go"]) ∧
      Resolve.byLanguage? .go "main.go" "m/util" ["util/a.go", "util/b.go"] = some "util/a.go" ∧
      Resolve.byLanguage? .go "main.go" "m/util" ["util/b.go", "util/a.go"] =
        some "util/b.go" := by
  have hfinds : Settings.usual.Finds (twoFolders "example.com/util") foundInTwoFolders := by
    decide +kernel
  refine ⟨⟨_, hfinds.ofTree (by decide +kernel) _, List.reverse_perm _, ?_⟩, ?_⟩
  · decide +kernel
  · decide +kernel

/-- An import that tells the two folders apart leads to one file of the three in all orders, and the
graph is the same in all orders. -/
theorem folder_told_in_every_order :
    (∀ order, order.Perm ["main.go", "pkg/util/x.go", "web/util/y.go"] →
        Resolve.byLanguage? .go "main.go" "example.com/web/util" order =
          Resolve.byLanguage? .go "main.go" "example.com/web/util"
            ["main.go", "pkg/util/x.go", "web/util/y.go"]) ∧
      ∃ index, Index.ofTree "/project" .usual (twoFolders "example.com/web/util") = .ok index ∧
        index.imports.targets "main.go" = ["web/util/y.go"] ∧
        ∀ order other, order.Perm index.files.keys → other.Perm index.files.keys →
          (Graph.ofImportsIn order index.files).Same (Graph.ofImportsIn other index.files) := by
  have hfinds : Settings.usual.Finds (twoFolders "example.com/web/util") foundInTwoFolders := by
    decide +kernel
  have hview : ∃ index,
      Index.ofTree "/project" .usual (twoFolders "example.com/web/util") = .ok index ∧
        index.imports.targets "main.go" = ["web/util/y.go"] ∧ GoImportsSettled index.files :=
    ⟨_, hfinds.ofTree (by decide +kernel) _, by decide +kernel⟩
  obtain ⟨index, hmade, htargets, hsettled⟩ := hview
  obtain ⟨-, -, hsame, hgraph⟩ := go_imports_in_every_order "main.go" "example.com/web/util"
    ["main.go", "pkg/util/x.go", "web/util/y.go"]
  refine ⟨?_, index, hmade, htargets, (hgraph "/project" .usual _ index hmade).2.2 hsettled⟩
  -- Only one of the three files contends.
  have hone : ∀ f ∈ ["main.go", "pkg/util/x.go", "web/util/y.go"],
      Resolve.Contends "example.com/web/util" ["main.go", "pkg/util/x.go", "web/util/y.go"] f →
        f = "web/util/y.go" := by
    decide +kernel
  intro order hperm
  apply hsame.2
  · intro f g hf hg
    rw [hone f hf.2.1 hf, hone g hg.2.1 hg]
  · exact hperm
  · exact List.Perm.refl _

end SourceAtlas
