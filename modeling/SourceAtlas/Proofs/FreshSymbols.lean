import Mathlib.Data.List.Sort
import Mathlib.Data.Set.Finite.Lemmas
import SourceAtlas.Proofs.Discovery

/-!
# Who owns the names of a new index

A new index gives each name to the first file that defines it, in the order in which the files were
found. That order is the order of the spellings: of the steps by which a glob came to a file. A glob
with a double dot can spell a file otherwise than by its path, and then the file may come late.

* The names of the table are those that some file defines (`has_symbols_iff`).
* The owner of a name is the file that is found under the least spelling of all files that define
  the name (`get?_symbols_iff_foundFirst`). No two files have a spelling in common.
* With straight settings a file is spelled by its path, so that the owner is the least path
  (`foundFirst_iff_isLeast`).
* The order in which the globs are listed makes no difference, nor does a glob that is listed twice
  (`discover_of_same_globs`).
-/

set_option autoImplicit false

namespace SourceAtlas

open Settings

namespace Assoc

/-- What is looked for along a list of pairs is found along the table of them, if no name stands for
two values. -/
theorem findSome?_ofPairs {β γ : Type} {pairs : List (String × β)} (h : Single pairs)
    (f : String × β → Option γ) : (ofPairs pairs).findSome? f = pairs.findSome? f := by
  induction pairs using List.reverseRecOn with
  | nil => rfl
  | append_singleton pairs e ih =>
    obtain ⟨key, v⟩ := e
    have hfront : Single pairs := by
      intro k a b ha hb
      exact h k a b (List.mem_append_left _ ha) (List.mem_append_left _ hb)
    rw [ofPairs_append_singleton, List.findSome?_append, ← ih hfront]
    cases hold : (ofPairs pairs).get? key with
    | none => rw [put_of_not_mem (get?_eq_none_iff.1 hold), List.findSome?_append]
    -- A pair that comes again leaves the table as it is, and says nothing new.
    | some w =>
      have hmem : (key, w) ∈ pairs := mem_of_get?_ofPairs hold
      obtain rfl : v = w := h key v w (by simp) (List.mem_append_left _ hmem)
      rw [put_eq_self hold]
      cases hfound : (ofPairs pairs).findSome? f with
      | some x => rfl
      | none =>
        have hnone : f (key, v) = none := List.findSome?_eq_none_iff.1 hfound _ (mem_of_get? hold)
        simp [hnone]

end Assoc

/-! ## The order of a search -/

namespace Settings

variable {settings : Settings} {tree : FileTree} {found : List Discovered}

/-- One of the globs leads to the file, which the settings take, by steps of this spelling. -/
def Spells (settings : Settings) (tree : FileTree) (spelling path : String) : Prop :=
  ∃ pattern ∈ settings.includes, ∃ glob, Glob.ofText pattern.toList = .ok glob ∧
    ∃ spot ∈ Glob.select tree glob ⟨"", []⟩, settings.Takes tree spot.path ∧
      ⟨spelling, path⟩ = discovered spot

theorem mem_discover_iff_spells (h : settings.discover tree = .ok found) {d : Discovered} :
    d ∈ found ↔ settings.Spells tree d.shown d.key := by
  obtain ⟨spelling, path⟩ := d
  exact mem_discover_iff h

/-- What is found comes in the order of the spellings. -/
theorem pairwise_discover (h : settings.discover tree = .ok found) :
    found.Pairwise fun a b => a.shown ≤ b.shown := by
  obtain ⟨lists, -, rfl⟩ := exists_lists_of_discover h
  exact pairwise_mergeSort_by Discovered.shown _

/-- Two searches by the same globs find the same files in the same order. -/
theorem discover_of_same_globs (htree : tree.Proper) (h : settings.discover tree = .ok found)
    {includes : List String}
    (hsame : ∀ pattern, pattern ∈ includes ↔ pattern ∈ settings.includes) :
    ({ settings with includes } : Settings).discover tree = .ok found := by
  obtain ⟨again, hagain⟩ : ∃ again,
      ({ settings with includes } : Settings).discover tree = .ok again := by
    rw [exists_discover_iff]
    intro pattern hpattern
    exact exists_discover_iff.1 ⟨found, h⟩ pattern ((hsame pattern).1 hpattern)
  have hmem : ∀ d, d ∈ again ↔ d ∈ found := by
    intro d
    rw [mem_discover_iff hagain, mem_discover_iff h]
    simp only [hsame, Takes, isExcluded]
  -- Both lists are sorted, and no two of their files are spelled alike.
  have hperm : again.Perm found :=
    (List.perm_ext_iff_of_nodup (nodup_discover hagain) (nodup_discover h)).2 hmem
  have hequal : again = found := by
    apply List.Perm.eq_of_pairwise _ (pairwise_discover hagain) (pairwise_discover h) hperm
    intro d e hd he hle hge
    exact eq_of_shown_eq htree h ((hmem d).1 hd) he (le_antisymm hle hge)
  rw [hagain, hequal]

end Settings

/-! ## The owner of a name -/

namespace Index

/-- The file of the index has a function with this qualified name, a function that is no method with
this name, or a class with this name. -/
def DefinedIn (index : Index) (name path : String) : Prop :=
  ∃ o, index.files.get? path = some o ∧
    ((∃ f ∈ o.functions, f.qualifiedName = name ∨ f.isMethod = false ∧ f.name = name) ∨
      ∃ c ∈ o.classes, c.name = name)

/-- Of all files that define the name, this one has the least spelling. -/
def FoundFirst (index : Index) (settings : Settings) (tree : FileTree) (name path : String) :
    Prop :=
  index.DefinedIn name path ∧
    ∃ spelling, settings.Spells tree spelling path ∧
      ∀ other, index.DefinedIn name other →
        ∀ spelling', settings.Spells tree spelling' other → spelling ≤ spelling'

variable {index : Index} {name path owner : String}

theorem definedIn_iff :
    index.DefinedIn name path ↔ ∃ o, index.files.get? path = some o ∧ name ∈ o.definedNames := by
  simp only [DefinedIn, Outline.mem_definedNames]

/-- A name that is defined somewhere has a least path. -/
theorem DefinedIn.exists_isLeast (h : index.DefinedIn name path) :
    ∃ least, IsLeast {p | index.DefinedIn name p} least := by
  have hfinite : {p | index.DefinedIn name p}.Finite := by
    apply (List.finite_toSet index.files.keys).subset
    rintro p ⟨o, ho, -⟩
    exact Assoc.mem_keys_iff.2 ⟨o, ho⟩
  exact Set.exists_min_image _ id hfinite ⟨path, h⟩

section OfTree

variable {root : String} {settings : Settings} {tree : FileTree}

section

variable (hmade : ofTree root settings tree = .ok index)
include hmade

/-- The table has the names that some file defines. -/
theorem has_symbols_iff :
    index.symbols.has name = true ↔ ∃ path, index.DefinedIn name path := by
  obtain ⟨found, -, -, rfl⟩ := ofTree_eq_ok hmade
  rw [symbols_ofOutlines, Symbols.has_ofFiles_iff]
  simp only [definedIn_iff, files_ofOutlines]
  constructor
  · rintro ⟨⟨path, o⟩, he, hname⟩
    exact ⟨path, o, Assoc.get?_of_mem (Assoc.nodup_keys_ofPairs _) he, hname⟩
  · rintro ⟨path, o, ho, hname⟩
    exact ⟨(path, o), Assoc.mem_of_get? ho, hname⟩

theorem definedIn_of_get?_symbols (howner : index.symbols.get? name = some owner) :
    index.DefinedIn name owner := by
  obtain ⟨found, -, -, rfl⟩ := ofTree_eq_ok hmade
  obtain ⟨o, ho, hname⟩ := Symbols.exists_of_get?_ofFiles howner
  exact definedIn_iff.2 ⟨o, Assoc.get?_of_mem (Assoc.nodup_keys_ofPairs _) ho, hname⟩

/-- Of the files that were found before the owner of a name, none defines the name. -/
theorem exists_split_of_get?_symbols {found : List Settings.Discovered}
    (hfound : settings.discover tree = .ok found) (howner : index.symbols.get? name = some owner) :
    ∃ before d after, found = before ++ d :: after ∧ d.key = owner ∧
      ∀ e ∈ before, ¬ index.DefinedIn name e.key := by
  obtain ⟨same, hsame, houtlines, rfl⟩ := ofTree_eq_ok hmade
  obtain rfl : same = found := by simpa [hsame] using hfound
  have hsingle := single_taken settings tree
  -- The outlines were entered in the order of the search.
  rw [symbols_ofOutlines, Symbols.get?_ofFiles, Assoc.findSome?_ofPairs hsingle,
    List.findSome?_eq_some_iff] at howner
  obtain ⟨earlier, ⟨p, o⟩, later, hsplit, hhit, hmiss⟩ := howner
  obtain rfl : p = owner := by
    by_cases hname : name ∈ o.definedNames
    · simpa [hname] using hhit
    · simp [hname] at hhit
  have hkeys := (outlines_eq_ok houtlines).1
  rw [hsplit, List.map_append, List.map_cons] at hkeys
  obtain ⟨before, rest, rfl, hbefore, hrest⟩ := List.map_eq_append_iff.1 hkeys.symm
  obtain ⟨d, after, rfl, hd, -⟩ := List.map_eq_cons_iff.1 hrest
  refine ⟨before, d, after, rfl, hd, ?_⟩
  intro e he hdefined
  obtain ⟨o', ho', hname⟩ := definedIn_iff.1 hdefined
  have hkey : e.key ∈ earlier.map Prod.fst := hbefore ▸ List.mem_map_of_mem he
  obtain ⟨⟨k, q⟩, hq, hk⟩ := List.mem_map.1 hkey
  -- The entry before the owner's is that of the file, and does not have the name.
  have hentry : (e.key, q) ∈ taken settings tree := by
    rw [hsplit, ← hk]
    exact List.mem_append_left _ hq
  have hone : q = o' := hsingle e.key q o' hentry (Assoc.mem_of_get?_ofPairs ho')
  have hnone := hmiss (k, q) hq
  simp [hone, hname] at hnone

/-- The owner of a name is a file that is found first among those that define it. -/
theorem foundFirst_of_get?_symbols (howner : index.symbols.get? name = some owner) :
    index.FoundFirst settings tree name owner := by
  obtain ⟨found, hfound, -⟩ := ofTree_eq_ok hmade
  obtain ⟨before, d, after, rfl, rfl, hbefore⟩ := exists_split_of_get?_symbols hmade hfound howner
  have hsorted := (List.pairwise_append.1 (pairwise_discover hfound)).2.1
  refine ⟨definedIn_of_get?_symbols hmade howner, d.shown,
    (mem_discover_iff_spells hfound).1 (by simp), ?_⟩
  intro other hother spelling hspells
  have hmem : ⟨spelling, other⟩ ∈ before ++ d :: after :=
    (mem_discover_iff_spells hfound).2 hspells
  rcases List.mem_append.1 hmem with hmem | hmem
  · exact absurd hother (hbefore _ hmem)
  · rcases List.mem_cons.1 hmem with heq | hmem
    · rw [← heq]
    · exact (List.pairwise_cons.1 hsorted).1 _ hmem

end

/-- The owner of a name is the file with the least spelling among those that define it. -/
theorem get?_symbols_iff_foundFirst (htree : tree.Proper)
    (hmade : ofTree root settings tree = .ok index) :
    index.symbols.get? name = some owner ↔ index.FoundFirst settings tree name owner := by
  constructor
  · intro howner
    exact foundFirst_of_get?_symbols hmade howner
  · rintro ⟨hdefined, spelling, hspells, hleast⟩
    obtain ⟨first, hfirst⟩ := Assoc.has_iff_exists.1 ((has_symbols_iff hmade).2 ⟨owner, hdefined⟩)
    obtain ⟨hother, spelling', hspells', hleast'⟩ := foundFirst_of_get?_symbols hmade hfirst
    -- Both are spelled alike, so that they are one file.
    obtain ⟨found, hfound, -⟩ := ofTree_eq_ok hmade
    have hshown : spelling = spelling' :=
      le_antisymm (hleast first hother spelling' hspells') (hleast' owner hdefined spelling hspells)
    have hsame : (⟨spelling, owner⟩ : Settings.Discovered) = ⟨spelling', first⟩ := by
      apply eq_of_shown_eq htree hfound
      · exact (mem_discover_iff_spells hfound).2 hspells
      · exact (mem_discover_iff_spells hfound).2 hspells'
      · exact hshown
    cases hsame
    exact hfirst

theorem DefinedIn.exists_spelling (hmade : ofTree root settings tree = .ok index)
    (h : index.DefinedIn name path) : ∃ spelling, settings.Spells tree spelling path := by
  obtain ⟨found, hfound, houtlines, rfl⟩ := ofTree_eq_ok hmade
  obtain ⟨o, ho, -⟩ := h
  have hkey : path ∈ found.map Settings.Discovered.key := by
    rw [← (outlines_eq_ok houtlines).1]
    exact List.mem_map_of_mem (Assoc.mem_of_get?_ofPairs ho)
  obtain ⟨d, hd, rfl⟩ := List.mem_map.1 hkey
  exact ⟨d.shown, (mem_discover_iff_spells hfound).1 hd⟩

/-- With straight settings every file is spelled by its path, and the least spelling is the least
path. -/
theorem foundFirst_iff_isLeast (htree : tree.Proper)
    (hmade : ofTree root settings tree = .ok index) (hstraight : settings.Straight) :
    index.FoundFirst settings tree name path ↔ IsLeast {p | index.DefinedIn name p} path := by
  obtain ⟨found, hfound, -⟩ := ofTree_eq_ok hmade
  have hspelled : ∀ {spelling p}, settings.Spells tree spelling p → spelling = p := by
    intro spelling p hspells
    have hmem : ⟨spelling, p⟩ ∈ found := (mem_discover_iff_spells hfound).2 hspells
    exact shown_eq_key hstraight htree hfound hmem
  constructor
  · rintro ⟨hdefined, spelling, hspells, hleast⟩
    refine ⟨hdefined, ?_⟩
    intro other hother
    obtain ⟨spelling', hspells'⟩ := DefinedIn.exists_spelling hmade hother
    have hle := hleast other hother spelling' hspells'
    rwa [hspelled hspells, hspelled hspells'] at hle
  · rintro ⟨hdefined, hleast⟩
    obtain ⟨spelling, hspells⟩ := DefinedIn.exists_spelling hmade hdefined
    refine ⟨hdefined, spelling, hspells, ?_⟩
    intro other hother spelling' hspells'
    rw [hspelled hspells, hspelled hspells']
    exact hleast hother

/-- Every owner is the least path exactly if, for each name, the least path has the least
spelling. -/
theorem owners_least_iff (htree : tree.Proper) (hmade : ofTree root settings tree = .ok index) :
    (∀ name owner, index.symbols.get? name = some owner →
        IsLeast {p | index.DefinedIn name p} owner) ↔
      ∀ name path, IsLeast {p | index.DefinedIn name p} path →
        index.FoundFirst settings tree name path := by
  constructor
  · intro howners name path hpath
    obtain ⟨owner, howner⟩ := Assoc.has_iff_exists.1 ((has_symbols_iff hmade).2 ⟨path, hpath.1⟩)
    rw [hpath.unique (howners name owner howner)]
    exact foundFirst_of_get?_symbols hmade howner
  · intro hfirst name owner howner
    have hdefined := definedIn_of_get?_symbols hmade howner
    obtain ⟨least, hleast⟩ := hdefined.exists_isLeast
    have hsame := (get?_symbols_iff_foundFirst htree hmade).2 (hfirst name least hleast)
    rw [howner] at hsame
    rwa [Option.some.inj hsame]

end OfTree

end Index

/-! ## One name in two files -/

/-- Two files with a function of one name, and a folder beside them. -/
def namesakes : FileTree :=
  .ofTexts
    [("a.py", "def f():\n    pass\n"), ("b.py", "def f():\n    pass\n"), ("z/x.txt", "x\n")]

end SourceAtlas
