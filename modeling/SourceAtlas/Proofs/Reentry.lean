import SourceAtlas.Proofs.GraphUpkeep

/-!
# Files that come and go, and files that stay as they are

Two things that should leave no trace. The first does: a file that an index does not have can be
entered and taken out again, whatever names it shares with other files, and the index is the one it
was before (`reindex_then_remove`). Nothing of the index belongs to a file that it does not have,
so that taking the file out undoes exactly what entering it did, part by part.

The second does only in part. A file that has not changed since the index was made keeps its place
in files, totals and imports when it is entered again. But an update enters the bare names of
methods, which the making of an index leaves out; `reindex_unchanged` says what this adds, and when
it adds nothing.
-/

set_option autoImplicit false

namespace SourceAtlas

open Assoc

variable {extra : Count → Int}

namespace Symbols

/-- The names that a file enters come after all others, and belong to the file. -/
theorem enter_eq_append (table : Symbols) (path : String) (names : List String) :
    ∃ added, table.enter path names = table ++ added ∧
      ∀ e ∈ added, e.1 ∈ names ∧ e.2 = path := by
  unfold enter
  induction names generalizing table with
  | nil => exact ⟨[], by simp, by simp⟩
  | cons name names ih =>
    rw [List.foldl_cons, putNew]
    split
    -- A name that is taken stays with its owner.
    · obtain ⟨added, hadded, howned⟩ := ih table
      exact ⟨added, hadded, fun e he => ⟨List.mem_cons_of_mem _ (howned e he).1, (howned e he).2⟩⟩
    · obtain ⟨added, hadded, howned⟩ := ih (table ++ [(name, path)])
      refine ⟨(name, path) :: added, by simpa using hadded, ?_⟩
      rintro e (_ | ⟨_, he⟩)
      · exact ⟨List.mem_cons_self, rfl⟩
      · exact ⟨List.mem_cons_of_mem _ (howned e he).1, (howned e he).2⟩

/-- A file that owned nothing gives up exactly what it has entered. -/
theorem release_enter {table : Symbols} {path : String} (h : ∀ e ∈ table, e.2 ≠ path)
    (names : List String) : (table.enter path names).release path names = table := by
  obtain ⟨added, hadded, howned⟩ := enter_eq_append table path names
  have hold : table.release path names = table := by
    refine List.filter_eq_self.2 ?_
    rintro ⟨name, owner⟩ hmem
    have hne : owner ≠ path := h (name, owner) hmem
    simp [hne]
  have hnew : Symbols.release added path names = [] := by
    refine List.filter_eq_nil_iff.2 ?_
    rintro ⟨name, owner⟩ hmem
    obtain ⟨hname, howner⟩ := howned (name, owner) hmem
    simpa using And.intro howner hname
  rw [hadded]
  unfold release at hold hnew ⊢
  rw [List.filter_append, hold, hnew, List.append_nil]

end Symbols

namespace Index

/-! ## Entered and taken out -/

section

variable {index : Index} {path : String} {o : Outline}

theorem releaseFile_of_missing (h : index.files.get? path = none) :
    index.releaseFile path = index := by
  simp only [releaseFile, h]

theorem releaseFile_of_mem (h : index.files.get? path = some o) :
    index.releaseFile path = index.release path o := by
  simp only [releaseFile, h]

theorem Orderly.not_mem_imports (h : index.Orderly) (hnew : index.files.get? path = none) :
    path ∉ keys index.imports := by
  intro hmem
  obtain ⟨targets, hget⟩ := mem_keys_iff.1 hmem
  obtain ⟨-, p, -, hp, -⟩ := h.imports hget
  rw [hnew] at hp
  cases hp

theorem Consistent.ne_owner (h : index.Consistent extra) (hnew : index.files.get? path = none) :
    ∀ e ∈ index.symbols, e.2 ≠ path := by
  rintro ⟨name, owner⟩ hmem rfl
  obtain ⟨p, hp, -⟩ := h.owner (get?_of_mem h.nodup_symbols hmem)
  rw [hnew] at hp
  cases hp

theorem erase_putImports {imports : Graph} (h : path ∉ keys imports) (targets : Names) :
    (putImports imports path targets).erase path = imports := by
  unfold putImports
  split
  · rw [erase_eq_self h, erase_eq_self h]
  · exact erase_put h targets

/-- Taking a file out undoes what entering it did, if the index did not have the file. -/
theorem Orderly.dropFile_enter (h : index.Orderly) (hc : index.Consistent extra)
    (hnew : index.files.get? path = none) (o : Outline) :
    (((index.releaseFile path).enter path o).releaseFile path).dropFile path = index := by
  have hkey : path ∉ index.files.keys := get?_eq_none_iff.1 hnew
  have hnode := h.not_mem_imports hnew
  have hget : (index.files.put path o).get? path = some o := by rw [get?_put, if_pos rfl]
  have hhas : (index.files.put path o).has path = true := has_iff_exists.2 ⟨o, hget⟩
  have hfiles : (index.files.put path o).erase path = index.files := erase_put hkey o
  have hsymbols := Symbols.release_enter (hc.ne_owner hnew) o.updatedNames
  have himports := erase_putImports hnode (o.importTargets path (index.files.put path o).keys)
  have himporters := h.dropTarget_importers hnode
  -- Entered, the file is the one that is taken out.
  have hreleased : (index.enter path o).releaseFile path = (index.enter path o).release path o :=
    releaseFile_of_mem hget
  have hdropped : ((index.enter path o).release path o).dropFile path = index := by
    simp only [dropFile, release, enter, hhas, if_true, hfiles, hsymbols, himports, himporters,
      Totals.add, Totals.subtract, Int.add_sub_cancel, ← hc.fileTotal]
  rw [releaseFile_of_missing hnew, hreleased, hdropped]

/-- Entering a file that can be read. -/
theorem reindex_of_present? {tree : FileTree}
    (hnul : (Project.absolute index.root path).contains '\x00' = false)
    (h : index.present? tree path = some o) (skipGraphs : Bool) :
    let key := Project.key index.root path
    index.reindex tree path skipGraphs =
      (if skipGraphs then (index.releaseFile key).enter key o
        else ((index.releaseFile key).enter key o).refresh, none) := by
  rcases index.reindex_outcome tree path with ⟨fault, hrefuses, -⟩ | ⟨hnone, -⟩ | ⟨p, hp, hleft⟩
  · rcases hrefuses with ⟨hfault, -⟩ | ⟨bytes, cause, hread, herror, -⟩
    · rw [hnul] at hfault
      cases hfault
    · simp [present?, hread, herror, Except.toOption] at h
  · rw [hnone] at h
    cases h
  · obtain rfl := Option.some.inj (hp.symm.trans h)
    exact hleft skipGraphs

end

end Index

namespace Project

/-- **A file that an index does not have can be entered and taken out again, and nothing is left of
it.** The project is the one it was before, with all of its index, whatever names the file shares
with other files. So every run that goes on from there, as by making the graphs anew, leads where it
would have led without. -/
theorem reindex_then_remove {root : String} {settings : Settings} {turns : List Turn}
    {p : Project} (hrun : (fresh root settings).after? turns = some p) {i : Index}
    (hi : p.index = some i) {tree : FileTree} {path : String} {o : Outline}
    (hnew : i.files.has (key i.root path) = false)
    (hnul : (absolute i.root path).contains '\x00' = false)
    (hpresent : i.present? tree path = some o) :
    (∃ entered, i.reindex tree path true = (entered, none) ∧
        entered.files.get? (key i.root path) = some o ∧ entered.remove path = i) ∧
      ∀ later more, p.after? (⟨tree, .reindex path true⟩ :: ⟨later, .remove path⟩ :: more) =
        p.after? more := by
  have hmissing : i.files.get? (key i.root path) = none := Assoc.has_eq_false_iff.1 hnew
  have horderly : i.Orderly := orderly_through turns (by rw [through_of_after? hrun, hi])
  obtain ⟨_, -, hconsistent⟩ := consistent_after hrun hi
  have hentered := Index.reindex_of_present? hnul hpresent true
  have hremoved := horderly.dropFile_enter hconsistent hmissing o
  refine ⟨⟨_, hentered, ?_, ?_⟩, fun later more => ?_⟩
  · simp [Index.enter, Assoc.get?_put]
  · simpa [Index.remove] using hremoved
  · have hback : ({ p with index := some i } : Project) = p := by rw [← hi]
    simp only [after?, perform, reindex, hi, hentered, if_true, Option.map_none, remove, change,
      Index.remove, Index.root_enter, Index.root_releaseFile, hremoved, hback]

/-- A file with one function. -/
def functionAlone : FileTree := .ofTexts [("a.py", "def f():\n    pass\n")]

/-- The same with a second file, which imports the first, and has a function and a method of that
name. -/
def namesakeBeside : FileTree :=
  .ofTexts [("a.py", "def f():\n    pass\n"),
    ("b.py", "import a\n\n\nclass C:\n    def f(self):\n        pass\n\n\ndef f():\n    pass\n")]

/-- A file that shares names with another one comes and goes. -/
theorem namesake_comes_and_goes :
    ∃ p i o, (fresh "/project" .usual).after? [⟨functionAlone, .index⟩] = some p ∧
      p.index = some i ∧ i.symbols.get? "f" = some "a.py" ∧ i.files.has "b.py" = false ∧
      i.present? namesakeBeside "b.py" = some o ∧ "f" ∈ o.ownNames ∧
      p.after? [⟨namesakeBeside, .reindex "b.py" true⟩, ⟨functionAlone, .remove "b.py"⟩] =
        some p := by
  have hview : (((fresh "/project" .usual).after? [⟨functionAlone, .index⟩]).bind index).map
      (fun i => (i.symbols.get? "f", key i.root "b.py", i.files.has "b.py",
        (absolute i.root "b.py").contains '\x00',
        (i.present? namesakeBeside "b.py").any fun o => o.ownNames.contains "f")) =
      some (some "a.py", "b.py", false, false, true) := by decide +kernel
  obtain ⟨p, i, hp, hi, hseen⟩ := exists_index_of_view hview
  simp only [Prod.mk.injEq] at hseen
  obtain ⟨howner, hkey, hmissing, hnul, hpresent⟩ := hseen
  obtain ⟨o, ho, hname⟩ := (Option.any_eq_true _ _).1 hpresent
  have hfree : i.files.has (key i.root "b.py") = false := by rw [hkey, hmissing]
  obtain ⟨-, hsame⟩ := reindex_then_remove hp hi hfree hnul ho
  exact ⟨p, i, o, hp, hi, howner, hmissing, ho, by simpa using hname, hsame functionAlone []⟩

end Project

/-! ## Entered again unchanged -/

/-- An update enters the names that an index made anew enters, and the bare names of methods. -/
theorem Outline.mem_updatedNames_iff_definedNames {o : Outline} {name : String} :
    name ∈ o.updatedNames ↔ name ∈ o.definedNames ∨ o.HasMethod name := by
  rw [mem_updatedNames, mem_definedNames]
  constructor
  · rintro (⟨f, hf, hq | hn⟩ | hclass)
    · exact Or.inl (Or.inl ⟨f, hf, Or.inl hq⟩)
    · cases hmethod : f.isMethod with
      | true => exact Or.inr ⟨f, hf, hmethod, hn⟩
      | false => exact Or.inl (Or.inl ⟨f, hf, Or.inr ⟨hmethod, hn⟩⟩)
    · exact Or.inl (Or.inr hclass)
  · rintro ((⟨f, hf, hq | ⟨-, hn⟩⟩ | hclass) | ⟨f, hf, -, hn⟩)
    · exact Or.inl ⟨f, hf, Or.inl hq⟩
    · exact Or.inl ⟨f, hf, Or.inr hn⟩
    · exact Or.inr hclass
    · exact Or.inl ⟨f, hf, Or.inr hn⟩

/-- A value for a name that has none changes nothing if the name has one already. -/
theorem Assoc.get?_or_eq_self_iff {β : Type} {t : Assoc β} {name : String} {v : β} {p : Prop}
    [Decidable p] :
    (t.get? name).or (if p then some v else none) = t.get? name ↔ (p → t.has name = true) := by
  rw [has_eq_isSome]
  cases t.get? name <;> simp

/-- The dependencies depend on a table of symbols by what can be read from it. -/
theorem Graph.same_ofDependencies_of_symbols (files : Assoc Outline) {symbols table : Symbols}
    (h : ∀ name, symbols.get? name = table.get? name) :
    (ofDependencies files symbols).Same (ofDependencies files table) := by
  refine same_ofDependencies (fun _ => Iff.rfl) fun e _ => ?_
  refine Outline.dependences_congr fun name _ => ?_
  rw [has_eq_isSome, has_eq_isSome, h]

namespace Index

/-- Files and totals are equal, and symbols and graphs are the same as maps. -/
structure Alike (index other : Index) : Prop extends index.SameGraphs other where
  files : index.files = other.files
  totals : index.totals = other.totals
  symbols : ∀ name, index.symbols.get? name = other.symbols.get? name

section

variable {index : Index} {path : String} {o : Outline}

/-- Outlines that are entered again count as before. -/
theorem Consistent.totals_enter (h : index.Consistent extra) (ho : index.files.get? path = some o) :
    ((index.releaseFile path).enter path o).totals = index.totals := by
  have hagain := h.releaseFile_enter path o
  have hfiles : ((index.releaseFile path).enter path o).files = index.files := by
    rw [enter, files_releaseFile, put_eq_self ho]
  refine Count.totals_eq ?_ fun c => ?_
  · rw [hagain.fileTotal, h.fileTotal, hfiles]
  · rw [hagain.count, h.count, hfiles]

/-- A file whose outline is entered again owns what it owned, and the bare names of its methods as
far as they were free. -/
theorem Consistent.get?_symbols_again (h : index.Consistent extra)
    (hdefined : ∀ name ∈ o.definedNames, index.symbols.has name = true)
    (ho : index.files.get? path = some o) (name : String) :
    ((index.releaseFile path).enter path o).symbols.get? name =
      (index.symbols.get? name).or (if o.HasMethod name then some path else none) := by
  ext owner
  rw [h.get?_symbols_enter]
  cases hold : index.symbols.get? name with
  | some first =>
    -- The name stays with its owner: if that is the file itself, its outline still has the name.
    have hkept : first = path → name ∈ o.updatedNames := by
      rintro rfl
      obtain ⟨p, hp, hname⟩ := h.owner hold
      obtain rfl := Option.some.inj (ho.symm.trans hp)
      exact hname
    rw [Option.some_or, Option.some.injEq]
    constructor
    · rintro (⟨-, hsame⟩ | ⟨rfl, -, hsame | hnone⟩)
      · exact hsame
      · exact Option.some.inj hsame
      · cases hnone
    · rintro rfl
      by_cases hfirst : first = path
      · exact Or.inr ⟨hfirst, hkept hfirst, Or.inl (congrArg some hfirst)⟩
      · exact Or.inl ⟨hfirst, rfl⟩
  | none =>
    -- A free name is none that the file defines.
    have hnot : name ∉ o.definedNames := by
      intro hmem
      obtain ⟨owner, howner⟩ := has_iff_exists.1 (hdefined name hmem)
      rw [hold] at howner
      cases howner
    have hmethod : name ∈ o.updatedNames ↔ o.HasMethod name := by
      rw [Outline.mem_updatedNames_iff_definedNames, or_iff_right hnot]
    by_cases hhas : o.HasMethod name
    · simp [hmethod, hhas, eq_comm]
    · simp [hmethod, hhas]

end

/-- The names that the files of a new index define are symbols. -/
theorem has_symbol_of_ofTree {root : String} {settings : Settings} {tree : FileTree} {index : Index}
    (h : ofTree root settings tree = .ok index) {path : String} {o : Outline}
    (ho : index.files.get? path = some o) :
    ∀ name ∈ o.definedNames, index.symbols.has name = true := by
  intro name hname
  obtain ⟨-, -, -, rfl⟩ := ofTree_eq_ok h
  rw [symbols_ofOutlines, Symbols.has_ofFiles_iff]
  exact ⟨(path, o), mem_of_get? ho, hname⟩

/-- **A file that has not changed since the index was made is entered again.** Files, totals and
imports are as before, and so are the symbols but for one thing: the bare names of the methods of
the file that were free now belong to it. The dependencies are those of the files with that table.
So the index is as before if and only if all of these names were symbols already. -/
theorem reindex_unchanged {root : String} (hroot : Path.IsRoot root) {settings : Settings}
    {old new : FileTree} (hold : old.Proper) (hnew : new.Proper) {index : Index}
    (hmade : ofTree root settings old = .ok index) {path : String} {o : Outline}
    (ho : index.files.get? path = some o)
    (hbytes : new.files.get? path = old.files.get? path) :
    ∃ next, index.reindex new path false = (next, none) ∧
      next.files = index.files ∧ next.totals = index.totals ∧
      next.imports.Same index.imports ∧ next.importers.Same index.importers ∧
      (∀ name, next.symbols.get? name =
        (index.symbols.get? name).or (if o.HasMethod name then some path else none)) ∧
      next.dependencies = Graph.ofDependencies index.files next.symbols ∧
      next.dependents = next.dependencies.transpose ∧
      (next.Alike index ↔ ∀ name, o.HasMethod name → index.symbols.has name = true) := by
  have horderly := orderly_ofTree hmade
  have hcurrent := current_ofTree hmade
  obtain ⟨bytes, hfile, hread⟩ := file_of_ofTree hmade ho
  obtain ⟨extra, hconsistent⟩ : ∃ extra, index.Consistent extra := by
    obtain ⟨-, -, -, rfl⟩ := ofTree_eq_ok hmade
    exact ⟨_, consistent_ofOutlines (single_taken settings old)⟩
  have hproper : Path.Proper path := hold.files path (Assoc.mem_keys_iff.2 ⟨bytes, hfile⟩)
  have hrooted : Path.IsRoot index.root := by
    obtain ⟨-, -, -, rfl⟩ := ofTree_eq_ok hmade
    exact hroot
  have hentered : index.reindex new path false =
      (((index.releaseFile path).enter path o).refresh, none) :=
    reindex_of_present hrooted hnew hproper (hbytes.trans hfile) hread false
  have hfiles : ((index.releaseFile path).enter path o).files = index.files := by
    rw [enter, files_releaseFile, Assoc.put_eq_self ho]
  have hsymbols := hconsistent.get?_symbols_again (has_symbol_of_ofTree hmade ho) ho
  have htotals := hconsistent.totals_enter ho
  -- The imports are looked for among the same files as before.
  have hleads : index.LeadsAmong path (index.files.put path o).keys := by
    rw [hcurrent.leadsAmong_iff horderly, Assoc.put_eq_self ho]
    exact fun _ _ _ _ _ => Iff.rfl
  have hsame := (horderly.same_refresh_iff hread).2 hleads
  have himports := hsame.imports
  have himporters := hsame.importers
  simp only [rebuild, hfiles] at himports himporters
  replace himports := himports.trans hcurrent.imports.symm
  replace himporters := himporters.trans hcurrent.importers.symm
  have hdependencies : ((index.releaseFile path).enter path o).refresh.dependencies =
      Graph.ofDependencies index.files ((index.releaseFile path).enter path o).symbols := by
    rw [refresh, hfiles]
  refine ⟨_, hentered, hfiles, htotals, himports, himporters, hsymbols, hdependencies, rfl, ?_⟩
  constructor
  · intro halike name
    exact Assoc.get?_or_eq_self_iff.1 ((hsymbols name).symm.trans (halike.symbols name))
  · intro hall
    have htable : ∀ name, ((index.releaseFile path).enter path o).symbols.get? name =
        index.symbols.get? name := fun name =>
      (hsymbols name).trans (Assoc.get?_or_eq_self_iff.2 (hall name))
    have hwords := Graph.same_ofDependencies_of_symbols index.files htable
    have hturned := hwords.transpose (Graph.nodup_keys_ofDependencies _ _)
      (Graph.nodup_keys_ofDependencies _ _)
    rw [← hdependencies] at hwords hturned
    have hgraphs : ((index.releaseFile path).enter path o).refresh.SameGraphs index :=
      ⟨himports, himporters, hwords.trans hcurrent.dependencies.symm,
        hturned.trans hcurrent.dependents.symm⟩
    exact ⟨hgraphs, hfiles, htotals, htable⟩

/-- A file with a method, and a file that imports a name which only that method has. -/
def importedMethod : FileTree :=
  .ofTexts [("a.py", "class A:\n    def run(self):\n        pass\n"),
    ("b.py", "from a import run\n\n\ndef g():\n    run()\n")]

/-- Entering an unchanged file again makes a symbol of the bare name of its method, and something
depends on it. -/
theorem method_name_entered_unchanged :
    ∃ index next, ofTree "/project" .usual importedMethod = .ok index ∧
      index.reindex importedMethod "a.py" false = (next, none) ∧
      index.symbols.get? "run" = none ∧ next.symbols.get? "run" = some "a.py" ∧
      index.dependencies.targets "g" = [] ∧ next.dependencies.targets "g" = ["run"] ∧
      ¬ next.Alike index := by
  have hfinds : Settings.usual.Finds importedMethod [⟨"a.py", "a.py"⟩, ⟨"b.py", "b.py"⟩] := by
    decide +kernel
  have hmade : ∃ index, ofTree "/project" .usual importedMethod = .ok index ∧
      (index.reindex importedMethod "a.py" false).2 = none ∧
      index.symbols.get? "run" = none ∧
      (index.reindex importedMethod "a.py" false).1.symbols.get? "run" = some "a.py" ∧
      index.dependencies.targets "g" = [] ∧
      (index.reindex importedMethod "a.py" false).1.dependencies.targets "g" = ["run"] :=
    ⟨_, hfinds.ofTree (by decide +kernel) _, by decide +kernel⟩
  obtain ⟨index, hofTree, hfault, hbefore, hafter, hold, hnew⟩ := hmade
  refine ⟨index, _, hofTree, Prod.ext rfl hfault, hbefore, hafter, hold, hnew, fun halike => ?_⟩
  have hname := halike.symbols "run"
  rw [hbefore, hafter] at hname
  cases hname

/-- A file with a method, and a file with a function of the same name. -/
def namedMethod : FileTree :=
  .ofTexts [("a.py", "class A:\n    def run(self):\n        pass\n"),
    ("b.py", "def run():\n    pass\n")]

/-- If the bare name is a symbol already, all is as before. -/
theorem named_method_unchanged :
    ∃ index next, ofTree "/project" .usual namedMethod = .ok index ∧
      index.reindex namedMethod "a.py" false = (next, none) ∧
      index.symbols.get? "run" = some "b.py" ∧ next.Alike index := by
  have hfinds : Settings.usual.Finds namedMethod [⟨"a.py", "a.py"⟩, ⟨"b.py", "b.py"⟩] := by
    decide +kernel
  have hmade : ∃ index, ofTree "/project" .usual namedMethod = .ok index ∧
      index.symbols.get? "run" = some "b.py" ∧
      ((index.files.get? "a.py").any fun o => o.functions.all fun f => f.name == "run") = true :=
    ⟨_, hfinds.ofTree (by decide +kernel) _, by decide +kernel⟩
  obtain ⟨index, hofTree, howner, hmethods⟩ := hmade
  obtain ⟨o, ho, hall⟩ := (Option.any_eq_true _ _).1 hmethods
  obtain ⟨next, hnext, -, -, -, -, -, -, -, hiff⟩ :=
    reindex_unchanged Path.isRoot_project (by decide) (by decide) hofTree ho rfl
  refine ⟨index, next, hofTree, hnext, howner, hiff.2 ?_⟩
  rintro name ⟨f, hf, -, rfl⟩
  have hname : f.name = "run" := by simpa using List.all_eq_true.1 hall f hf
  rw [hname, Assoc.has_eq_isSome, howner]
  rfl

end Index

end SourceAtlas
