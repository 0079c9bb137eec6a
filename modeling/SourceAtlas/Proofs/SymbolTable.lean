import SourceAtlas.Proofs.Tables

/-!
# Who owns a symbol

What can be read from a symbol table after a file's names were entered (`get?_enter`), after a file
gave its names up (`get?_release`), and from the table of all files (`get?_ofFiles`). An entry is
only ever added for a free name, so the names of a table stay all different.

An outline has three lists of names. `ownNames` are the names it defines, `definedNames` those that
a fresh table enters, and `updatedNames` those that an update enters or takes out. Each list holds
the one before.
-/

set_option autoImplicit false

namespace SourceAtlas

namespace Outline

/-- The names that a file defines: its functions and methods by their qualified names, and its
classes. -/
def ownNames (o : Outline) : List String :=
  o.functions.map Callable.qualifiedName ++ o.classes.map ClassItem.name

/-- The file has a function or method by one of its two names, or a class, of that name. -/
def HasName (o : Outline) (name : String) : Prop :=
  (∃ f ∈ o.functions, f.qualifiedName = name ∨ f.name = name) ∨ ∃ c ∈ o.classes, c.name = name

variable {name : String} {o : Outline}

theorem mem_ownNames :
    name ∈ o.ownNames ↔
      (∃ f ∈ o.functions, f.qualifiedName = name) ∨ ∃ c ∈ o.classes, c.name = name := by
  simp [ownNames]

theorem mem_updatedNames : name ∈ o.updatedNames ↔ o.HasName name := by
  simp [updatedNames, HasName, eq_comm]

theorem mem_definedNames :
    name ∈ o.definedNames ↔
      (∃ f ∈ o.functions, f.qualifiedName = name ∨ f.isMethod = false ∧ f.name = name) ∨
        ∃ c ∈ o.classes, c.name = name := by
  simp only [definedNames, List.mem_append, List.mem_flatMap, List.mem_map]
  refine or_congr (exists_congr fun f => and_congr_right fun _ => ?_) Iff.rfl
  cases f.isMethod <;> simp [eq_comm]

theorem definedNames_of_ownNames (h : name ∈ o.ownNames) : name ∈ o.definedNames := by
  rw [mem_definedNames]
  rcases mem_ownNames.1 h with ⟨f, hf, hname⟩ | hclass
  · exact Or.inl ⟨f, hf, Or.inl hname⟩
  · exact Or.inr hclass

theorem updatedNames_of_definedNames (h : name ∈ o.definedNames) : name ∈ o.updatedNames := by
  rw [mem_updatedNames]
  rcases mem_definedNames.1 h with ⟨f, hf, hname | ⟨-, hname⟩⟩ | hclass
  · exact Or.inl ⟨f, hf, Or.inl hname⟩
  · exact Or.inl ⟨f, hf, Or.inr hname⟩
  · exact Or.inr hclass

theorem updatedNames_of_ownNames (h : name ∈ o.ownNames) : name ∈ o.updatedNames :=
  updatedNames_of_definedNames (definedNames_of_ownNames h)

end Outline

namespace Symbols

variable {table : Symbols}

theorem nodup_keys_putNew (h : table.keys.Nodup) (name path : String) :
    (Assoc.putNew table name path).keys.Nodup := by
  unfold Assoc.putNew
  cases hname : table.has name with
  | true => simpa using h
  | false =>
    have hfree : name ∉ table.keys := by
      rw [← Assoc.get?_eq_none_iff]
      exact Assoc.has_eq_false_iff.1 hname
    simp only [Bool.false_eq_true, if_false, Assoc.keys, List.map_append, List.map_cons,
      List.map_nil, List.nodup_append]
    refine ⟨h, List.nodup_singleton name, ?_⟩
    rintro a ha b hb rfl
    exact hfree (List.mem_singleton.1 hb ▸ ha)

/-- What can be read after names of a file were entered: older owners stay. -/
theorem get?_enter (table : Symbols) (path : String) (names : List String) (name : String) :
    (table.enter path names).get? name =
      (table.get? name).or (if name ∈ names then some path else none) := by
  unfold enter
  induction names generalizing table with
  | nil => simp
  | cons n names ih =>
    rw [List.foldl_cons, ih, Assoc.get?_putNew, Option.or_assoc]
    congr 1
    by_cases hn : name = n
    · simp [hn]
    · simp [hn]

theorem nodup_keys_enter (h : table.keys.Nodup) (path : String) (names : List String) :
    (table.enter path names).keys.Nodup := by
  unfold enter
  induction names generalizing table with
  | nil => exact h
  | cons n names ih => exact ih (nodup_keys_putNew h n path)

theorem nodup_keys_release (h : table.keys.Nodup) (path : String) (names : List String) :
    (table.release path names).keys.Nodup :=
  List.Nodup.sublist (List.Sublist.map Prod.fst List.filter_sublist) h

/-- What can be read after a file gave names up: exactly its own entries among them are gone. -/
theorem get?_release (h : table.keys.Nodup) (path : String) (names : List String) (name : String) :
    (table.release path names).get? name =
      if table.get? name = some path ∧ name ∈ names then none else table.get? name := by
  have hmem : ∀ owner, (table.release path names).get? name = some owner ↔
      table.get? name = some owner ∧ ¬ (owner = path ∧ name ∈ names) := by
    intro owner
    rw [← Assoc.mem_iff_get? (nodup_keys_release h path names), ← Assoc.mem_iff_get? h]
    simp [release, imp_iff_not_or]
  -- Compared by what can be read, entry by entry.
  ext owner
  rw [hmem owner]
  split
  · rename_i hown
    refine iff_of_false ?_ (by simp)
    rintro ⟨howner, hkept⟩
    exact hkept ⟨Option.some.inj (howner.symm.trans hown.1), hown.2⟩
  · rename_i hown
    rw [and_iff_left_iff_imp]
    rintro howner ⟨rfl, hn⟩
    exact hown ⟨howner, hn⟩

/-- Entering the files of a table one after the other: the first file with a name gets it. -/
theorem get?_foldl_enter (files : Assoc Outline) (table : Symbols) (name : String) :
    Assoc.get? (files.foldl (fun t (path, o) => enter t path o.definedNames) table) name =
      (table.get? name).or
        (files.findSome? fun (path, o) => if name ∈ o.definedNames then some path else none) := by
  induction files generalizing table with
  | nil => simp
  | cons e files ih =>
    obtain ⟨path, o⟩ := e
    rw [List.foldl_cons, ih, get?_enter, Option.or_assoc, List.findSome?_cons]
    congr 1
    by_cases hname : name ∈ o.definedNames <;> simp [hname]

/-- The table of all files gives each name to the first file that defines it. -/
theorem get?_ofFiles (files : Assoc Outline) (name : String) :
    (ofFiles files).get? name =
      files.findSome? fun (path, o) => if name ∈ o.definedNames then some path else none := by
  rw [ofFiles, get?_foldl_enter]
  simp

theorem nodup_keys_ofFiles (files : Assoc Outline) : (ofFiles files).keys.Nodup := by
  have key : ∀ table : Symbols, table.keys.Nodup →
      (files.foldl (fun t (path, o) => enter t path o.definedNames) table).keys.Nodup := by
    induction files with
    | nil => exact fun _ h => h
    | cons e files ih => exact fun table h => ih _ (nodup_keys_enter h e.1 e.2.definedNames)
  exact key [] List.nodup_nil

theorem has_ofFiles_iff {files : Assoc Outline} {name : String} :
    (ofFiles files).has name = true ↔ ∃ e ∈ files, name ∈ e.2.definedNames := by
  rw [Assoc.has_eq_isSome, get?_ofFiles, List.isSome_findSome?]
  simp [List.any_eq_true]

theorem exists_of_get?_ofFiles {files : Assoc Outline} {name path : String}
    (h : (ofFiles files).get? name = some path) :
    ∃ o, (path, o) ∈ files ∧ name ∈ o.definedNames := by
  rw [get?_ofFiles] at h
  obtain ⟨⟨p, o⟩, hmem, heq⟩ := List.exists_of_findSome?_eq_some h
  by_cases hname : name ∈ o.definedNames
  · simp only [hname, if_true, Option.some.injEq] at heq
    exact ⟨o, heq ▸ hmem, hname⟩
  · simp [hname] at heq

end Symbols

end SourceAtlas
