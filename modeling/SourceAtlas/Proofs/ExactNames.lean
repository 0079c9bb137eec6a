import SourceAtlas.Proofs.ClassMethods
import SourceAtlas.Proofs.FreshSymbols
import SourceAtlas.Proofs.SymbolSearch

/-!
# Exact names and short names

A method goes by two names, its own and the one with its class in front, and a search stops at the
first function that goes by the name that is looked for, before it comes to the classes. So a method
that has the name in short can stand in the way of the function or class whose name it is. An
outline is `Shadowed` under a name if that happens.

* What is found bears the name itself if and only if the outline is not shadowed under it
  (`name_eq_iff_of_definition?`).
* The source of a function is that of the first function that goes by the name, in the file that the
  table of symbols gives (`functionSource_of_owner`). A source that reads like an error there is
  taken for one, and then the files are searched in the order of their paths
  (`exists_functionSource_elsewhere`).

`Index.exact_name_found_iff` says this of the index of a tree and of its answers.
-/

set_option autoImplicit false

namespace SourceAtlas

variable {f : Callable}

/-! ## Shadowed names -/

/-- A function with another full name than its own is a method. -/
theorem Callable.Qualified.isMethod_of_ne {m : Callable} (h : m.Qualified)
    (hother : m.qualifiedName ≠ m.name) : m.isMethod = true := by
  rcases h with ⟨-, -, hsame⟩ | ⟨-, hmethod, -⟩
  · exact absurd hsame hother
  · exact hmethod

namespace Outline

variable {o : Outline} {name : String}

/-- A function that has the name only in short stands before every function that has it in full. -/
def Shadowed (o : Outline) (name : String) : Prop :=
  ∃ before m after, o.functions = before ++ m :: after ∧ m.name = name ∧ m.qualifiedName ≠ name ∧
    ∀ f ∈ before, f.qualifiedName ≠ name

/-- An outline is shadowed if the first function that goes by the name has it only in short. -/
theorem shadowed_iff :
    o.Shadowed name ↔ ∃ m, o.function? name = some m ∧ m.qualifiedName ≠ name := by
  constructor
  · rintro ⟨before, m, after, hsplit, hname, hm, hbefore⟩
    have hcalled : m.isCalled name = true := Callable.isCalled_iff.2 (.inl hname)
    have hfind : o.function? name = (before.find? (·.isCalled name)).or (some m) := by
      simp [function?, hsplit, List.find?_append, hcalled]
    -- A function before it that goes by the name also has it only in short.
    cases hfirst : before.find? (·.isCalled name) with
    | some f =>
      rw [hfirst] at hfind
      exact ⟨f, hfind, hbefore f (List.mem_of_find?_eq_some hfirst)⟩
    | none =>
      rw [hfirst] at hfind
      exact ⟨m, hfind, hm⟩
  · rintro ⟨m, hfirst, hm⟩
    obtain ⟨hcalled, before, after, hsplit, hbefore⟩ := List.find?_eq_some_iff_append.1 hfirst
    refine ⟨before, m, after, hsplit, (Callable.isCalled_iff.1 hcalled).resolve_right hm, hm, ?_⟩
    intro f hf hfull
    have hmiss := hbefore f hf
    rw [Callable.isCalled_iff.2 (.inr hfull)] at hmiss
    cases hmiss

instance (o : Outline) (name : String) : Decidable (o.Shadowed name) :=
  decidable_of_iff _ shadowed_iff.symm

theorem qualifiedName_eq_iff_of_function? (h : o.function? name = some f) :
    f.qualifiedName = name ↔ ¬ o.Shadowed name := by
  simp [shadowed_iff, h]

theorem not_shadowed_of_no_function (h : o.function? name = none) : ¬ o.Shadowed name := by
  simp [shadowed_iff, h]

theorem exists_function?_of_mem (hf : f ∈ o.functions)
    (hname : f.name = name ∨ f.qualifiedName = name) : ∃ g, o.function? name = some g := by
  cases hfirst : o.function? name with
  | some g => exact ⟨g, rfl⟩
  | none => exact absurd hname (function?_eq_none_iff.1 hfirst f hf)

variable {d : Definition}

/-- What is found bears the name itself if and only if the outline is not shadowed under it. -/
theorem name_eq_iff_of_definition? (h : o.definition? name = some d) :
    d.name = name ↔ ¬ o.Shadowed name := by
  cases hfirst : o.function? name with
  | some f =>
    rw [definition?_of_function? hfirst] at h
    cases h
    exact qualifiedName_eq_iff_of_function? hfirst
  | none =>
    rw [definition?_of_no_function hfirst] at h
    obtain ⟨c, hclass, rfl⟩ := Option.map_eq_some_iff.1 h
    exact iff_of_true (of_class?_eq_some hclass).2 (not_shadowed_of_no_function hfirst)

/-- The class of the name is found if no function goes by the name. -/
theorem exists_class_iff_of_definition? (h : o.definition? name = some d) :
    (∃ c ∈ o.classes, c.name = name ∧ d = .type c) ↔
      ¬ o.Shadowed name ∧ ∀ f ∈ o.functions, f.qualifiedName ≠ name := by
  constructor
  · rintro ⟨c, hc, hname, rfl⟩
    refine ⟨(name_eq_iff_of_definition? h).1 hname, ?_⟩
    intro f hf hfull
    obtain ⟨g, hfirst⟩ := exists_function?_of_mem hf (.inr hfull)
    rw [definition?_of_function? hfirst] at h
    cases h
  · rintro ⟨hclear, hnone⟩
    have hexact := (name_eq_iff_of_definition? h).2 hclear
    obtain ⟨hholds, -⟩ := of_definition?_eq_some h
    cases d with
    | callable f => exact absurd hexact (hnone f hholds)
    | type c => exact ⟨c, hholds, hexact, rfl⟩

/-- A function of that full name is found if there is one, unless it is shadowed. -/
theorem exists_function_iff_of_definition? (h : o.definition? name = some d) :
    (∃ f ∈ o.functions, f.qualifiedName = name ∧ d = .callable f) ↔
      ¬ o.Shadowed name ∧ ∃ f ∈ o.functions, f.qualifiedName = name := by
  constructor
  · rintro ⟨f, hf, hfull, rfl⟩
    exact ⟨(name_eq_iff_of_definition? h).1 hfull, f, hf, hfull⟩
  · rintro ⟨hclear, f, hf, hfull⟩
    obtain ⟨g, hfirst⟩ := exists_function?_of_mem hf (.inr hfull)
    rw [definition?_of_function? hfirst] at h
    cases h
    have hg := of_function?_eq_some hfirst
    exact ⟨g, hg.1, (qualifiedName_eq_iff_of_function? hfirst).2 hclear, rfl⟩

/-- If the outline is shadowed, what is found is a method of that short name. -/
theorem exists_method_iff_of_definition? (hall : AllQualified o.functions)
    (h : o.definition? name = some d) :
    (∃ m ∈ o.functions, m.isMethod = true ∧ m.name = name ∧ m.qualifiedName ≠ name ∧
        d = .callable m) ↔ o.Shadowed name := by
  constructor
  · rintro ⟨m, -, -, -, hother, rfl⟩
    by_contra hclear
    exact hother ((name_eq_iff_of_definition? h).2 hclear)
  · intro hshadowed
    obtain ⟨m, hfirst, hother⟩ := shadowed_iff.1 hshadowed
    obtain ⟨hm, hname⟩ := of_function?_eq_some hfirst
    have hshort : m.name = name := hname.resolve_right hother
    rw [definition?_of_function? hfirst] at h
    cases h
    refine ⟨m, hm, ?_, hshort, hother, rfl⟩
    exact (hall m hm).isMethod_of_ne (hshort ▸ hother)

theorem functionSource_of_function? (h : o.function? name = some f) :
    o.functionSource name = .ok (o.textOf f.span) := by
  rw [functionSource, h]

theorem toOption_functionSource :
    (o.functionSource name).toOption = (o.function? name).map fun f => o.textOf f.span := by
  cases hfirst : o.function? name with
  | some f => simp [functionSource_of_function? hfirst, Except.toOption]
  | none => simp [functionSource, hfirst, Except.toOption]

/-- The source of the first function that goes by the name reads like an error. -/
def ReadsLikeError (o : Outline) (name : String) : Prop :=
  ∃ f, o.function? name = some f ∧
    Text.startsWith "Error:".toList (o.textOf f.span).toList = true

end Outline

/-! ## The file of a source -/

namespace Index

variable {index : Index} {name owner : String} {o : Outline}

/-- The file has a function that goes by the name. -/
def HasFunction (index : Index) (name path : String) : Prop :=
  ∃ o, index.files.get? path = some o ∧
    ∃ f ∈ o.functions, f.name = name ∨ f.qualifiedName = name

/-- The source in the file that the table gives is left out if it reads like an error. -/
theorem symbolSource?_of_owner (howner : index.symbols.get? name = some owner)
    (ho : index.files.get? owner = some o) (hf : o.function? name = some f) :
    index.symbolSource? Outline.functionSource name =
      if Text.startsWith "Error:".toList (o.textOf f.span).toList then none
      else some (o.textOf f.span) := by
  rw [symbolSource?, howner, Option.bind_some, resolveFile?_of_get? ho]
  simp only [Outline.functionSource_of_function? hf]

/-- The source is taken from the file that the table gives, if it does not read like an error
there. -/
theorem functionSource_of_owner (howner : index.symbols.get? name = some owner)
    (ho : index.files.get? owner = some o) (hf : o.function? name = some f)
    (hplain : ¬ o.ReadsLikeError name) (limit : Int) :
    index.functionSource name none limit = truncated limit (o.textOf f.span) := by
  have hsource : index.symbolSource? Outline.functionSource name = some (o.textOf f.span) := by
    rw [symbolSource?_of_owner howner ho hf, if_neg]
    intro hstart
    exact hplain ⟨f, hf, hstart⟩
  simp [functionSource, sourceByName, hsource]

/-- A search for a source through all files ends at the first path that has one. -/
theorem exists_isLeast_of_search (hkeys : index.files.keys.Nodup) {path : String}
    (hhas : index.HasFunction name path) :
    ∃ least p f, index.files.get? least = some p ∧ p.function? name = some f ∧
      IsLeast {other | index.HasFunction name other} least ∧
      (index.sortedFiles.findSome? fun e => (e.2.functionSource name).toOption) =
        some (p.textOf f.span) := by
  obtain ⟨o, ho, f, hf, hname⟩ := hhas
  simp only [Outline.toOption_functionSource]
  cases hsearch : index.sortedFiles.findSome? fun e =>
      (e.2.function? name).map fun f => e.2.textOf f.span with
  | none =>
    have hmiss := List.findSome?_eq_none_iff.1 hsearch (path, o)
      (mem_sortedFiles.2 (Assoc.mem_of_get? ho))
    obtain ⟨g, hg⟩ := Outline.exists_function?_of_mem hf hname
    simp [hg] at hmiss
  | some text =>
    obtain ⟨before, ⟨least, p⟩, after, hsplit, hhit, hmiss⟩ := List.findSome?_eq_some_iff.1 hsearch
    obtain ⟨g, hg, rfl⟩ := Option.map_eq_some_iff.1 hhit
    have hleast : index.files.get? least = some p := by
      apply Assoc.get?_of_mem hkeys
      rw [← mem_sortedFiles, hsplit]
      simp
    refine ⟨least, p, g, hleast, hg, ⟨?_, ?_⟩, rfl⟩
    · obtain ⟨hmem, hcalled⟩ := Outline.of_function?_eq_some hg
      exact ⟨p, hleast, g, hmem, hcalled⟩
    · rintro other ⟨q, hq, f', hf', hname'⟩
      have hentry : (other, q) ∈ before ++ (least, p) :: after := by
        rw [← hsplit, mem_sortedFiles]
        exact Assoc.mem_of_get? hq
      have hsorted := pairwise_sortedFiles index
      rw [hsplit, List.pairwise_append, List.pairwise_cons] at hsorted
      -- No file before the first hit has such a function, and those after it have later paths.
      rcases List.mem_append.1 hentry with hbefore | hrest
      · obtain ⟨g', hg'⟩ := Outline.exists_function?_of_mem hf' hname'
        have hnone := hmiss (other, q) hbefore
        simp [hg'] at hnone
      · rcases List.mem_cons.1 hrest with heq | hafter
        · cases heq
          exact le_refl _
        · exact hsorted.2.1.1 (other, q) hafter

/-- A source that reads like an error is looked for in all files, and taken from the first. -/
theorem exists_functionSource_elsewhere (hkeys : index.files.keys.Nodup)
    (howner : index.symbols.get? name = some owner) (ho : index.files.get? owner = some o)
    (herror : o.ReadsLikeError name) :
    ∃ path p f, index.files.get? path = some p ∧ p.function? name = some f ∧
      IsLeast {other | index.HasFunction name other} path ∧
      ∀ limit, index.functionSource name none limit = truncated limit (p.textOf f.span) := by
  obtain ⟨first, hfirst, hstart⟩ := herror
  have htable : index.symbolSource? Outline.functionSource name = none := by
    rw [symbolSource?_of_owner howner ho hfirst, if_pos hstart]
  obtain ⟨hmem, hname⟩ := Outline.of_function?_eq_some hfirst
  obtain ⟨path, p, f, hp, hf, hleast, hsearch⟩ :=
    exists_isLeast_of_search hkeys ⟨o, ho, first, hmem, hname⟩
  refine ⟨path, p, f, hp, hf, hleast, ?_⟩
  intro limit
  simp only [functionSource, sourceByName, htable, hsearch]
  rfl

/-! ## The index of a tree -/

section OfTree

variable {root : String} {settings : Settings} {tree : FileTree}

section

variable (hmade : ofTree root settings tree = .ok index)
include hmade

theorem allQualified_of_ofTree (ho : index.files.get? owner = some o) :
    AllQualified o.functions := by
  obtain ⟨bytes, -, hread⟩ := file_of_ofTree hmade ho
  exact (Outline.coherent_ofText hread).allQualified

/-- A name of the table is found in the file that the table gives. -/
theorem exists_findDefinition?_of_owner (howner : index.symbols.get? name = some owner) :
    ∃ o d, index.files.get? owner = some o ∧ o.definition? name = some d ∧
      index.findDefinition? name = some ⟨owner, o, d⟩ := by
  obtain ⟨o, ho, hdefined⟩ := definedIn_of_get?_symbols hmade howner
  have hname : o.HasName name := by
    rcases hdefined with ⟨f, hf, hfull | ⟨-, hshort⟩⟩ | hclass
    · exact .inl ⟨f, hf, .inl hfull⟩
    · exact .inl ⟨f, hf, .inr hshort⟩
    · exact .inr hclass
  cases hd : o.definition? name with
  | none => exact absurd hname (Outline.definition?_eq_none_iff.1 hd)
  | some d =>
    have htable : index.tableDefinition? name = some ⟨owner, o, d⟩ :=
      tableDefinition?_eq_some_iff.2 ⟨howner, resolveFile?_of_get? ho, hd⟩
    exact ⟨o, d, ho, hd, by simp [findDefinition?, htable]⟩

/-- The source of a function is that of the first function of the name in the owner's file, or, if
that reads like an error, in the first file by path that has one. -/
theorem exists_functionSource_of_owner (howner : index.symbols.get? name = some owner)
    (ho : index.files.get? owner = some o) (hf : f ∈ o.functions)
    (hname : f.name = name ∨ f.qualifiedName = name) :
    ∃ path p g, index.files.get? path = some p ∧ p.function? name = some g ∧
      (∀ limit, index.functionSource name none limit = truncated limit (p.textOf g.span)) ∧
      (¬ o.ReadsLikeError name → path = owner) ∧
      (o.ReadsLikeError name → IsLeast {other | index.HasFunction name other} path) := by
  by_cases herror : o.ReadsLikeError name
  · have hkeys : index.files.keys.Nodup := by
      obtain ⟨found, -, -, rfl⟩ := ofTree_eq_ok hmade
      exact Assoc.nodup_keys_ofPairs _
    obtain ⟨path, p, g, hp, hg, hleast, hsource⟩ :=
      exists_functionSource_elsewhere hkeys howner ho herror
    exact ⟨path, p, g, hp, hg, hsource, fun hplain => absurd herror hplain, fun _ => hleast⟩
  · obtain ⟨g, hg⟩ := Outline.exists_function?_of_mem hf hname
    refine ⟨owner, o, g, ho, hg, ?_, fun _ => rfl, fun h => absurd h herror⟩
    intro limit
    exact functionSource_of_owner howner ho hg herror limit

end

end OfTree

/-- **An exact name is found if and only if no method stands in its way.** In the index of a tree, a
name of the table is found in the file that the table gives. What is found is the class of the name
if no function of the file has the name in full, or else such a function, exactly if the file is not
shadowed under the name; if it is, a method is found that has the name only in short. The source of
a function is that of a function with the name in full exactly if the file it comes from is not
shadowed. That file is the one of the table, unless the source there reads like an error; then it is
the first by path that has a function that goes by the name. -/
theorem exact_name_found_iff {root : String} {settings : Settings} {tree : FileTree} {index : Index}
    {name owner : String} (hmade : ofTree root settings tree = .ok index)
    (howner : index.symbols.get? name = some owner) :
    ∃ o d, index.files.get? owner = some o ∧
      index.answer (.findSymbol name) = .ok (Render.located ⟨owner, o, d⟩) ∧
      ((∃ c ∈ o.classes, c.name = name ∧ d = .type c) ↔
        ¬ o.Shadowed name ∧ ∀ f ∈ o.functions, f.qualifiedName ≠ name) ∧
      ((∃ f ∈ o.functions, f.qualifiedName = name ∧ d = .callable f) ↔
        ¬ o.Shadowed name ∧ ∃ f ∈ o.functions, f.qualifiedName = name) ∧
      ((∃ m ∈ o.functions, m.isMethod = true ∧ m.name = name ∧ m.qualifiedName ≠ name ∧
          d = .callable m) ↔ o.Shadowed name) ∧
      ((∃ f ∈ o.functions, f.qualifiedName = name) →
        ∃ path p g, index.files.get? path = some p ∧ p.function? name = some g ∧
          (∀ limit, index.answer (.functionSource name none limit) =
            .ok (.text (truncated limit (p.textOf g.span)))) ∧
          (g.qualifiedName = name ↔ ¬ p.Shadowed name) ∧
          (¬ o.ReadsLikeError name → path = owner) ∧
          (o.ReadsLikeError name → IsLeast {other | index.HasFunction name other} path)) := by
  obtain ⟨o, d, ho, hd, hfind⟩ := exists_findDefinition?_of_owner hmade howner
  refine ⟨o, d, ho, answer_of_findDefinition? hfind, Outline.exists_class_iff_of_definition? hd,
    Outline.exists_function_iff_of_definition? hd,
    Outline.exists_method_iff_of_definition? (allQualified_of_ofTree hmade ho) hd, ?_⟩
  rintro ⟨f, hf, hfull⟩
  obtain ⟨path, p, g, hp, hg, hsource, hplain, herror⟩ :=
    exists_functionSource_of_owner hmade howner ho hf (.inr hfull)
  refine ⟨path, p, g, hp, hg, ?_, Outline.qualifiedName_eq_iff_of_function? hg, hplain, herror⟩
  intro limit
  rw [answer, hsource limit]

end Index

/-! ## Methods of another's name -/

/-- A class with a constructor, and a function after a method of its name. -/
def overshadowed : FileTree :=
  .ofTexts
    [("Shape.cs", "public class Shape \x7b\n    public Shape() \x7b \x7d\n\x7d\n"),
      ("job.py", "class Job:\n    def run(self):\n        return 0\n\ndef run():\n    return 1\n")]

/-- The constructor is found for the class, and the method for the function. -/
theorem methods_found_for_exact_names :
    ∃ index, Index.ofTree "/project" (.of ["Shape.cs", "job.py"] [] Settings.usualMaxSize)
        overshadowed = .ok index ∧
      index.symbols.get? "Shape" = some "Shape.cs" ∧ index.symbols.get? "run" = some "job.py" ∧
      (∃ o, index.files.get? "Shape.cs" = some o ∧ (∃ c ∈ o.classes, c.name = "Shape") ∧
        ∀ f ∈ o.functions, f.qualifiedName ≠ "Shape") ∧
      (∃ o, index.files.get? "job.py" = some o ∧ ∃ f ∈ o.functions, f.qualifiedName = "run") ∧
      (index.findSymbol "Shape").map (fun found => found.definition.name) = .ok "Shape.Shape" ∧
      (index.findSymbol "run").map (fun found => found.definition.name) = .ok "Job.run" ∧
      index.functionSource "run" none 0 = "    def run(self):\n        return 0" := by
  have hfinds : (Settings.of ["Shape.cs", "job.py"] [] Settings.usualMaxSize).Finds overshadowed
      [⟨"Shape.cs", "Shape.cs"⟩, ⟨"job.py", "job.py"⟩] := by
    decide +kernel
  exact ⟨_, hfinds.ofTree (by decide +kernel) _, by decide +kernel⟩

/-- A function that stands before a method of its name. -/
def unshadowed : FileTree :=
  .ofTexts
    [("job.py", "def run():\n    return 1\n\nclass Job:\n    def run(self):\n        return 0\n")]

/-- The function is found, and not the method. -/
theorem earlier_function_found :
    ∃ index, Index.ofTree "/project" (.of ["job.py"] [] Settings.usualMaxSize) unshadowed =
        .ok index ∧
      index.symbols.get? "run" = some "job.py" ∧
      ∃ o, index.files.get? "job.py" = some o ∧ ∃ f ∈ o.functions, f.qualifiedName = "run" ∧
        index.answer (.findSymbol "run") = .ok (Render.located ⟨"job.py", o, .callable f⟩) := by
  have hfinds : (Settings.of ["job.py"] [] Settings.usualMaxSize).Finds unshadowed
      [⟨"job.py", "job.py"⟩] := by
    decide +kernel
  have hview : ∃ index, Index.ofTree "/project" (.of ["job.py"] [] Settings.usualMaxSize)
        unshadowed = .ok index ∧
      index.symbols.get? "run" = some "job.py" ∧
      ∃ o, index.files.get? "job.py" = some o ∧
        ¬ o.Shadowed "run" ∧ ∃ f ∈ o.functions, f.qualifiedName = "run" :=
    ⟨_, hfinds.ofTree (by decide +kernel) _, by decide +kernel⟩
  obtain ⟨index, hmade, howner, o, ho, hexact⟩ := hview
  obtain ⟨same, d, hsame, hanswer, -, hfunction, -⟩ := Index.exact_name_found_iff hmade howner
  obtain rfl : o = same := Option.some.inj (ho.symm.trans hsame)
  obtain ⟨f, hf, hfull, rfl⟩ := hfunction.2 hexact
  exact ⟨index, hmade, howner, o, ho, f, hf, hfull, hanswer⟩

end SourceAtlas
