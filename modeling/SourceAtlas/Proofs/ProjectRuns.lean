import SourceAtlas.Project.Session
import SourceAtlas.Proofs.Discovery

/-!
# Runs of work on a project

A `Turn` is one thing done with a project, together with the files as they are at that time: its
index is made, a file is entered again or taken out, or the graphs are made anew. `Project.after?`
does turns one after the other, as long as none fails.

`perform_cases` says what a turn can do, and `after?_induction` turns a law of one turn into a law
of all runs.
-/

set_option autoImplicit false

namespace SourceAtlas

open Index

/-- Something to be done with a project. -/
inductive Action where
  | index
  | reindex (path : String) (skipGraphs : Bool)
  | remove (path : String)
  | rebuild
  deriving DecidableEq, Repr

/-- An action, and the files as they are when it happens. -/
structure Turn where
  tree : FileTree
  action : Action

variable {p q : Project} {settings : Settings} {t : Turn} {turns : List Turn} {index : Index}

namespace Project

/-- The project after one turn, and what went wrong if the turn failed. -/
def perform (p : Project) (t : Turn) : Project × Option ProjectError :=
  match t.action with
  | .index => p.makeIndex t.tree
  | .reindex path skipGraphs => p.reindex t.tree path skipGraphs
  | .remove path => p.remove path
  | .rebuild => p.rebuild

/-- The project after turns of which none fails. -/
def after? (p : Project) : List Turn → Option Project
  | [] => some p
  | t :: turns =>
    match p.perform t with
    | (next, none) => next.after? turns
    | (_, some _) => none

/-- What a turn can do when it does not fail. -/
theorem perform_cases (h : p.perform t = (q, none)) :
    (t.action = .index ∧
        ∃ i, ofTree p.root p.settings t.tree = .ok i ∧ q = { p with index := some i }) ∨
      ∃ i, p.index = some i ∧
        ((∃ path skipGraphs next, t.action = .reindex path skipGraphs ∧
            i.reindex t.tree path skipGraphs = (next, none) ∧ q = { p with index := some next }) ∨
          (∃ path, t.action = .remove path ∧ q = { p with index := some (i.remove path) }) ∨
          t.action = .rebuild ∧ q = { p with index := some i.rebuild }) := by
  obtain ⟨tree, action⟩ := t
  cases action with
  | index =>
    simp only [perform, makeIndex] at h
    cases hmake : ofTree p.root p.settings tree with
    | error e => simp [hmake] at h
    | ok i =>
      simp only [hmake, Prod.mk.injEq, and_true] at h
      exact Or.inl ⟨rfl, i, rfl, h.symm⟩
  | reindex path skipGraphs =>
    simp only [perform, reindex] at h
    cases hi : p.index with
    | none => simp [hi] at h
    | some i =>
      simp only [hi, Prod.mk.injEq, Option.map_eq_none_iff] at h
      exact Or.inr ⟨i, rfl, Or.inl ⟨path, skipGraphs, _, rfl, Prod.ext rfl h.2, h.1.symm⟩⟩
  | remove path =>
    simp only [perform, remove, change] at h
    cases hi : p.index with
    | none => simp [hi] at h
    | some i =>
      simp only [hi, Prod.mk.injEq, and_true] at h
      exact Or.inr ⟨i, rfl, Or.inr (Or.inl ⟨path, rfl, h.symm⟩)⟩
  | rebuild =>
    simp only [perform, rebuild, change] at h
    cases hi : p.index with
    | none => simp [hi] at h
    | some i =>
      simp only [hi, Prod.mk.injEq, and_true] at h
      exact Or.inr ⟨i, rfl, Or.inr (Or.inr ⟨rfl, h.symm⟩)⟩

theorem after?_append (p : Project) (turns more : List Turn) :
    p.after? (turns ++ more) = (p.after? turns).bind fun q => q.after? more := by
  induction turns generalizing p with
  | nil => rfl
  | cons t turns ih =>
    rw [List.cons_append, after?, after?]
    rcases hstep : p.perform t with ⟨q, _ | e⟩
    · exact ih q
    · rfl

theorem after?_concat {r : Project} (h : p.after? (turns ++ [t]) = some r) :
    ∃ q, p.after? turns = some q ∧ q.perform t = (r, none) := by
  rw [after?_append, Option.bind_eq_some_iff] at h
  obtain ⟨q, hq, hlast⟩ := h
  refine ⟨q, hq, ?_⟩
  simp only [after?] at hlast
  rcases hstep : q.perform t with ⟨s, _ | e⟩
  · simp only [hstep, Option.some.injEq] at hlast
    rw [hlast]
  · simp [hstep] at hlast

/-- What holds at the start and is kept by every turn holds after every run. The law may speak of
the turns so far. -/
theorem after?_induction {motive : List Turn → Project → Prop} (start : motive [] p)
    (step : ∀ turns q t r, motive turns q → q.perform t = (r, none) → motive (turns ++ [t]) r) :
    ∀ turns q, p.after? turns = some q → motive turns q := by
  intro turns
  induction turns using List.reverseRecOn with
  | nil =>
    intro q hq
    cases hq
    exact start
  | append_singleton turns t ih =>
    intro r hr
    obtain ⟨q, hq, hstep⟩ := after?_concat hr
    exact step turns q t r (ih q hq) hstep

theorem after?_index {root : String} {tree : FileTree} (h : ofTree root settings tree = .ok index)
    (turns : List Turn) :
    (fresh root settings).after? (⟨tree, .index⟩ :: turns) =
      after? ⟨root, settings, some index⟩ turns := by
  simp [after?, perform, makeIndex, fresh, h]

/-- What is seen of the index after a run is seen of some index. -/
theorem exists_index_of_view {α : Type} {run : Option Project} {view : Index → α} {a : α}
    (h : (run.bind Project.index).map view = some a) :
    ∃ p i, run = some p ∧ p.index = some i ∧ view i = a := by
  obtain ⟨i, hi, hview⟩ := Option.map_eq_some_iff.1 h
  obtain ⟨p, hp, hindex⟩ := Option.bind_eq_some_iff.1 hi
  exact ⟨p, i, hp, hindex, hview⟩

theorem perform_root (h : p.perform t = (q, none)) :
    q.root = p.root ∧ q.settings = p.settings := by
  rcases perform_cases h with
    ⟨-, i, -, rfl⟩ | ⟨i, -, ⟨path, skip, next, -, -, rfl⟩ | ⟨path, -, rfl⟩ | ⟨-, rfl⟩⟩ <;>
    exact ⟨rfl, rfl⟩

end Project

/-! ## The index stays in step along every run -/

/-- The files as they were when the index was last made. -/
def lastIndexed (turns : List Turn) : Option FileTree :=
  (turns.filterMap fun t => if t.action = .index then some t.tree else none).getLast?

theorem lastIndexed_concat (turns : List Turn) (t : Turn) :
    lastIndexed (turns ++ [t]) = if t.action = .index then some t.tree else lastIndexed turns := by
  unfold lastIndexed
  split
  · rename_i h
    simp [h]
  · rename_i h
    simp [h]

/-- The outlines of files that were found before in the same search. -/
def foundAgain (settings : Settings) (tree : FileTree) : List (String × Outline) :=
  Assoc.again [] (taken settings tree)

theorem consistent_after {root : String} {i : Index}
    (hrun : (Project.fresh root settings).after? turns = some p) (hi : p.index = some i) :
    ∃ tree, lastIndexed turns = some tree ∧
      i.Consistent fun c => c.sum (foundAgain settings tree) := by
  have key : ∀ turns p, (Project.fresh root settings).after? turns = some p →
      p.settings = settings ∧ ∀ i, p.index = some i →
        ∃ tree, lastIndexed turns = some tree ∧
          i.Consistent fun c => c.sum (foundAgain settings tree) := by
    -- Only making the index anew changes what was found again.
    refine Project.after?_induction ⟨rfl, fun i hi => by cases hi⟩ ?_
    rintro turns q t r ⟨hset, hq⟩ hstep
    refine ⟨(Project.perform_root hstep).2.trans hset, ?_⟩
    rw [lastIndexed_concat]
    rcases Project.perform_cases hstep with
      ⟨hact, j, hmake, rfl⟩ |
        ⟨j, hj, ⟨path, skip, next, hact, hre, rfl⟩ | ⟨path, hact, rfl⟩ | ⟨hact, rfl⟩⟩
    · rintro i ⟨⟩
      rw [hset] at hmake
      obtain ⟨-, -, -, rfl⟩ := ofTree_eq_ok hmake
      refine ⟨t.tree, by rw [if_pos hact], ?_⟩
      exact consistent_ofOutlines (single_taken settings t.tree)
    · rintro i ⟨⟩
      obtain ⟨tree, htree, hcons⟩ := hq j hj
      exact ⟨tree, by simp [hact, htree], hcons.reindex hre⟩
    · rintro i ⟨⟩
      obtain ⟨tree, htree, hcons⟩ := hq j hj
      exact ⟨tree, by simp [hact, htree], hcons.remove path⟩
    · rintro i ⟨⟩
      obtain ⟨tree, htree, hcons⟩ := hq j hj
      exact ⟨tree, by simp [hact, htree], hcons.rebuild⟩
  exact (key turns p hrun).2 i hi

/-- One file is found, another one appears, and the first is deleted. -/
def replacedFile : List Turn :=
  let before := FileTree.ofTexts [("a.py", "def f():\n    pass\n")]
  let after := FileTree.ofTexts [("b.py", "class C:\n    def f(self):\n        pass\n")]
  [⟨before, .index⟩, ⟨after, .reindex "b.py" true⟩, ⟨after, .reindex "a.py" false⟩,
    ⟨after, .rebuild⟩]

/-- Globs that lead to a file of the root directly and through a folder. -/
def roundabout : Settings := .of ["*.py", "d/../*.py"] [] Settings.usualMaxSize

namespace Index

variable {extra : Count → Int}

/-- Every name that a file of the index defines is in the table of symbols. -/
def Complete (index : Index) : Prop :=
  ∀ path o, index.files.get? path = some o → ∀ name ∈ o.ownNames, index.symbols.has name = true

/-- The file at `path` owns a name that is not among those it will keep, while another file of the
index defines the same name. -/
def Forsakes (index : Index) (path : String) (kept : List String) : Prop :=
  ∃ name, index.symbols.get? name = some path ∧ name ∉ kept ∧
    ∃ other o, other ≠ path ∧ index.files.get? other = some o ∧ name ∈ o.ownNames

theorem complete_ofOutlines (root : String) (found : List (String × Outline)) :
    (ofOutlines root found).Complete := by
  intro path o ho name hname
  rw [symbols_ofOutlines, Symbols.has_ofFiles_iff]
  exact ⟨(path, o), Assoc.mem_of_get? ho, Outline.definedNames_of_ownNames hname⟩

/-- Taking a file out loses a symbol exactly when the file owned a name of another file. -/
theorem complete_dropFile_iff (h : index.Consistent extra) (hcomplete : index.Complete)
    (path : String) :
    ((index.releaseFile path).dropFile path).Complete ↔ ¬ index.Forsakes path [] := by
  simp only [Complete, files_dropFile, files_releaseFile, symbols_dropFile, Assoc.get?_erase]
  constructor
  -- The name that is given up is still defined by the other file.
  · rintro hnext ⟨name, hown, -, other, o, hne, ho, hname⟩
    have hhas := hnext other o (by rw [if_neg hne, ho]) name hname
    rw [Assoc.has_eq_isSome, h.get?_symbols_releaseFile, if_pos hown] at hhas
    cases hhas
  · intro hkeep other o ho name hname
    split at ho
    · cases ho
    · rename_i hne
      obtain ⟨owner, howner⟩ := Assoc.has_iff_exists.1 (hcomplete other o ho name hname)
      have hother : index.symbols.get? name ≠ some path := fun hown =>
        hkeep ⟨name, hown, List.not_mem_nil, other, o, hne, ho, hname⟩
      rw [Assoc.has_eq_isSome, h.get?_symbols_releaseFile, if_neg hother, howner]
      rfl

/-- Entering a file again loses a symbol exactly when the file owned a name of another file and its
new outline no longer has it. -/
theorem complete_enter_iff (h : index.Consistent extra) (hcomplete : index.Complete) (path : String)
    (o : Outline) :
    ((index.releaseFile path).enter path o).Complete ↔ ¬ index.Forsakes path o.updatedNames := by
  have hfiles : ((index.releaseFile path).enter path o).files = index.files.put path o := by
    simp [enter]
  simp only [Complete, hfiles, Assoc.get?_put]
  constructor
  · rintro hnext ⟨name, hown, hnot, other, p, hne, hp, hname⟩
    have hhas := hnext other p (by rw [if_neg hne, hp]) name hname
    obtain ⟨owner, howner⟩ := Assoc.has_iff_exists.1 hhas
    rcases (h.get?_symbols_enter path o name owner).1 howner with ⟨hother, hold⟩ | ⟨-, hmem, -⟩
    · exact hother (Option.some.inj (hold.symm.trans hown))
    · exact hnot hmem
  · intro hkeep other p hp name hname
    rw [Assoc.has_iff_exists]
    split at hp
    · rename_i hsame
      cases hp
      -- The file itself has the name: it stays with its owner, or falls to the file.
      cases hold : index.symbols.get? name with
      | none =>
        exact ⟨path, (h.get?_symbols_enter path o name path).2
          (Or.inr ⟨rfl, Outline.updatedNames_of_ownNames hname, Or.inr hold⟩)⟩
      | some owner =>
        by_cases howner : owner = path
        · subst howner
          exact ⟨owner, (h.get?_symbols_enter owner o name owner).2
            (Or.inr ⟨rfl, Outline.updatedNames_of_ownNames hname, Or.inl hold⟩)⟩
        · exact ⟨owner, (h.get?_symbols_enter path o name owner).2 (Or.inl ⟨howner, hold⟩)⟩
    · rename_i hne
      obtain ⟨owner, hold⟩ := Assoc.has_iff_exists.1 (hcomplete other p hp name hname)
      by_cases howner : owner = path
      · subst howner
        have hmem : name ∈ o.updatedNames := by
          by_contra hnot
          exact hkeep ⟨name, hold, hnot, other, p, hne, hp, hname⟩
        exact ⟨owner, (h.get?_symbols_enter owner o name owner).2
          (Or.inr ⟨rfl, hmem, Or.inl hold⟩)⟩
      · exact ⟨owner, (h.get?_symbols_enter path o name owner).2 (Or.inl ⟨howner, hold⟩)⟩

end Index

namespace Project

/-- The index of the project, if there is one, has all symbols of its files. -/
def Complete (p : Project) : Prop := ∀ i, p.index = some i → i.Complete

/-- The turn makes the owner of a name drop it while another file defines the name: the file is
entered again without it, cannot be read any more, or is taken out. -/
def Forsakes (p : Project) (t : Turn) : Prop :=
  match t.action with
  | .reindex path _ =>
    ∃ i, p.index = some i ∧
      i.Forsakes (key i.root path) ((i.present? t.tree path).elim [] Outline.updatedNames)
  | .remove path => ∃ i, p.index = some i ∧ i.Forsakes (key i.root path) []
  | .index => False
  | .rebuild => False

/-- One turn loses a symbol exactly when it makes an owner drop a shared name. -/
theorem complete_perform_iff (hcons : ∀ i, p.index = some i → ∃ extra, i.Consistent extra)
    (hcomplete : p.Complete) (hstep : p.perform t = (q, none)) : q.Complete ↔ ¬ p.Forsakes t := by
  rcases perform_cases hstep with
    ⟨hact, j, hmake, rfl⟩ |
      ⟨j, hj, ⟨path, skip, next, hact, hre, rfl⟩ | ⟨path, hact, rfl⟩ | ⟨hact, rfl⟩⟩
  · obtain ⟨-, -, -, rfl⟩ := ofTree_eq_ok hmake
    simp only [Complete, Option.some.injEq, forall_eq', Forsakes, hact, not_false_eq_true, iff_true]
    exact complete_ofOutlines _ _
  · obtain ⟨extra, hj'⟩ := hcons j hj
    simp only [Complete, Option.some.injEq, forall_eq', Forsakes, hact, hj, exists_eq_left']
    rcases reindex_cases hre with ⟨hnone, rfl⟩ | ⟨o, hsome, rfl⟩
    · rw [hnone, Option.elim_none]
      exact complete_dropFile_iff hj' (hcomplete j hj) _
    · rw [hsome, Option.elim_some, ← complete_enter_iff hj' (hcomplete j hj)]
      cases skip <;> rfl
  · obtain ⟨extra, hj'⟩ := hcons j hj
    simp only [Complete, Option.some.injEq, forall_eq', Forsakes, hact, hj, exists_eq_left']
    exact complete_dropFile_iff hj' (hcomplete j hj) _
  · simp only [Complete, Option.some.injEq, forall_eq', Forsakes, hact, not_false_eq_true, iff_true]
    exact hcomplete j hj

/-- **Exactly the runs that make an owner drop a shared name lose a symbol.** Every index along a
run has all symbols of its files if and only if no turn of the run takes a name from its owner while
another file defines it. -/
theorem complete_along_run_iff {root : String} {settings : Settings} {turns : List Turn}
    {p : Project} (hrun : (fresh root settings).after? turns = some p) :
    (∀ earlier q, earlier <+: turns → (fresh root settings).after? earlier = some q →
        q.Complete) ↔
      ∀ earlier t q, earlier ++ [t] <+: turns → (fresh root settings).after? earlier = some q →
        ¬ q.Forsakes t := by
  induction turns using List.reverseRecOn generalizing p with
  | nil =>
    refine iff_of_true ?_ ?_
    · intro earlier q hprefix hq
      rw [List.prefix_nil.1 hprefix] at hq
      cases hq
      rintro i ⟨⟩
    · intro earlier t q hprefix
      exact absurd (List.prefix_nil.1 hprefix) (by simp)
  | append_singleton turns t ih =>
    obtain ⟨q, hq, hstep⟩ := after?_concat hrun
    have hcons : ∀ i, q.index = some i → ∃ extra, i.Consistent extra := fun i hi =>
      let ⟨_, _, h⟩ := consistent_after hq hi
      ⟨_, h⟩
    constructor
    -- Both sides speak of all earlier points, so that only the last turn is new.
    · intro hall earlier u r hprefix hr
      rcases List.prefix_concat_iff.1 hprefix with heq | hprefix
      · obtain ⟨rfl, hu⟩ := List.append_inj' heq rfl
        cases hu
        rw [hq] at hr
        cases hr
        have hbefore : q.Complete := hall earlier q (List.prefix_append _ _) hq
        exact (complete_perform_iff hcons hbefore hstep).1 (hall _ p (List.prefix_refl _) hrun)
      · exact (ih hq).1 (fun earlier q hp => hall earlier q (hp.trans (List.prefix_append _ _)))
          earlier u r hprefix hr
    · intro hall earlier r hprefix hr
      have hold : ∀ earlier r, earlier <+: turns → (fresh root settings).after? earlier = some r →
          r.Complete :=
        (ih hq).2 fun earlier u r hp => hall earlier u r (hp.trans (List.prefix_append _ _))
      rcases List.prefix_concat_iff.1 hprefix with rfl | hprefix
      · rw [hrun] at hr
        cases hr
        have hbefore : q.Complete := hold turns q (List.prefix_refl _) hq
        exact (complete_perform_iff hcons hbefore hstep).2 (hall turns t q (List.prefix_refl _) hq)
      · exact hold earlier r hprefix hr

/-- Two files that define one name. -/
def sharedName : FileTree :=
  .ofTexts [("a.py", "def f():\n    pass\n"), ("b.py", "def f():\n    pass\n")]

/-- The owner of a shared name is deleted and taken out. -/
def removedOwner : List Turn :=
  [⟨sharedName, .index⟩, ⟨sharedName.delete "a.py", .remove "a.py"⟩]

theorem after?_removedOwner :
    ∃ i, (fresh "/project" .usual).after? removedOwner = some ⟨"/project", .usual, some i⟩ ∧
      ∃ o, i.files.get? "b.py" = some o ∧ "f" ∈ o.ownNames ∧ i.symbols.has "f" = false := by
  have hfinds : Settings.usual.Finds sharedName [⟨"a.py", "a.py"⟩, ⟨"b.py", "b.py"⟩] := by
    decide +kernel
  have hmade := hfinds.ofTree (by decide +kernel) "/project"
  have hrun := after?_index hmade [⟨sharedName.delete "a.py", .remove "a.py"⟩]
  have hview : ∃ i, (fresh "/project" .usual).after? removedOwner =
      some ⟨"/project", .usual, some i⟩ ∧
        ((i.files.get? "b.py").any fun o => o.ownNames.contains "f") = true ∧
          i.symbols.has "f" = false :=
    ⟨_, hrun, by decide +kernel, by decide +kernel⟩
  obtain ⟨i, hi, hfile, hlost⟩ := hview
  obtain ⟨o, ho, hname⟩ := (Option.any_eq_true _ _).1 hfile
  exact ⟨i, hi, o, ho, by simpa using hname, hlost⟩

/-- A symbol is lost although a file that defines it stays. -/
theorem symbol_lost_with_its_owner :
    ∃ p, (fresh "/project" .usual).after? removedOwner = some p ∧ ¬ p.Complete := by
  obtain ⟨i, hrun, o, ho, hname, hlost⟩ := after?_removedOwner
  refine ⟨_, hrun, fun hcomplete => ?_⟩
  have hhas := hcomplete i rfl "b.py" o ho "f" hname
  rw [hlost] at hhas
  cases hhas

/-- Some turn of that run makes an owner drop a shared name. -/
theorem forsakes_removedOwner :
    ∃ earlier t q, earlier ++ [t] <+: removedOwner ∧
      (fresh "/project" .usual).after? earlier = some q ∧ q.Forsakes t := by
  obtain ⟨i, hrun, o, ho, hname, hlost⟩ := after?_removedOwner
  by_contra hnone
  have hcomplete := (complete_along_run_iff hrun).2 (fun earlier t q hprefix hq hforsakes =>
    hnone ⟨earlier, t, q, hprefix, hq, hforsakes⟩) removedOwner _ (List.prefix_refl _) hrun
  have hhas := hcomplete i rfl "b.py" o ho "f" hname
  rw [hlost] at hhas
  cases hhas

end Project

end SourceAtlas
