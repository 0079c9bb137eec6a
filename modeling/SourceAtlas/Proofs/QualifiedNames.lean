import Mathlib.Tactic.Common
import SourceAtlas.Outline.OfText

/-!
# The two names of a callable

A function of an outline that is no method has one name only, and a method is qualified by the name
of its class (`Callable.Qualified`). A method is shown twice, in the list of its class and among all
functions (`MethodsListed`). The sweeps over the lines of a source keep such laws: what every visit
keeps is kept by a sweep (`sweep_induction_of_mem`), and what every visit finds is all that is
collected (`forall_mem_collect_of_mem`).
-/

set_option autoImplicit false

namespace SourceAtlas

namespace Place

/-- What every visit to one of the places keeps is kept by a sweep over them. -/
theorem sweep_induction_of_mem {σ : Type} {visit : σ → Place → σ × Nat} {motive : σ → Prop}
    {places : List Place} (hvisit : ∀ s, ∀ p ∈ places, motive s → motive (visit s p).1) {s : σ}
    (hs : motive s) (covered : Nat) : motive (sweep visit covered s places) := by
  induction places generalizing covered s with
  | nil => cases covered <;> exact hs
  | cons p places ih =>
    have hrest := fun s q hq => hvisit s q (List.mem_cons_of_mem p hq)
    cases covered with
    | zero => exact ih hrest (hvisit s p List.mem_cons_self hs) _
    | succ covered => exact ih hrest hs covered

/-- What is true of all that visits to the places find is true of all that is collected there. -/
theorem forall_mem_collect_of_mem {α : Type} {visit : Place → List α × Nat} {motive : α → Prop}
    {places : List Place} (hvisit : ∀ p ∈ places, ∀ x ∈ (visit p).1, motive x) (covered : Nat) :
    ∀ x ∈ collect visit covered places, motive x := by
  induction places generalizing covered with
  | nil => cases covered <;> simp [collect]
  | cons p places ih =>
    have hrest := (List.forall_mem_cons.1 hvisit).2
    cases covered with
    | zero =>
      intro x hx
      rcases List.mem_append.1 hx with hx | hx
      · exact hvisit p List.mem_cons_self x hx
      · exact ih hrest _ x hx
    | succ covered => exact ih hrest covered

end Place

/-- A plain function has one name, and a method is qualified by the name of its class. -/
def Callable.Qualified (f : Callable) : Prop :=
  (f.isMethod = false ∧ f.parent = none ∧ f.qualifiedName = f.name) ∨
    ∃ parent, f.isMethod = true ∧ f.parent = some parent ∧
      f.qualifiedName = parent ++ "." ++ f.name

theorem Callable.qualified_plain (name : String) (span : Span) (parameters decorators : List String)
    (docstring : Option String) : (plain name span parameters decorators docstring).Qualified :=
  Or.inl ⟨rfl, rfl, rfl⟩

theorem Callable.qualified_method (parent name : String) (span : Span)
    (parameters decorators : List String) (docstring : Option String) :
    (method parent name span parameters decorators docstring).Qualified :=
  Or.inr ⟨parent, rfl, rfl, rfl⟩

/-- All of the callables are qualified. -/
def AllQualified (fs : List Callable) : Prop := ∀ f ∈ fs, f.Qualified

/-- The callable is a method of a class of the name. -/
def Callable.IsMethodOf (f : Callable) (parent : String) : Prop :=
  f.isMethod = true ∧ f.parent = some parent

/-- The methods that a class lists are among the functions and belong to the class. -/
def ClassItem.Listed (functions : List Callable) (c : ClassItem) : Prop :=
  ∀ m ∈ c.methods, m ∈ functions ∧ m.IsMethodOf c.name

/-- The methods that the classes list are among the functions and belong to their class. -/
def MethodsListed (functions : List Callable) (classes : List ClassItem) : Prop :=
  ∀ c ∈ classes, c.Listed functions

theorem methodsListed_nil (functions : List Callable) : MethodsListed functions [] :=
  fun _ hc => absurd hc List.not_mem_nil

end SourceAtlas
