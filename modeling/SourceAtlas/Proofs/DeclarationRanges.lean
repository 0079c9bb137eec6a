import Mathlib.Data.List.Pairwise
import SourceAtlas.Proofs.LineRanges
import SourceAtlas.Proofs.VisitedPlaces

/-!
# Ranges of declarations in Go

The types of a Go source, and the functions that no interface lists, have no line in common; a
method that an interface lists has one line, strictly inside of the interface. `Go.Parted` is this
law for an outline, and `Go.parted_outline` shows it for every source.

The law is about the methods that an interface lists. An interface that lists none gets, as any
other type does, the functions that name it as their receiver, and those lie elsewhere:
`Parted.inside_iff` says exactly when the methods that are reported for an interface lie inside of
it, and `emptyInterface_method_outside` is a source where they do not.

A sweep over the lines finds the declarations, and what its visits cover lies apart
(`Place.pairwise_visited`). So it is enough that a declaration has just the lines that its visit
covers (`span_of_declarationAt`).
-/

set_option autoImplicit false

namespace SourceAtlas

open Go.Declaration

/-- The ranges have no line in common. -/
def Span.Apart (s t : Span) : Prop := s.last < t.first ∨ t.last < s.first

/-- The range is one line, and it lies strictly between the first and the last line of another. -/
def Span.LineInside (s t : Span) : Prop := s.first = s.last ∧ t.first < s.first ∧ s.last < t.last

instance (s t : Span) : Decidable (s.LineInside t) := by
  unfold Span.LineInside
  infer_instance

namespace Go

open Text

/-- The lines of a declaration. -/
def Declaration.span : Declaration → Span
  | .callable f => f.span
  | .type c => c.span

/-- The function that a declaration declares by itself, without an interface. -/
def Declaration.function? : Declaration → Option Callable
  | .callable f => some f
  | .type _ => none

instance (p : Place) : Decidable (StartsInterface p) := by
  unfold StartsInterface
  infer_instance

/-- The type is an interface, as its first line says. -/
def IsInterface (lines : List Line) (c : ClassItem) : Prop :=
  ∃ p ∈ Place.all lines, c.span.first = p.index + 1 ∧ StartsInterface p

instance (lines : List Line) (c : ClassItem) : Decidable (IsInterface lines c) := by
  unfold IsInterface
  infer_instance

/-- How the ranges in the outline of a source lie to each other. -/
structure Parted (lines : List Line) (o : Outline) : Prop where
  /-- Types, and functions that no interface lists, have no line in common. -/
  ranges_apart : (o.classes.map (·.span) ++
    ((declarations lines).filterMap Declaration.function?).map (·.span)).Pairwise Span.Apart
  /-- All other functions are listed by an interface. -/
  mem_functions_iff : ∀ f, f ∈ o.functions ↔
    f ∈ (declarations lines).filterMap Declaration.function? ∨
      ∃ c, type c ∈ declarations lines ∧ IsInterface lines c ∧ f ∈ c.methods
  /-- What an interface lists is one line inside of it. -/
  listed_inside : ∀ c, type c ∈ declarations lines → ∀ m ∈ c.methods,
    m.span.LineInside c.span
  /-- What is reported as a method of an interface lies inside of it if some function does, or if no
  function has the interface as its parent; and only then. -/
  inside_iff : ∀ c ∈ o.classes, IsInterface lines c →
    ((∀ m ∈ c.methods, m.span.LineInside c.span) ↔
      (∃ f ∈ o.functions, f.span.LineInside c.span) ∨ ∀ f ∈ o.functions, f.parent ≠ some c.name)

/-! ## One visit -/

/-- A declaration has just the lines that its visit covers. -/
theorem span_of_declarationAt {p : Place} {d : Declaration} (hd : d ∈ (declarationAt p).1) :
    d.span = spanOf p (declarationAt p).2 := by
  rcases declarationAt_cases p with hnone | ⟨f, hf, hvisit⟩ | ⟨c, reach, hc, hvisit⟩
  · rw [hnone] at hd
    cases hd
  · rw [hvisit, List.mem_singleton] at hd
    rw [hd, hvisit]
    exact (callable?_cases hf).2
  · rw [hvisit, List.mem_singleton] at hd
    rw [hd, hvisit]
    exact (type?_cases hc).2.1

/-! ## All declarations -/

section Source

variable {lines : List Line}

theorem exists_place_of_mem {d : Declaration} (hd : d ∈ declarations lines) :
    ∃ p ∈ Place.all lines, d ∈ (declarationAt p).1 := by
  revert d
  apply Place.forall_mem_collect_of_mem
  intro p hp d hd
  exact ⟨p, hp, hd⟩

/-- **Declarations come in order, each after the last line of those before it.** -/
theorem pairwise_declarations (lines : List Line) :
    (declarations lines).Pairwise fun d e => d.span.last < e.span.first := by
  rw [declarations, Place.collect_eq_flatMap, List.pairwise_flatMap]
  constructor
  · intro p _
    rcases declarationAt_cases p with hnone | ⟨f, -, hvisit⟩ | ⟨c, reach, -, hvisit⟩
    · rw [hnone]
      exact .nil
    · rw [hvisit]
      exact List.pairwise_singleton _ _
    · rw [hvisit]
      exact List.pairwise_singleton _ _
  · apply (Place.pairwise_visited 0 0 [] lines).imp
    intro p q hless d hd e he
    rw [span_of_declarationAt hd, span_of_declarationAt he]
    dsimp only [spanOf]
    omega

/-- The interface of a listed method, and the line on which the method stands. -/
theorem listed_cases {c : ClassItem} (hc : type c ∈ declarations lines) {m : Callable}
    (hm : m ∈ c.methods) : IsInterface lines c ∧ m.span.LineInside c.span := by
  obtain ⟨p, hp, hd⟩ := exists_place_of_mem hc
  rcases declarationAt_cases p with hnone | ⟨f, -, hvisit⟩ | ⟨b, reach, htype, hvisit⟩
  · rw [hnone] at hd
    cases hd
  · rw [hvisit, List.mem_singleton] at hd
    cases hd
  · rw [hvisit, List.mem_singleton] at hd
    cases hd
    obtain ⟨-, hspan, hnone | ⟨hstarts, hmethods⟩⟩ := type?_cases htype
    · rw [hnone] at hm
      cases hm
    rw [hmethods] at hm
    obtain ⟨q, hq, hsignature⟩ := List.mem_filterMap.1 hm
    obtain ⟨match', -, rfl⟩ := Option.map_eq_some_iff.1 hsignature
    -- The body is what lies between the first and the last line.
    have hindex := Place.index_of_mem_take (List.mem_filter.1 hq).1
    rw [hspan]
    refine ⟨⟨p, hp, by rw [hspan]; rfl, hstarts⟩, rfl, ?_, ?_⟩ <;>
      dsimp only [spanOf, Callable.method] <;> omega

theorem apart_of_ne {d e : Declaration} (hd : d ∈ declarations lines) (he : e ∈ declarations lines)
    (hne : d ≠ e) : d.span.Apart e.span := by
  have hsymm : Std.Symm fun d e : Declaration => d.span.Apart e.span := ⟨fun _ _ => Or.symm⟩
  have hapart : (declarations lines).Pairwise fun d e => d.span.Apart e.span :=
    (pairwise_declarations lines).imp Or.inl
  exact hapart.forall hd he hne

/-- Types, and functions that no interface lists, have no line in common. -/
theorem pairwise_apart (lines : List Line) :
    (((declarations lines).filterMap Declaration.type?).map (·.span) ++
      ((declarations lines).filterMap Declaration.function?).map (·.span)).Pairwise Span.Apart := by
  rw [List.pairwise_append, List.pairwise_map, List.pairwise_filterMap, List.pairwise_map,
    List.pairwise_filterMap]
  refine ⟨?_, ?_, ?_⟩
  · apply (pairwise_declarations lines).imp
    rintro (_ | b) (_ | c) hless _ ⟨⟩ _ ⟨⟩
    exact .inl hless
  · apply (pairwise_declarations lines).imp
    rintro (f | _) (g | _) hless _ ⟨⟩ _ ⟨⟩
    exact .inl hless
  · intro s hs t ht
    obtain ⟨c, hc, rfl⟩ := List.mem_map.1 hs
    obtain ⟨f, hf, rfl⟩ := List.mem_map.1 ht
    obtain ⟨_ | b, hd, ⟨⟩⟩ := List.mem_filterMap.1 hc
    obtain ⟨g | _, he, ⟨⟩⟩ := List.mem_filterMap.1 hf
    exact apart_of_ne hd he fun heq => by cases heq

theorem mem_flatMap_callables_iff {f : Callable} :
    f ∈ (declarations lines).flatMap callables ↔
      f ∈ (declarations lines).filterMap Declaration.function? ∨
        ∃ c, type c ∈ declarations lines ∧ IsInterface lines c ∧ f ∈ c.methods := by
  rw [List.mem_flatMap, List.mem_filterMap]
  constructor
  · rintro ⟨g | c, hd, hf⟩
    · exact .inl ⟨.callable g, hd, congrArg some (List.mem_singleton.1 hf).symm⟩
    · exact .inr ⟨c, hd, (listed_cases hd hf).1, hf⟩
  · rintro (⟨g | c, hd, ⟨⟩⟩ | ⟨c, hc, -, hf⟩)
    · exact ⟨_, hd, List.mem_singleton.2 rfl⟩
    · exact ⟨_, hc, hf⟩

/-- A function inside of a type is one that the type lists: all others lie apart from it. -/
theorem mem_methods_of_lineInside {c : ClassItem} (hc : type c ∈ declarations lines)
    {f : Callable} (hf : f ∈ (declarations lines).flatMap callables)
    (hinside : f.span.LineInside c.span) : f ∈ c.methods := by
  obtain ⟨hline, hfirst, hlast⟩ := hinside
  obtain ⟨d, hd, hmem⟩ := List.mem_flatMap.1 hf
  by_cases heq : d = .type c
  · rw [heq] at hmem
    exact hmem
  -- The line of `f` is one of `d`, which has none in common with `c`.
  have hwithin : d.span.first ≤ f.span.first ∧ f.span.last ≤ d.span.last := by
    cases d with
    | callable g =>
      rw [List.mem_singleton.1 hmem]
      exact ⟨Int.le_refl _, Int.le_refl _⟩
    | type b =>
      obtain ⟨-, hbefore, hbehind⟩ := (listed_cases hd hmem).2
      exact ⟨Int.le_of_lt hbefore, Int.le_of_lt hbehind⟩
  have hapart : d.span.Apart c.span := apart_of_ne hd hc heq
  rw [Span.Apart] at hapart
  omega

end Source

/-! ## The outline -/

section Reported

variable {lines : List Line} {c : ClassItem}

/-- The methods that are reported for a type: those that it lists, or else those with the type as
their parent. -/
theorem mem_methods_attach {functions : List Callable} (hqualified : AllQualified functions)
    {m : Callable} : m ∈ (attach functions c).methods ↔
      m ∈ c.methods ∨ c.methods = [] ∧ m ∈ functions ∧ m.parent = some c.name := by
  rw [attach]
  cases hlisted : c.methods with
  | nil =>
    simp only [List.isEmpty_nil, if_true, List.mem_filter, List.not_mem_nil, false_or, true_and]
    apply and_congr_right
    intro hm
    rcases hqualified m hm with ⟨hmethod, hparent, -⟩ | ⟨parent, hmethod, hparent, -⟩ <;>
      simp [hmethod, hparent]
  | cons first rest => simp [hlisted]

theorem attach_inside_iff (hc : type c ∈ declarations lines)
    (hqualified : AllQualified ((declarations lines).flatMap callables)) :
    (∀ m ∈ (attach ((declarations lines).flatMap callables) c).methods,
      m.span.LineInside c.span) ↔
      (∃ f ∈ (declarations lines).flatMap callables, f.span.LineInside c.span) ∨
        ∀ f ∈ (declarations lines).flatMap callables, f.parent ≠ some c.name := by
  constructor
  · intro hall
    by_contra hnot
    simp only [not_or, not_exists, not_and, not_forall, not_not] at hnot
    obtain ⟨hnone, f, hf, hparent⟩ := hnot
    have hempty : c.methods = [] := by
      rw [List.eq_nil_iff_forall_not_mem]
      intro m hm
      exact hnone m (List.mem_flatMap.2 ⟨_, hc, hm⟩) (listed_cases hc hm).2
    have hmem := (mem_methods_attach (c := c) hqualified).2 (.inr ⟨hempty, hf, hparent⟩)
    exact hnone f hf (hall f hmem)
  · intro hone m hm
    rcases (mem_methods_attach hqualified).1 hm with hlisted | ⟨hempty, hm, hparent⟩
    · exact (listed_cases hc hlisted).2
    rcases hone with ⟨f, hf, hinside⟩ | hnone
    · have hlisted := mem_methods_of_lineInside hc hf hinside
      rw [hempty] at hlisted
      cases hlisted
    · exact absurd hparent (hnone m hm)

end Reported

/-- **Declarations lie apart, and what an interface lists lies inside of it.** The methods that are
reported for an interface lie inside of it as well, unless it lists none and some function has it as
its parent. -/
theorem parted_outline (sourceName : String) (text : List Char) :
    Parted (splitNewlines text) (outline sourceName text) where
  ranges_apart := by
    have hspans : (outline sourceName text).classes.map (·.span) =
        ((declarations (splitNewlines text)).filterMap Declaration.type?).map (·.span) := by
      rw [outline]
      dsimp only
      rw [List.map_map]
      apply List.map_congr_left
      intro c _
      exact (span_attach _ c).1
    rw [hspans]
    exact pairwise_apart _
  mem_functions_iff _ := mem_flatMap_callables_iff
  listed_inside _ hc _ hm := (listed_cases hc hm).2
  inside_iff := by
    intro c' hc' _
    obtain ⟨c, hc, rfl⟩ := List.mem_map.1 hc'
    obtain ⟨_ | b, hd, ⟨⟩⟩ := List.mem_filterMap.1 hc
    rw [(span_attach _ c).1, (span_attach _ c).2]
    exact attach_inside_iff hd (coherent_outline sourceName text).allQualified

/-- An interface that lists nothing, and a method that names it as its receiver. -/
def emptyInterface : List Char :=
  "package p\n\ntype A interface \x7b\n\x7d\n\nfunc (a A) M() \x7b\n\x7d\n".toList

/-- The method is reported as one of the interface, and it lies behind it. -/
theorem emptyInterface_method_outside :
    ∃ c ∈ (outline "a.go" emptyInterface).classes, IsInterface (splitNewlines emptyInterface) c ∧
      ∃ m ∈ c.methods, ¬ m.span.LineInside c.span := by
  decide +kernel

end Go

end SourceAtlas
