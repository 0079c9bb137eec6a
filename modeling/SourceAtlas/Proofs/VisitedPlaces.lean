import Mathlib.Tactic.Common
import SourceAtlas.Outline.Basic

/-!
# Places that a sweep visits

A sweep over the lines of a source passes over those that an earlier visit covers. `Place.visited`
are the places it stops at, and `Place.ranges` the lines that each visit covers. What visits cover
lies apart (`Place.pairwise_visited`). A place that no earlier range reaches is visited
(`Place.mem_visited`), and the functions found on its line are those of that visit
(`Place.mem_collect_iff`). A sweep with a state is such a collection as far as its visits do not
depend on the state (`Place.sweep_holds_iff`).
-/

set_option autoImplicit false

namespace SourceAtlas

/-! ## Places of a source -/

namespace Place

variable {p q : Place}

/-- A source has a place for each way to cut it at a line. -/
theorem mem_allFrom_iff {index : Nat} {before lines : List Line} :
    p ∈ allFrom index before lines ↔
      ∃ passed, lines = passed ++ p.line :: p.after ∧ p.before = passed.reverse ++ before ∧
        p.index = index + passed.length := by
  induction lines generalizing index before with
  | nil => simp [allFrom]
  | cons line lines ih =>
    rw [allFrom, List.mem_cons, ih]
    constructor
    · rintro (rfl | ⟨passed, rfl, hbefore, hindex⟩)
      · exact ⟨[], rfl, rfl, rfl⟩
      · refine ⟨line :: passed, rfl, by simp [hbefore], ?_⟩
        rw [hindex, List.length_cons]
        omega
    · rintro ⟨passed, hlines, hbefore, hindex⟩
      cases passed with
      | nil =>
        obtain ⟨rfl, rfl⟩ := List.cons.inj hlines
        left
        rw [List.reverse_nil, List.nil_append] at hbefore
        rw [← hbefore, show index = p.index from hindex.symm]
      | cons first passed =>
        obtain ⟨rfl, rfl⟩ := List.cons.inj hlines
        right
        refine ⟨passed, rfl, by simp [hbefore], ?_⟩
        rw [hindex, List.length_cons]
        omega

variable {before after : List Line} {line : Line}

theorem mem_all : (⟨before.length, before.reverse, line, after⟩ : Place) ∈
    all (before ++ line :: after) := by
  rw [all, mem_allFrom_iff]
  exact ⟨before, rfl, by simp, by simp⟩

/-- There is one place for each line. -/
theorem eq_of_mem_all (h : p ∈ all (before ++ line :: after)) (hindex : p.index = before.length) :
    p = ⟨before.length, before.reverse, line, after⟩ := by
  rw [all, mem_allFrom_iff] at h
  obtain ⟨passed, hlines, hbefore, hpassed⟩ := h
  have hlength : before.length = passed.length := by omega
  obtain ⟨rfl, hrest⟩ := List.append_inj hlines hlength
  obtain ⟨hline, hafter⟩ := List.cons.inj hrest
  cases p
  simp_all

/-- The first places of some have the first indexes. -/
theorem index_of_mem_take {index n : Nat} {before lines : List Line}
    (h : p ∈ (allFrom index before lines).take n) : index ≤ p.index ∧ p.index < index + n := by
  induction lines generalizing index before n with
  | nil => simp [allFrom] at h
  | cons line lines ih =>
    cases n with
    | zero => simp at h
    | succ n =>
      rw [allFrom, List.take_succ_cons, List.mem_cons] at h
      rcases h with rfl | h
      · exact ⟨Nat.le_refl _, Nat.lt_add_of_pos_right (Nat.succ_pos n)⟩
      · have hrest := ih h
        omega

theorem eq_of_index_eq {index : Nat} {before lines : List Line}
    (hp : p ∈ allFrom index before lines) (hq : q ∈ allFrom index before lines)
    (h : p.index = q.index) : p = q := by
  obtain ⟨passed, hlines, hbefore, hindex⟩ := mem_allFrom_iff.1 hp
  obtain ⟨passed', hlines', hbefore', hindex'⟩ := mem_allFrom_iff.1 hq
  rw [hlines] at hlines'
  obtain ⟨rfl, hrest⟩ := List.append_inj hlines' (by omega)
  obtain ⟨hline, hafter⟩ := List.cons.inj hrest
  cases p
  cases q
  simp_all

theorem mem_take_iff {index n : Nat} {before lines : List Line} :
    p ∈ (allFrom index before lines).take n ↔
      p ∈ allFrom index before lines ∧ p.index < index + n := by
  constructor
  · intro h
    exact ⟨List.mem_of_mem_take h, (index_of_mem_take h).2⟩
  · rintro ⟨h, hindex⟩
    induction lines generalizing index before n with
    | nil => cases h
    | cons line lines ih =>
      rw [allFrom, List.mem_cons] at h
      cases n with
      | zero =>
        rcases h with rfl | h
        · exact absurd hindex (Nat.lt_irrefl _)
        · obtain ⟨passed, -, -, hpassed⟩ := mem_allFrom_iff.1 h
          omega
      | succ n =>
        rw [allFrom, List.take_succ_cons, List.mem_cons]
        exact h.imp_right fun h => ih h (by omega)

/-- The places after one of a source are those with a greater index. -/
theorem mem_following_iff {lines : List Line} (hp : p ∈ all lines) :
    q ∈ p.following ↔ q ∈ all lines ∧ p.index < q.index := by
  obtain ⟨passed, rfl, hbefore, hindex⟩ := mem_allFrom_iff.1 hp
  rw [following, all, mem_allFrom_iff, mem_allFrom_iff]
  constructor
  · rintro ⟨more, hafter, hbefore', hindex'⟩
    refine ⟨⟨passed ++ p.line :: more, by rw [hafter]; simp, ?_, ?_⟩, by omega⟩
    · rw [hbefore', hbefore]
      simp
    · rw [List.length_append, List.length_cons]
      omega
  · rintro ⟨⟨passed', hlines, hbefore', hindex'⟩, hless⟩
    obtain ⟨more, rfl, hrest⟩ | ⟨more, rfl, hrest⟩ := List.append_eq_append_iff.1 hlines
    · rcases more with - | ⟨first, more⟩
      · simp only [List.append_nil] at hindex'
        omega
      · obtain ⟨rfl, hafter⟩ := List.cons.inj hrest
        refine ⟨more, hafter, ?_, ?_⟩
        · rw [hbefore', hbefore]
          simp
        · rw [hindex', List.length_append, List.length_cons]
          omega
    · rw [List.length_append] at hindex
      omega

/-! ## Visits -/

section Visits

variable {α : Type} (visit : Place → List α × Nat)
variable {lines : List Line} {covered index : Nat}

/-- The places that are visited: all but those that earlier visits cover. -/
def visited : Nat → List Place → List Place
  | _, [] => []
  | 0, p :: ps => p :: visited (visit p).2 ps
  | covered + 1, _ :: ps => visited covered ps

/-- The lines that each visit to a source deals with. -/
def ranges (lines : List Line) : Covered :=
  (visited visit 0 (all lines)).map fun p => (p.index, p.index + (visit p).2)

variable {visit}

theorem collect_eq_flatMap (covered : Nat) (places : List Place) :
    collect visit covered places = (visited visit covered places).flatMap fun p => (visit p).1 := by
  induction places generalizing covered with
  | nil => cases covered <;> rfl
  | cons p places ih =>
    cases covered with
    | zero =>
      rw [visited, List.flatMap_cons, ← ih]
      rfl
    | succ covered => exact ih covered

theorem visited_subset (covered : Nat) (places : List Place) :
    visited visit covered places ⊆ places := by
  induction places generalizing covered with
  | nil => cases covered <;> exact List.Subset.refl _
  | cons p places ih =>
    cases covered with
    | zero => exact List.cons_subset_cons p (ih _)
    | succ covered => exact List.subset_cons_of_subset p (ih covered)

/-- A place that no earlier visit covers is visited. -/
theorem mem_visited {before : List Line} (hp : p ∈ allFrom index before lines)
    (hcovered : index + covered ≤ p.index)
    (h : ∀ q ∈ visited visit covered (allFrom index before lines),
      q.index < p.index → q.index + (visit q).2 < p.index) :
    p ∈ visited visit covered (allFrom index before lines) := by
  -- Along the sweep: `covered` places are still to be passed over, and they are all before `p`.
  induction lines generalizing index covered before with
  | nil => exact hp
  | cons line lines ih =>
    rw [allFrom, List.mem_cons] at hp
    cases covered with
    | zero =>
      rw [allFrom, visited, List.mem_cons]
      rcases hp with rfl | hp
      · exact .inl rfl
      · right
        rw [allFrom, visited] at h
        have hlater : index + 1 ≤ p.index := by
          obtain ⟨passed, -, -, hpassed⟩ := mem_allFrom_iff.1 hp
          omega
        have hfirst := h _ List.mem_cons_self hlater
        dsimp only at hfirst
        apply ih hp (by omega)
        intro q hq
        exact h q (List.mem_cons_of_mem _ hq)
    | succ covered =>
      rcases hp with rfl | hp
      · dsimp only at hcovered
        omega
      · exact ih hp (by omega) h

theorem le_index_of_mem_visited {before : List Line}
    (h : p ∈ visited visit covered (allFrom index before lines)) : index + covered ≤ p.index := by
  induction lines generalizing index covered before with
  | nil => cases covered <;> cases h
  | cons line lines ih =>
    cases covered with
    | zero =>
      rw [allFrom, visited, List.mem_cons] at h
      rcases h with rfl | h
      · exact Nat.le_refl _
      · have hlater := ih h
        omega
    | succ covered =>
      have hlater := ih h
      omega

/-- **Visits lie apart:** what one covers ends before the next one. -/
theorem pairwise_visited (index covered : Nat) (before lines : List Line) :
    (visited visit covered (allFrom index before lines)).Pairwise
      fun p q => p.index + (visit p).2 < q.index := by
  induction lines generalizing index covered before with
  | nil => cases covered <;> exact .nil
  | cons line lines ih =>
    cases covered with
    | zero =>
      rw [allFrom, visited]
      apply List.Pairwise.cons _ (ih _ _ _)
      intro q hq
      have hlater := le_index_of_mem_visited hq
      dsimp only
      omega
    | succ covered => exact ih _ _ _

/-- What a visit covers ends before any later visit. -/
theorem apart_of_mem_visited {before : List Line}
    (hp : p ∈ visited visit covered (allFrom index before lines))
    (hq : q ∈ visited visit covered (allFrom index before lines)) (h : p.index < q.index) :
    p.index + (visit p).2 < q.index := by
  have hpairs : (visited visit covered (allFrom index before lines)).Pairwise
      fun p q => p.index + (visit p).2 < q.index := pairwise_visited index covered before lines
  obtain ⟨front, rest, hsplit⟩ := List.append_of_mem hp
  rw [hsplit] at hpairs hq
  obtain ⟨-, hrest, hfront⟩ := List.pairwise_append.1 hpairs
  rcases List.mem_append.1 hq with hearlier | hq
  · have hless := hfront q hearlier p List.mem_cons_self
    omega
  · rcases List.mem_cons.1 hq with rfl | hlater
    · exact absurd h (Nat.lt_irrefl _)
    · exact (List.pairwise_cons.1 hrest).1 q hlater

/-- The place behind a visited one is visited exactly if the visit covers nothing further. -/
theorem mem_visited_next_iff {before : List Line}
    (hp : p ∈ visited visit covered (allFrom index before lines))
    (hq : q ∈ allFrom index before lines) (hnext : q.index = p.index + 1) :
    q ∈ visited visit covered (allFrom index before lines) ↔ (visit p).2 = 0 := by
  constructor
  · intro hvisited
    have hapart := apart_of_mem_visited hp hvisited (by omega)
    omega
  · intro hnone
    apply mem_visited hq
    · have hfirst := le_index_of_mem_visited hp
      omega
    intro u hu hless
    rcases Nat.lt_or_ge u.index p.index with hearlier | hlater
    · have hapart := apart_of_mem_visited hu hp hearlier
      omega
    · rw [eq_of_index_eq (visited_subset _ _ hu) (visited_subset _ _ hp) (by omega), hnone]
      omega

end Visits

/-! ## Sweeps with a state -/

section Sweeps

variable {σ α : Type} {step : σ → Place → σ × Nat} {index covered : Nat} {before lines : List Line}
  {s : σ}

/-- What holds of the state in front of a place, and is kept by each visit, holds at the end. The
number in the law is the index of the next place that is visited. -/
theorem sweep_along {motive : Nat → σ → Prop}
    (hstep : ∀ s, ∀ p ∈ allFrom index before lines, motive p.index s →
      motive (p.index + 1 + (step s p).2) (step s p).1)
    (hs : motive (index + covered) s) :
    ∃ next, motive next (sweep step covered s (allFrom index before lines)) := by
  induction lines generalizing index covered before s with
  | nil =>
    refine ⟨index + covered, ?_⟩
    cases covered <;> exact hs
  | cons line lines ih =>
    have hrest : ∀ s, ∀ p ∈ allFrom (index + 1) (line :: before) lines, motive p.index s →
        motive (p.index + 1 + (step s p).2) (step s p).1 := by
      intro s p hp
      exact hstep s p (List.mem_cons_of_mem _ hp)
    cases covered with
    | zero => exact ih hrest (hstep s _ List.mem_cons_self hs)
    | succ covered =>
      apply ih hrest
      rwa [Nat.add_right_comm]

/-- **A sweep that gathers what its visits find holds what is collected,** if what a visit finds
does not depend on the state, as long as that satisfies a law. -/
theorem sweep_holds_iff {visit : Place → List α × Nat} {Holds : σ → α → Prop}
    {law : Nat → σ → Prop}
    (hstep : ∀ s, ∀ p ∈ allFrom index before lines, law p.index s →
      (step s p).2 = (visit p).2 ∧ (∀ x, Holds (step s p).1 x ↔ Holds s x ∨ x ∈ (visit p).1) ∧
        law (p.index + 1 + (visit p).2) (step s p).1)
    (hs : law (index + covered) s) (x : α) :
    Holds (sweep step covered s (allFrom index before lines)) x ↔
      Holds s x ∨ x ∈ collect visit covered (allFrom index before lines) := by
  induction lines generalizing index covered before s with
  | nil => cases covered <;> simp [allFrom, sweep, collect]
  | cons line lines ih =>
    have hrest : ∀ s, ∀ p ∈ allFrom (index + 1) (line :: before) lines, law p.index s →
        (step s p).2 = (visit p).2 ∧ (∀ x, Holds (step s p).1 x ↔ Holds s x ∨ x ∈ (visit p).1) ∧
          law (p.index + 1 + (visit p).2) (step s p).1 := by
      intro s p hp
      exact hstep s p (List.mem_cons_of_mem _ hp)
    cases covered with
    | zero =>
      obtain ⟨hextent, hholds, hlaw⟩ := hstep s _ List.mem_cons_self hs
      rw [allFrom, sweep, collect]
      dsimp only
      rw [hextent, ih hrest hlaw, hholds, List.mem_append, or_assoc]
    | succ covered =>
      apply ih hrest
      rwa [Nat.add_right_comm]

end Sweeps

end Place

/-- A range that begins on an earlier line reaches the line. -/
def Covered.Reaches (ranges : Covered) (index : Nat) : Prop :=
  ∃ r ∈ ranges, r.1 < index ∧ index ≤ r.2

instance (ranges : Covered) (index : Nat) : Decidable (ranges.Reaches index) := by
  unfold Covered.Reaches
  infer_instance

theorem Covered.reaches_append {ranges more : Covered} {index : Nat} :
    Covered.Reaches (ranges ++ more) index ↔ ranges.Reaches index ∨ more.Reaches index := by
  simp only [Covered.Reaches, List.mem_append, or_and_right, exists_or]

namespace Place

variable {α : Type} {visit : Place → List α × Nat} {before after : List Line} {line : Line}

theorem not_reaches_ranges {lines : List Line} {index : Nat} :
    ¬ (ranges visit lines).Reaches index ↔
      ∀ q ∈ visited visit 0 (all lines), q.index < index → q.index + (visit q).2 < index := by
  simp [Covered.Reaches, ranges]

/-- The functions that start on a line which no earlier visit covers are those that the visit to it
finds. -/
theorem mem_collect_iff (callables : α → List Callable)
    (hvisit : ∀ p, ∀ x ∈ (visit p).1, ∀ g ∈ callables x,
      (p.index + 1 : Int) ≤ g.span.first ∧ g.span.first ≤ p.index + (visit p).2 + 1)
    (h : ¬ (ranges visit (before ++ line :: after)).Reaches before.length) {g : Callable}
    (hfirst : g.span.first = before.length + 1) :
    g ∈ (collect visit 0 (all (before ++ line :: after))).flatMap callables ↔
      g ∈ (visit ⟨before.length, before.reverse, line, after⟩).1.flatMap callables := by
  rw [not_reaches_ranges] at h
  rw [collect_eq_flatMap, List.mem_flatMap, List.mem_flatMap]
  constructor
  · rintro ⟨x, hx, hg⟩
    obtain ⟨p, hp, hx⟩ := List.mem_flatMap.1 hx
    have hbounds := hvisit p x hx g hg
    -- A visit to an earlier place covers only lines before this one.
    have hindex : p.index = before.length := by
      by_contra hne
      have hless := h p hp (by omega)
      omega
    rw [eq_of_mem_all (visited_subset 0 _ hp) hindex] at hx
    exact ⟨x, hx, hg⟩
  · rintro ⟨x, hx, hg⟩
    exact ⟨x, List.mem_flatMap.2 ⟨_, mem_visited mem_all (by simp) h, hx⟩, hg⟩

end Place

end SourceAtlas
