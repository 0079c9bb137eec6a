import SourceAtlas.Proofs.LineRanges

/-!
# Sections inside of sections

The sections of a text lie apart or one inside of the other, as their headings say: `Laminar` is
this law for a list of sections, and `Prose.laminar_outline` shows it for every text.

Where a section ends is found by a search of its own (`Prose.endLine`). What is needed of it is that
it stops at the first heading that is not deeper (`Prose.endLine_le_line`), and hence no later for a
deeper level (`Prose.endLine_anti`). How the headings were found plays no part beyond their order.
-/

set_option autoImplicit false

namespace SourceAtlas

/-- The other section lies inside of this one and is of a deeper level. -/
def Section.Holds (s t : Section) : Prop :=
  (s.span.first ≤ t.span.first ∧ t.span.last ≤ s.span.last) ∧ s.level < t.level

/-- Sections of a text with so many lines, in order: of any two, either the first ends before the
second starts or it holds the second, and it holds the second exactly if no heading after it, up to
that of the second, ends it. A section ends with the text or right before another one. -/
structure Laminar (total : Nat) (sections : List Section) : Prop where
  ordered : sections.Pairwise fun s t => s.span.first < t.span.first
  apart_iff : ∀ before s between t after, sections = before ++ s :: (between ++ t :: after) →
    (s.span.last < t.span.first ↔ ¬ s.Holds t)
  holds_iff : ∀ before s between t after, sections = before ++ s :: (between ++ t :: after) →
    (s.Holds t ↔ ∀ u ∈ between ++ [t], s.level < u.level)
  ends : ∀ s ∈ sections, s.span.last = total ∨
    ∃ t ∈ sections, s.span.first < t.span.first ∧ s.span.last + 1 = t.span.first

namespace Prose

/-! ## Where a section ends -/

/-- The last line of a section of some level, with the headings after its own. -/
def endLine (total level : Nat) (later : List Heading) : Nat :=
  ((later.find? fun k => k.level ≤ level).map (·.line)).getD total

/-- The section of a heading, with the headings after it. -/
def sectionOf (total : Nat) (h : Heading) (later : List Heading) : Section :=
  ⟨h.title, h.level, ⟨h.line + 1, endLine total h.level later⟩⟩

theorem sections_cons (total : Nat) (h : Heading) (later : List Heading) :
    sections total (h :: later) = sectionOf total h later :: sections total later := rfl

variable {total level : Nat} {h : Heading} {front later : List Heading}

theorem endLine_eq (total level : Nat) (later : List Heading) :
    endLine total level later = total ∨ ∃ k ∈ later, endLine total level later = k.line := by
  unfold endLine
  cases hfind : later.find? fun k => k.level ≤ level with
  | none => exact .inl rfl
  | some k => exact .inr ⟨k, List.mem_of_find?_eq_some hfind, rfl⟩

/-- A section has a line: it ends behind the line of its heading. -/
theorem line_lt_endLine (hlater : ∀ k ∈ later, h.line < k.line) (hline : h.line < total)
    (level : Nat) : h.line < endLine total level later := by
  rcases endLine_eq total level later with hend | ⟨k, hk, hend⟩
  · rwa [hend]
  · rw [hend]
    exact hlater k hk

/-- Deeper headings do not end a section. -/
theorem endLine_append (hdeeper : ∀ k ∈ front, level < k.level) (later : List Heading) :
    endLine total level (front ++ later) = endLine total level later := by
  have hnone : (front.find? fun k => k.level ≤ level) = none := by
    rw [List.find?_eq_none]
    intro k hk
    simpa using hdeeper k hk
  rw [endLine, List.find?_append, hnone, Option.none_or]
  rfl

/-- A heading that is not deeper ends the section, if no earlier one has. -/
theorem endLine_le_line (horder : later.Pairwise fun h k => h.line < k.line) {k : Heading}
    (hk : k ∈ later) (hlevel : k.level ≤ level) : endLine total level later ≤ k.line := by
  obtain ⟨front, rest, rfl⟩ := List.append_of_mem hk
  obtain ⟨-, -, hfront⟩ := List.pairwise_append.1 horder
  by_cases hdeeper : ∀ u ∈ front, level < u.level
  · rw [endLine_append hdeeper, endLine, List.find?_cons_of_pos (by simpa using hlevel)]
    exact Nat.le_refl _
  · -- The search stops in front of `k`, where the lines are smaller.
    rw [endLine, List.find?_append]
    cases hfind : front.find? fun u => u.level ≤ level with
    | none =>
      rw [List.find?_eq_none] at hfind
      exact absurd (fun u hu => by simpa using hfind u hu) hdeeper
    | some u =>
      have hless := hfront u (List.mem_of_find?_eq_some hfind) k List.mem_cons_self
      exact Nat.le_of_lt hless

/-- A section of a deeper level does not end later. -/
theorem endLine_anti (horder : later.Pairwise fun h k => h.line < k.line)
    (hlines : ∀ k ∈ later, k.line < total) {deeper : Nat} (hlevel : level ≤ deeper) :
    endLine total deeper later ≤ endLine total level later := by
  cases hfind : later.find? fun k => k.level ≤ level with
  | none =>
    have htotal : endLine total level later = total := by
      rw [endLine, hfind]
      rfl
    rw [htotal]
    rcases endLine_eq total deeper later with hend | ⟨k, hk, hend⟩
    · exact Nat.le_of_eq hend
    · rw [hend]
      exact Nat.le_of_lt (hlines k hk)
  | some k =>
    have hline : endLine total level later = k.line := by
      rw [endLine, hfind]
      rfl
    have hk : k.level ≤ level := by simpa using List.find?_some hfind
    rw [hline]
    exact endLine_le_line horder (List.mem_of_find?_eq_some hfind) (Nat.le_trans hk hlevel)

/-! ## Sections by their headings -/

variable {headings : List Heading}

/-- A section in the list is that of a heading, with the sections of the headings around it. -/
theorem sections_eq_append_cons {before after : List Section} {s : Section}
    (hsections : sections total headings = before ++ s :: after) :
    ∃ front k later, headings = front ++ k :: later ∧
      before.map (·.level) = front.map (fun u => (u.level : Int)) ∧
      s = sectionOf total k later ∧ after = sections total later := by
  induction headings generalizing before with
  | nil => cases before <;> cases hsections
  | cons k headings ih =>
    rw [sections_cons] at hsections
    cases before with
    | nil =>
      obtain ⟨rfl, rfl⟩ := List.cons.inj hsections
      exact ⟨[], k, headings, rfl, rfl, rfl, rfl⟩
    | cons first before =>
      obtain ⟨rfl, hrest⟩ := List.cons.inj hsections
      obtain ⟨front, k', later, rfl, hlevels, hs, hafter⟩ := ih hrest
      exact ⟨k :: front, k', later, rfl, by rw [List.map_cons, hlevels]; rfl, hs, hafter⟩

theorem exists_mem_sections (total : Nat) (hh : h ∈ headings) :
    ∃ t ∈ sections total headings, t.span.first = h.line + 1 := by
  induction headings with
  | nil => cases hh
  | cons k headings ih =>
    rcases List.mem_cons.1 hh with rfl | hh
    · exact ⟨_, List.mem_cons_self, rfl⟩
    · obtain ⟨t, ht, hfirst⟩ := ih hh
      exact ⟨t, List.mem_cons_of_mem _ ht, hfirst⟩

/-! ## Two sections -/

section Pair

variable {k : Heading} (horder : (h :: (front ++ k :: later)).Pairwise fun h k => h.line < k.line)
  (hlines : ∀ u ∈ h :: (front ++ k :: later), u.line < total)
include horder

/-- A section that a heading ends is over before the next ones. -/
theorem apart_of_level_le {u : Heading} (hu : u ∈ front ++ [k]) (hlevel : u.level ≤ h.level) :
    (sectionOf total h (front ++ k :: later)).span.last < (sectionOf total k later).span.first := by
  obtain ⟨-, hrest⟩ := List.pairwise_cons.1 horder
  have hbehind : u.line ≤ k.line := by
    rcases List.mem_append.1 hu with hu | hu
    · exact Nat.le_of_lt ((List.pairwise_append.1 hrest).2.2 u hu k List.mem_cons_self)
    · rw [List.mem_singleton.1 hu]
  have hmem : u ∈ front ++ k :: later := by
    rw [List.append_cons]
    exact List.mem_append_left later hu
  have hend : endLine total h.level (front ++ k :: later) ≤ u.line :=
    endLine_le_line hrest hmem hlevel
  simp only [sectionOf]
  omega

include hlines

/-- A section that nothing ends up to a later one holds that one. -/
theorem holds_of_forall_lt (hdeeper : ∀ u ∈ front ++ [k], h.level < u.level) :
    (sectionOf total h (front ++ k :: later)).Holds (sectionOf total k later) := by
  obtain ⟨hfirst, hrest⟩ := List.pairwise_cons.1 horder
  obtain ⟨-, hbehind, -⟩ := List.pairwise_append.1 hrest
  have hk : h.level < k.level := hdeeper k (by simp)
  have hline := hfirst k (by simp)
  have hend : endLine total h.level (front ++ k :: later) = endLine total h.level later := by
    rw [List.append_cons, endLine_append hdeeper]
  have hanti : endLine total k.level later ≤ endLine total h.level later := by
    apply endLine_anti (List.pairwise_cons.1 hbehind).2 _ (Nat.le_of_lt hk)
    intro u hu
    exact hlines u (by simp [hu])
  refine ⟨⟨?_, ?_⟩, ?_⟩ <;> simp only [sectionOf, hend] <;> omega

/-- A section that holds a later one is not over before: the later one has a line. -/
theorem not_apart_of_holds
    (hholds : (sectionOf total h (front ++ k :: later)).Holds (sectionOf total k later)) :
    ¬ (sectionOf total h (front ++ k :: later)).span.last <
      (sectionOf total k later).span.first := by
  obtain ⟨-, hbehind, -⟩ := List.pairwise_append.1 (List.pairwise_cons.1 horder).2
  have hline := line_lt_endLine (List.pairwise_cons.1 hbehind).1 (hlines k (by simp)) k.level
  have hinside := hholds.1.2
  simp only [sectionOf] at hinside ⊢
  omega

/-- The first of two sections holds the second exactly if no heading in between, nor that of the
second, ends it. -/
theorem holds_sectionOf_iff :
    (sectionOf total h (front ++ k :: later)).Holds (sectionOf total k later) ↔
      ∀ u ∈ front ++ [k], h.level < u.level := by
  constructor
  · intro hholds u hu
    by_contra hlevel
    exact not_apart_of_holds horder hlines hholds
      (apart_of_level_le horder hu (Nat.not_lt.1 hlevel))
  · exact holds_of_forall_lt horder hlines

theorem apart_sectionOf_iff :
    (sectionOf total h (front ++ k :: later)).span.last < (sectionOf total k later).span.first ↔
      ¬ (sectionOf total h (front ++ k :: later)).Holds (sectionOf total k later) := by
  constructor
  · intro hapart hholds
    exact not_apart_of_holds horder hlines hholds hapart
  · intro hnot
    rw [holds_sectionOf_iff horder hlines] at hnot
    simp only [not_forall, Nat.not_lt] at hnot
    obtain ⟨u, hu, hlevel⟩ := hnot
    exact apart_of_level_le horder hu hlevel

end Pair

/-! ## All sections of a text -/

/-- Two sections of a list, with those in between, are the sections of two headings. -/
theorem exists_headings {before between after : List Section} {s t : Section}
    (hsections : sections total headings = before ++ s :: (between ++ t :: after)) :
    ∃ passed h front k later, headings = passed ++ h :: (front ++ k :: later) ∧
      s = sectionOf total h (front ++ k :: later) ∧ t = sectionOf total k later ∧
      ((∀ u ∈ between ++ [t], s.level < u.level) ↔ ∀ u ∈ front ++ [k], h.level < u.level) := by
  obtain ⟨passed, h, rest, rfl, -, rfl, hrest⟩ := sections_eq_append_cons hsections
  obtain ⟨front, k, later, rfl, hlevels, rfl, -⟩ := sections_eq_append_cons hrest.symm
  refine ⟨passed, h, front, k, later, rfl, rfl, rfl, ?_⟩
  have hall : (between ++ [sectionOf total k later]).map (·.level) =
      (front ++ [k]).map (fun u => (u.level : Int)) := by
    rw [List.map_append, List.map_append, hlevels]
    rfl
  calc
    (∀ u ∈ between ++ [sectionOf total k later], (h.level : Int) < u.level) ↔
        ∀ l ∈ (between ++ [sectionOf total k later]).map (·.level), (h.level : Int) < l := by
      rw [List.forall_mem_map]
    _ ↔ ∀ l ∈ (front ++ [k]).map (fun u => (u.level : Int)), (h.level : Int) < l := by rw [hall]
    _ ↔ ∀ u ∈ front ++ [k], h.level < u.level := by simp only [List.forall_mem_map, Int.ofNat_lt]

theorem pairwise_sections (horder : headings.Pairwise fun h k => h.line < k.line) :
    (sections total headings).Pairwise fun s t => s.span.first < t.span.first := by
  induction headings with
  | nil => exact .nil
  | cons h headings ih =>
    obtain ⟨hfirst, hrest⟩ := List.pairwise_cons.1 horder
    refine .cons (fun t ht => ?_) (ih hrest)
    obtain ⟨before, after, hsplit⟩ := List.append_of_mem ht
    obtain ⟨front, k, later, rfl, -, rfl, -⟩ := sections_eq_append_cons hsplit
    have hline := hfirst k (by simp)
    simp only [sectionOf]
    omega

theorem laminar_sections (hlines : ∀ h ∈ headings, h.line < total)
    (horder : headings.Pairwise fun h k => h.line < k.line) :
    Laminar total (sections total headings) where
  ordered := pairwise_sections horder
  apart_iff before s between t after hsections := by
    obtain ⟨passed, h, front, k, later, rfl, rfl, rfl, -⟩ := exists_headings hsections
    apply apart_sectionOf_iff (List.pairwise_append.1 horder).2.1
    intro u hu
    exact hlines u (List.mem_append_right passed hu)
  holds_iff before s between t after hsections := by
    obtain ⟨passed, h, front, k, later, rfl, rfl, rfl, hlevels⟩ := exists_headings hsections
    rw [hlevels]
    apply holds_sectionOf_iff (List.pairwise_append.1 horder).2.1
    intro u hu
    exact hlines u (List.mem_append_right passed hu)
  ends := by
    intro s hs
    obtain ⟨before, after, hsplit⟩ := List.append_of_mem hs
    obtain ⟨front, k, later, rfl, -, rfl, -⟩ := sections_eq_append_cons hsplit
    rcases endLine_eq total k.level later with hend | ⟨u, hu, hend⟩
    · left
      rw [sectionOf, hend]
    · right
      obtain ⟨t, ht, hfirst⟩ := exists_mem_sections total
        (List.mem_append_right front (List.mem_cons_of_mem k hu))
      have hline := (List.pairwise_cons.1 (List.pairwise_append.1 horder).2.1).1 u hu
      refine ⟨t, ht, ?_, ?_⟩ <;> rw [hfirst, sectionOf] <;> dsimp only <;> omega

/-- **The sections of every text lie apart or inside of each other, as their levels say.** -/
theorem laminar_outline (sourceName : String) (text : List Char) :
    Laminar (outline sourceName text).totalLines (outline sourceName text).sections := by
  change Laminar (Text.splitNewlines text).length _
  apply laminar_sections _ (pairwise_headingsFrom 0 _)
  intro h hh
  simpa using (line_headingsFrom 0 _ h hh).2

/-- A level is left out below the first heading, and the third one ends two sections at once. -/
example : (outline "a.md" "# A\n### B\ntext\n## C\nD\n===\n".toList).sections.map
    (fun s => (s.title, s.level, s.span)) =
      [("A", 1, ⟨1, 4⟩), ("B", 3, ⟨2, 3⟩), ("C", 2, ⟨4, 4⟩), ("D", 1, ⟨5, 7⟩)] := by
  decide +kernel

end Prose

end SourceAtlas
