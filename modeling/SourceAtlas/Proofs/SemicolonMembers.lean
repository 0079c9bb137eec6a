import SourceAtlas.Proofs.SemicolonItems

/-!
# Members that end with a semicolon

A method of a C# type without a body ends with a semicolon. Whether a body follows is read off the
next three lines of the type: a brace on one of them makes the method run to the end of the block
that opens there, and the lines up to it are passed over. `CSharp.SemicolonLaw` says this for every
source, and `semicolon_declarations` puts it beside the same law of Rust items.

The visits inside a type do not depend on what they have found (`memberStep_eq_memberVisit`), since
the ranges covered inside the type lie behind the next line. The ranges covered before it start no
later than its first line (`Kept`), so a line behind a visited one is free as well.
-/

set_option autoImplicit false

namespace SourceAtlas

open Place Text

namespace Place

theorem map_line_allFrom (index : Nat) (before lines : List Line) :
    (allFrom index before lines).map line = lines := by
  induction lines generalizing index before with
  | nil => rfl
  | cons line lines ih => rw [allFrom, List.map_cons, ih]

/-- The next lines are those of the next places. -/
theorem forall_mem_take_after_iff {lines : List Line} {q : Place} (hq : q ∈ all lines) (n : Nat)
    (P : Line → Prop) :
    (∀ line ∈ q.after.take n, P line) ↔
      ∀ r ∈ all lines, q.index < r.index → r.index ≤ q.index + n → P r.line := by
  have hlines : q.after.take n = (q.following.take n).map line := by
    rw [List.map_take, following, map_line_allFrom]
  rw [hlines, List.forall_mem_map]
  constructor
  · intro h r hr hbehind hnear
    apply h r
    exact mem_take_iff.2 ⟨(mem_following_iff hq).2 ⟨hr, hbehind⟩, by omega⟩
  · intro h r hr
    obtain ⟨hfollowing, hnear⟩ := mem_take_iff.1 hr
    obtain ⟨hall, hbehind⟩ := (mem_following_iff hq).1 hfollowing
    exact h r hall hbehind (by omega)

end Place

namespace CSharp

/-- The line declares a method, and no type. -/
structure DeclaresMethod (q : Place) : Prop where
  type : typePattern.atHead? q.stripped = none
  idle : isIdle q.stripped = false
  method : (methodName? q.stripped).isSome

/-- No brace opens on the next three lines, as far as they belong to a type that ends on the line
numbered `last`. -/
def Quiet (lines : List Line) (q : Place) (last : Int) : Prop :=
  ∀ r ∈ all lines, q.index < r.index → r.index ≤ q.index + 3 → (r.index + 1 : Int) ≤ last →
    r.has '\x7b' = false

/-! ## Extents -/

theorem blockExtent_pos {p : Place} {distance : Nat} (hpos : 0 < distance)
    (hle : distance ≤ p.after.length) : 0 < blockExtent p distance := by
  rw [blockExtent]
  split
  · exact Nat.lt_of_lt_of_le hpos hle
  · exact Nat.add_pos_left hpos _

/-- **A member that ends with a semicolon keeps to its line unless a brace opens soon after.** -/
theorem methodExtent_eq_zero_iff {q : Place} (h : q.Terminated) {room : Nat} (hroom : 0 < room) :
    methodExtent q room = 0 ↔ ∀ line ∈ q.after.take (min 3 room), opens line = false := by
  have hhere : opens q.line = false := h.2
  rw [methodExtent, onward, List.take_succ_cons, List.findIdx?_cons, hhere]
  simp only [Bool.false_eq_true, if_false]
  cases hfind : (q.after.take (min 3 room)).findIdx? opens with
  | none =>
    obtain ⟨more, rfl⟩ := Nat.exists_eq_succ_of_ne_zero (Nat.ne_of_gt hroom)
    simp only [Option.map_none]
    rw [List.take_succ_cons, List.findIdx?_cons, h.contains]
    simp only [if_true, Option.getD_some, true_iff]
    exact List.findIdx?_eq_none_iff.1 hfind
  | some distance =>
    obtain ⟨hless, hopens, -⟩ := List.findIdx?_eq_some_iff_getElem.1 hfind
    have hle : distance + 1 ≤ q.after.length := by
      rw [List.length_take] at hless
      omega
    have hpos : 0 < blockExtent q (distance + 1) := blockExtent_pos (Nat.succ_pos _) hle
    simp only [Option.map_some]
    constructor
    · intro hzero
      omega
    · intro hquiet
      rw [hquiet _ (List.getElem_mem hless)] at hopens
      cases hopens

theorem quiet_iff {lines : List Line} {q : Place} (hq : q ∈ all lines) {last : Nat}
    (hlast : q.index < last) :
    Quiet lines q (last + 1) ↔
      ∀ line ∈ q.after.take (min 3 (last - q.index)), opens line = false := by
  rw [forall_mem_take_after_iff hq]
  constructor
  · intro h r hr hbehind hnear
    exact h r hr hbehind (by omega) (by omega)
  · intro h r hr hbehind hnear hinside
    exact h r hr hbehind (by omega)

/-! ## Members of one type -/

section Members

variable {name : String} {last : Nat} {covered : Covered} {q : Place} {f : Callable}

/-- All that a line inside a type can add, if it is not covered: a method, or a range to pass over,
or nothing. -/
theorem memberStep_cases (name : String) (last : Nat) (q : Place) :
    ∃ (methods : List Callable) (ranges : Covered) (extent : Nat),
      (∀ r ∈ ranges, r = (q.index, q.index + extent) ∧ q.index < last) ∧
      ((methods = [] ∧ ¬ (q.index < last ∧ DeclaresMethod q)) ∨
        ∃ f, methods = [f] ∧ q.index < last ∧ f.span = spanOf q extent ∧
          extent = methodExtent q (last - q.index)) ∧
      ∀ found : Members, found.covered.mem q.index = false →
        memberStep name last found q =
          (⟨found.methods ++ methods, ranges ++ found.covered⟩, extent) := by
  -- The tests of the step in their order; only the last case finds a method.
  rcases Nat.lt_or_ge q.index last with hinside | houtside
  swap
  · refine ⟨[], [], 0, by simp, .inl ⟨rfl, fun h => by omega⟩, fun found hfree => ?_⟩
    simp [memberStep, houtside]
  have hnot : ¬ last ≤ q.index := Nat.not_le.2 hinside
  cases htype : typePattern.atHead? q.stripped with
  | some m =>
    have hno : ¬ (q.index < last ∧ DeclaresMethod q) := by
      rintro ⟨-, hmethod⟩
      rw [hmethod.type] at htype
      cases htype
    cases hopens : q.opensSoon with
    | true =>
      refine ⟨[], [(q.index, q.index + lexis.extent q)], lexis.extent q, by simp [hinside],
        .inl ⟨rfl, hno⟩, fun found hfree => ?_⟩
      simp [memberStep, hnot, hfree, htype, hopens]
    | false =>
      refine ⟨[], [], 0, by simp, .inl ⟨rfl, hno⟩, fun found hfree => ?_⟩
      simp [memberStep, hnot, hfree, htype, hopens]
  | none =>
  cases hidle : isIdle q.stripped with
  | true =>
    refine ⟨[], [], 0, by simp, .inl ⟨rfl, ?_⟩, fun found hfree => ?_⟩
    · rintro ⟨-, hmethod⟩
      rw [hmethod.idle] at hidle
      cases hidle
    · simp [memberStep, hnot, hfree, htype, hidle]
  | false =>
  cases hmethod : methodName? q.stripped with
  | none =>
    refine ⟨[], [], 0, by simp, .inl ⟨rfl, ?_⟩, fun found hfree => ?_⟩
    · rintro ⟨-, hdeclares⟩
      have hsome := hdeclares.method
      rw [hmethod] at hsome
      cases hsome
    · simp [memberStep, hnot, hfree, htype, hidle, hmethod]
  | some own =>
    refine ⟨[.method name own (spanOf q (methodExtent q (last - q.index)))
        (parameterNames (Parens.textAt q)) (attributes q) (documentation? q)],
      [(q.index, q.index + methodExtent q (last - q.index))], methodExtent q (last - q.index),
      by simp [hinside], .inr ⟨_, rfl, hinside, rfl, rfl⟩, fun found hfree => ?_⟩
    simp [memberStep, hnot, hfree, htype, hidle, hmethod]

theorem memberStep_of_mem {found : Members} (h : found.covered.mem q.index = true) :
    memberStep name last found q = (found, 0) := by
  simp [memberStep, h]

/-- What a visit to a line finds, in a type around which `covered` lines were dealt with before. -/
def memberVisit (name : String) (last : Nat) (covered : Covered) (q : Place) :
    List Callable × Nat :=
  let after := memberStep name last ⟨[], covered⟩ q
  (after.1.methods, after.2)

theorem memberVisit_of_mem (h : covered.mem q.index = true) :
    memberVisit name last covered q = ([], 0) := by
  simp [memberVisit, memberStep, h]

/-- The methods that the visits to the lines behind a place find. -/
def members (name : String) (last : Nat) (covered : Covered) (p : Place) : List Callable :=
  (sweep (memberStep name last) 0 ⟨[], covered⟩ p.following).methods

/-- A visit does not depend on the members found so far: what they cover lies behind. -/
theorem memberStep_eq_memberVisit {found : Members}
    (h : ∀ i, q.index ≤ i → found.covered.mem i = covered.mem i) :
    (memberStep name last found q).2 = (memberVisit name last covered q).2 ∧
      (∀ f, f ∈ (memberStep name last found q).1.methods ↔
        f ∈ found.methods ∨ f ∈ (memberVisit name last covered q).1) ∧
      ∀ i, q.index + 1 + (memberVisit name last covered q).2 ≤ i →
        (memberStep name last found q).1.covered.mem i = covered.mem i := by
  have hhere := h q.index (Nat.le_refl _)
  cases hfree : covered.mem q.index with
  | true =>
    rw [memberVisit_of_mem hfree, memberStep_of_mem (hhere.trans hfree)]
    exact ⟨rfl, by simp, fun i hi => h i (by omega)⟩
  | false =>
    obtain ⟨methods, ranges, extent, hranges, -, hstep⟩ := memberStep_cases name last q
    rw [memberVisit, hstep found (hhere.trans hfree), hstep ⟨[], covered⟩ hfree]
    refine ⟨rfl, by simp, fun i hi => ?_⟩
    have hbehind : Covered.mem ranges i = false := by
      rw [← Bool.not_eq_true, Covered.mem_iff]
      rintro ⟨r, hr, -, hreaches⟩
      rw [(hranges r hr).1] at hreaches
      dsimp only at hreaches hi
      omega
    have hold := h i (by omega)
    rw [Covered.mem] at hbehind hold ⊢
    rw [List.any_append, hbehind, Bool.false_or, hold]

theorem mem_members_iff {p : Place} :
    f ∈ members name last covered p ↔
      ∃ q ∈ visited (memberVisit name last covered) 0 p.following,
        f ∈ (memberVisit name last covered q).1 := by
  have hcollect := @sweep_holds_iff _ _ (memberStep name last) (p.index + 1) 0
    (p.line :: p.before) p.after ⟨[], covered⟩ (memberVisit name last covered)
    (fun found f => f ∈ found.methods)
    (fun next found => ∀ i, next ≤ i → found.covered.mem i = covered.mem i)
    (fun _ _ _ h => memberStep_eq_memberVisit h) (fun _ _ => rfl) f
  rw [collect_eq_flatMap, List.mem_flatMap] at hcollect
  simp only [List.not_mem_nil, false_or] at hcollect
  exact hcollect

theorem of_mem_memberVisit (h : f ∈ (memberVisit name last covered q).1) :
    covered.mem q.index = false ∧ q.index < last ∧
      f.span = spanOf q (memberVisit name last covered q).2 ∧
      (memberVisit name last covered q).2 = methodExtent q (last - q.index) := by
  cases hfree : covered.mem q.index with
  | true =>
    rw [memberVisit_of_mem hfree] at h
    cases h
  | false =>
    obtain ⟨methods, ranges, extent, -, hmethods, hstep⟩ := memberStep_cases name last q
    rw [memberVisit, hstep ⟨[], covered⟩ hfree] at h ⊢
    rcases hmethods with ⟨rfl, -⟩ | ⟨g, rfl, hinside, hspan, hextent⟩
    · cases h
    · have hf : f = g := by simpa using h
      subst hf
      exact ⟨rfl, hinside, hspan, hextent⟩

theorem exists_mem_memberVisit (hfree : covered.mem q.index = false) (hinside : q.index < last)
    (h : DeclaresMethod q) :
    ∃ f ∈ (memberVisit name last covered q).1, f.span.first = q.index + 1 := by
  obtain ⟨methods, ranges, extent, -, hmethods, hstep⟩ := memberStep_cases name last q
  rw [memberVisit, hstep ⟨[], covered⟩ hfree]
  rcases hmethods with ⟨-, hno⟩ | ⟨f, rfl, -, hspan, -⟩
  · exact absurd ⟨hinside, h⟩ hno
  · refine ⟨f, by simp, ?_⟩
    rw [hspan]
    rfl

end Members

/-! ## Types -/

/-- Where the methods of a type come from: it has none, or they are those of the lines behind its
first, and no range that was covered before starts behind that line. -/
def Gathered (lines : List Line) (c : ClassItem) : Prop :=
  ∃ p ∈ all lines, ∃ (name : String) (last : Nat) (covered : Covered),
    (∀ r ∈ covered, r.1 ≤ p.index) ∧ c.span.last = last + 1 ∧
      (c.methods = [] ∨ c.methods = members name last covered p)

/-- What the first sweep keeps: all that is covered starts before the next line to be visited. -/
structure Kept (lines : List Line) (next : Nat) (found : Findings) : Prop where
  covered : ∀ r ∈ found.covered, r.1 < next
  classes : ∀ c ∈ found.classes, Gathered lines c

variable {lines : List Line} {found : Findings} {p : Place}

theorem Kept.mono {next later : Nat} (h : Kept lines next found) (hle : next ≤ later) :
    Kept lines later found := by
  refine ⟨fun r hr => ?_, h.classes⟩
  have hless := h.covered r hr
  omega

/-- The members of a type cover ranges that start on its lines. -/
theorem covered_members {name : String} {last : Nat} {covered : Covered}
    (h : ∀ r ∈ covered, r.1 ≤ last) (places : List Place) :
    ∀ r ∈ (sweep (memberStep name last) 0 ⟨[], covered⟩ places).covered, r.1 ≤ last := by
  refine sweep_induction_of_mem (motive := fun found : Members =>
    ∀ r ∈ found.covered, r.1 ≤ last) ?_ h 0
  intro found q _ hfound
  cases hfree : found.covered.mem q.index with
  | true =>
    rw [memberStep_of_mem hfree]
    exact hfound
  | false =>
    obtain ⟨methods, ranges, extent, hranges, -, hstep⟩ := memberStep_cases name last q
    rw [hstep found hfree]
    intro r hr
    rcases List.mem_append.1 hr with hr | hr
    · obtain ⟨rfl, hinside⟩ := hranges r hr
      exact Nat.le_of_lt hinside
    · exact hfound r hr

/-- A type that is added to what has been kept. -/
theorem Kept.addClass (h : Kept lines p.index found) (hp : p ∈ all lines) (m : Cursor)
    (extent : Nat) {methods functions : List Callable} {covered : Covered}
    (hcovered : ∀ r ∈ covered, r.1 ≤ p.index + extent)
    (hmethods : methods = [] ∨
      methods = members (groupString m 2) (p.index + extent) found.covered p) :
    Kept lines (p.index + 1 + extent)
      ((Findings.addClass ⟨functions, found.classes, covered⟩ p m extent methods).cover p
        extent) where
  covered := by
    intro r hr
    rcases List.mem_cons.1 hr with rfl | hr
    · dsimp only
      omega
    · have hle := hcovered r hr
      omega
  classes := by
    intro c hc
    rcases List.mem_append.1 hc with hc | hc
    · exact h.classes c hc
    · rw [List.mem_singleton.1 hc]
      refine ⟨p, hp, groupString m 2, p.index + extent, found.covered, ?_, ?_, hmethods⟩
      · intro r hr
        exact Nat.le_of_lt (h.covered r hr)
      · simp [spanOf]

theorem Kept.typeAt (h : Kept lines p.index found) (hp : p ∈ all lines) (m : Cursor) :
    Kept lines (p.index + 1 + (typeAt found p m).2) (typeAt found p m).1 := by
  have hbefore : ∀ extent, ∀ r ∈ found.covered, r.1 ≤ p.index + extent := by
    intro extent r hr
    have hless := h.covered r hr
    omega
  rw [CSharp.typeAt]
  cases typeExtent p with
  | bare extent => exact h.addClass hp m extent (hbefore extent) (.inl rfl)
  | block extent =>
    dsimp only
    split
    · exact h.addClass hp m extent (hbefore extent) (.inl rfl)
    · exact h.addClass hp m extent (covered_members (hbefore extent) _) (.inr rfl)

theorem Kept.typeStep (h : Kept lines p.index found) (hp : p ∈ all lines) :
    Kept lines (p.index + 1 + (typeStep found p).2) (typeStep found p).1 := by
  rw [CSharp.typeStep]
  split
  · exact h.mono (by omega)
  split
  · exact h.mono (by omega)
  split
  · exact h.typeAt hp _
  · exact h.mono (by omega)

theorem classes_functionStep (found : Findings) (p : Place) :
    (functionStep found p).1.classes = found.classes := by
  rw [functionStep]
  split
  · rfl
  split <;> rfl

theorem gathered_of_mem_classes {sourceName : String} {text : List Char} {c : ClassItem}
    (h : c ∈ (outline sourceName text).classes) : Gathered (splitNewlines text) c := by
  have hkept := @sweep_along _ typeStep 0 0 [] (splitNewlines text) ⟨[], [], []⟩
    (Kept (splitNewlines text)) (fun _ _ hp h => h.typeStep hp) ⟨by simp, by simp⟩
  obtain ⟨next, hkept⟩ := hkept
  have hclasses : ∀ c ∈ (sweep functionStep 0
      (sweep typeStep 0 ⟨[], [], []⟩ (all (splitNewlines text)))
      (all (splitNewlines text))).classes, Gathered (splitNewlines text) c := by
    refine sweep_induction_of_mem (motive := fun found : Findings =>
      ∀ c ∈ found.classes, Gathered (splitNewlines text) c) ?_ hkept.classes 0
    intro found p _ hfound
    rw [classes_functionStep]
    exact hfound
  exact hclasses c h

/-! ## Members that end with a semicolon -/

/-- **Members that end with a semicolon.** They keep to their line, and let a method on the next
line of the type be reported, exactly if no brace opens on the next three lines of the type. -/
structure SemicolonLaw (lines : List Line) (o : Outline) : Prop where
  method_iff : ∀ c ∈ o.classes, ∀ f ∈ c.methods, ∀ q ∈ all lines, q.Terminated →
    f.span.first = q.index + 1 → (f.span.last = q.index + 1 ↔ Quiet lines q c.span.last)
  next_iff : ∀ c ∈ o.classes, ∀ f ∈ c.methods, ∀ q ∈ all lines, q.Terminated →
    f.span.first = q.index + 1 → ∀ r ∈ all lines, r.index = q.index + 1 →
      (r.index + 1 : Int) < c.span.last → DeclaresMethod r →
        ((∃ g ∈ c.methods, g.span.first = r.index + 1) ↔ Quiet lines q c.span.last)

/-- The visit that finds a method is that to its first line. -/
theorem visit_of_mem_members {name : String} {last : Nat} {covered : Covered} {q : Place}
    {f : Callable} (hp : p ∈ all lines) (hq : q ∈ all lines)
    (hf : f ∈ members name last covered p) (hfirst : f.span.first = q.index + 1) :
    q ∈ visited (memberVisit name last covered) 0 p.following ∧
      f ∈ (memberVisit name last covered q).1 := by
  obtain ⟨u, hu, hf⟩ := mem_members_iff.1 hf
  have hall := ((mem_following_iff hp).1 (visited_subset 0 _ hu)).1
  have hindex : f.span.first = u.index + 1 := by
    rw [(of_mem_memberVisit hf).2.2.1]
    rfl
  have hplace : u = q := eq_of_index_eq hall hq (by omega)
  rw [← hplace]
  exact ⟨hu, hf⟩

/-- The methods of a type that has some are those of the lines behind its first. -/
theorem Gathered.methods_eq {c : ClassItem} (h : Gathered lines c) {f : Callable}
    (hf : f ∈ c.methods) :
    ∃ p ∈ all lines, ∃ (name : String) (last : Nat) (covered : Covered),
      (∀ r ∈ covered, r.1 ≤ p.index) ∧ c.span.last = last + 1 ∧
        c.methods = members name last covered p := by
  obtain ⟨p, hp, name, last, covered, hcovered, hlast, hmethods⟩ := h
  rcases hmethods with hnone | hmethods
  · rw [hnone] at hf
    cases hf
  · exact ⟨p, hp, name, last, covered, hcovered, hlast, hmethods⟩

theorem semicolonLaw_outline (sourceName : String) (text : List Char) :
    SemicolonLaw (splitNewlines text) (outline sourceName text) where
  method_iff := by
    intro c hc f hf q hq hterminated hfirst
    obtain ⟨p, hp, name, last, covered, -, hlast, hmethods⟩ :=
      (gathered_of_mem_classes hc).methods_eq hf
    rw [hmethods] at hf
    obtain ⟨-, hinside, hspan, hextent⟩ :=
      of_mem_memberVisit (visit_of_mem_members hp hq hf hfirst).2
    rw [hlast, quiet_iff hq hinside, ← methodExtent_eq_zero_iff hterminated (by omega), ← hextent,
      hspan, spanOf]
    dsimp only
    omega
  next_iff := by
    intro c hc f hf q hq hterminated hfirst r hr hnext hbefore hdeclares
    obtain ⟨p, hp, name, last, covered, hcovered, hlast, hmethods⟩ :=
      (gathered_of_mem_classes hc).methods_eq hf
    rw [hmethods] at hf ⊢
    obtain ⟨hvisited, hvisit⟩ := visit_of_mem_members hp hq hf hfirst
    obtain ⟨hfree, hinside, -, hextent⟩ := of_mem_memberVisit hvisit
    have hbehind := ((mem_following_iff hp).1 (visited_subset 0 _ hvisited)).2
    have hfollowing := (mem_following_iff hp).2 ⟨hr, show p.index < r.index by omega⟩
    rw [hlast, quiet_iff hq hinside, ← methodExtent_eq_zero_iff hterminated (by omega), ← hextent,
      ← mem_visited_next_iff hvisited hfollowing hnext]
    constructor
    · rintro ⟨g, hg, hplace⟩
      exact (visit_of_mem_members hp hr hg hplace).1
    · intro hreached
      -- What is covered starts before the type, so what reaches this line covers the last one.
      have hfree' : covered.mem r.index = false := by
        rw [← Bool.not_eq_true, Covered.mem_iff]
        rintro ⟨s, hs, -, hreaches⟩
        have hstart := hcovered s hs
        rw [Covered.mem_iff.2 ⟨s, hs, by omega, by omega⟩] at hfree
        cases hfree
      have hlater : r.index < last := by omega
      obtain ⟨g, hg, hplace⟩ := exists_mem_memberVisit hfree' hlater hdeclares
      exact ⟨g, mem_members_iff.2 ⟨r, hreached, hg⟩, hplace⟩

end CSharp

/-! ## Both languages -/

/-- **Declarations that end with a semicolon** keep to their line, and let a declaration on the next
line be reported, exactly if no brace opens on the next line of a Rust source, or on the next three
lines of the type in a C# source. -/
theorem semicolon_declarations (sourceName : String) (text : List Char) :
    Rust.SemicolonLaw (splitNewlines text) (Rust.outline sourceName text) ∧
      CSharp.SemicolonLaw (splitNewlines text) (CSharp.outline sourceName text) :=
  ⟨Rust.semicolonLaw_outline sourceName text, CSharp.semicolonLaw_outline sourceName text⟩

/-- A structure without fields in front of one with a block. -/
def unitStructure : List Char := "struct A;\nstruct B \x7b\n\x7d\n".toList

/-- A method without a body in front of one with a body, in a trait. -/
def traitSignature : List Char :=
  "trait T \x7b\n    fn a(&self);\n    fn b(&self) \x7b\n    \x7d\n\x7d\n".toList

/-- A method without a body in front of one with a body, in an interface. -/
def interfaceSignature : List Char :=
  "public interface I \x7b\n    void A();\n    void B() \x7b\n    \x7d\n\x7d\n".toList

/-- The block behind a declaration that ends with a semicolon is taken for its own. The structure
and the method of the interface hide what follows, the method of the trait only grows. -/
theorem semicolon_takes_next_block :
    (Rust.outline "a.rs" unitStructure).classes.map (fun c => (c.name, c.span)) = [("A", ⟨1, 3⟩)] ∧
      (Rust.outline "a.rs" traitSignature).functions.map (fun f => (f.name, f.span)) =
        [("a", ⟨2, 4⟩), ("b", ⟨3, 4⟩)] ∧
      (CSharp.outline "a.cs" interfaceSignature).functions.map (fun f => (f.name, f.span)) =
        [("A", ⟨2, 4⟩)] := by
  decide +kernel

end SourceAtlas
