import SourceAtlas.Proofs.StrippedLines
import SourceAtlas.Proofs.VisitedPlaces

/-!
# Items that end with a semicolon

A Rust structure without fields, and a method of a trait without a body, end with a semicolon.
Whether a block belongs to an item is read off its line and the next one, so a brace on the next
line makes such an item run to the end of a block that is not its own (`extentOr_eq_zero_iff`).
`SemicolonLaw` says when the item keeps to its line and when a declaration on the next line is still
reported.

The sweep over the blocks comes first (`Blocked`): behind a line that no block covers only a block
covers a line. The sweep over the other items then finds what its visits find (`has_swept_iff`), and
`Visit` says what one visit can find.
-/

set_option autoImplicit false

namespace SourceAtlas

open Place Text

variable {ranges : Covered}

/-! ## Lines that end with a semicolon -/

theorem Text.mem_of_mem_trim {cs : List Char} {c : Char} (h : c ∈ trim cs) : c ∈ cs := by
  rw [trim, trimRight, dropEndWhile, List.mem_reverse] at h
  have hleft := List.mem_reverse.1 ((List.dropWhile_sublist _).subset h)
  exact (List.dropWhile_sublist _).subset hleft

/-- The line ends with a semicolon and opens no brace. -/
def Place.Terminated (p : Place) : Prop :=
  p.stripped.getLast? = some ';' ∧ p.has '\x7b' = false

instance (p : Place) : Decidable p.Terminated := by
  unfold Place.Terminated
  infer_instance

theorem Place.Terminated.contains {p : Place} (h : p.Terminated) : p.line.contains ';' = true := by
  rw [List.contains_iff_mem]
  exact mem_of_mem_trim (List.mem_of_getLast? h.1)

namespace Lexis

variable {μ : Type} {l : Lexis μ}

theorem mem_of_mem_codeOf {m : μ} {line : Line} {c : Char} (h : c ∈ l.codeOf m line) :
    c ∈ line := by
  induction line generalizing m with
  | nil => cases h
  | cons d line ih =>
    rw [codeOf] at h
    cases hread : l.read m d line with
    | comment => simp [hread] at h
    | pass m' =>
      rw [hread] at h
      exact List.mem_cons_of_mem d (ih h)
    | code m' =>
      rw [hread] at h
      rcases List.mem_cons.1 h with rfl | h
      · exact List.mem_cons_self
      · exact List.mem_cons_of_mem d (ih h)

/-- A line closes no block that it does not open. -/
theorem scan_start_ne_closed {m : μ} {line : Line} (h : '\x7b' ∉ line) :
    l.scan m .start line ≠ .closed := by
  rw [scan_eq]
  cases hrun : Balance.start.run (l.codeOf m line) with
  | some b' =>
    intro hended
    cases hended
  | none =>
    obtain ⟨u, v, hcode, hopen, -⟩ := Balance.run_start_eq_none_iff.1 hrun
    have hmem : '\x7b' ∈ l.codeOf m line := by
      rw [hcode]
      exact List.mem_append_left _ hopen
    exact absurd (mem_of_mem_codeOf hmem) h

theorem le_of_passage_closed {m : μ} {b : Balance} {distance k : Nat} {lines : List Line}
    (h : l.passage m b distance lines = .closed k) : distance ≤ k := by
  induction lines generalizing m b distance with
  | nil => cases h
  | cons line lines ih =>
    rw [passage] at h
    cases hscan : l.scan m b line with
    | closed =>
      rw [hscan] at h
      cases h
      exact Nat.le_refl _
    | ended m' b' =>
      rw [hscan] at h
      dsimp only at h
      cases hcarry : l.carry m' with
      | some next =>
        rw [hcarry] at h
        cases h
      | none =>
        rw [hcarry] at h
        exact Nat.le_of_succ_le (ih h)

/-- **A block that does not open on the first line goes on behind it,** if there are more lines. -/
theorem extent_pos {p : Place} (hbrace : p.has '\x7b' = false) (hafter : p.after ≠ []) :
    0 < l.extent p := by
  have hline : '\x7b' ∉ p.line := by
    intro hmem
    rw [has, List.contains_iff_mem.2 hmem] at hbrace
    cases hbrace
  rw [extent, onward, closing?, closingFrom?, passage]
  cases hscan : l.scan l.fresh .start p.line with
  | closed => exact absurd hscan (scan_start_ne_closed hline)
  | ended m' b' =>
    dsimp only
    cases hcarry : l.carry m' with
    | some next =>
      dsimp only
      cases l.closingFrom? next b' p.after with
      | none => exact List.length_pos_iff.2 hafter
      | some k => exact Nat.succ_pos k
    | none =>
      dsimp only
      cases hpassage : l.passage m' b' (0 + 1) p.after with
      | closed k => exact le_of_passage_closed hpassage
      | unfinished => exact List.length_pos_iff.2 hafter
      | next m'' b'' =>
        dsimp only
        cases l.closingFrom? m'' b'' p.after with
        | none => exact List.length_pos_iff.2 hafter
        | some k => exact Nat.succ_pos k

end Lexis

theorem Covered.mem_iff {index : Nat} :
    ranges.mem index = true ↔ ∃ r ∈ ranges, r.1 ≤ index ∧ index ≤ r.2 := by
  simp [Covered.mem]

/-! ## Rust items -/

namespace Rust

variable {q : Place} {name : String}
variable {s : Span} {own : List Callable}

/-- The range of an item on the line: to the end of its block, or else no further than the first
semicolon. -/
def Measured (p : Place) (s : Span) : Prop :=
  ∃ otherwise ≤ semicolonExtent p, s = spanOf p (extentOr p otherwise)

/-- The line starts a structure. -/
def StartsStructure (p : Place) : Prop :=
  rulesPattern.atHead? p.stripped = none ∧ (structPattern.atHead? p.stripped).isSome

/-- The line starts a trait. -/
def StartsTrait (p : Place) : Prop :=
  rulesPattern.atHead? p.stripped = none ∧ structPattern.atHead? p.stripped = none ∧
    enumPattern.atHead? p.stripped = none ∧ (trait? p.stripped).isSome

/-- The line starts an implementation block. -/
def StartsBlock (p : Place) : Prop :=
  (mayImplement p.stripped && p.opensSoon) = true ∧
    (implPattern.atHead? (withoutPub p.stripped)).isSome

/-- One of the patterns of items fits the line. -/
def LooksLikeItem (p : Place) : Prop :=
  (rulesPattern.atHead? p.stripped).isSome ∨ (structPattern.atHead? p.stripped).isSome ∨
    (enumPattern.atHead? p.stripped).isSome ∨ (trait? p.stripped).isSome ∨
    (functionPattern.atHead? p.stripped).isSome

/-- The line declares an item: it is no comment, attribute, use statement or implementation block,
and one of the patterns of items fits it. -/
structure DeclaresItem (p : Place) : Prop where
  idle : isIdle p.stripped = false
  use : isUse p.stripped = false
  block : ¬ StartsBlock p
  item : LooksLikeItem p

theorem semicolonExtent_eq_zero {p : Place} (h : p.Terminated) : semicolonExtent p = 0 := by
  have hfirst : p.distance? (·.contains ';') = some 0 := by
    rw [distance?, onward, List.findIdx?_cons, h.contains]
    rfl
  rw [semicolonExtent, hfirst]
  rfl

/-- **An item that ends with a semicolon keeps to its line unless a brace opens on the next.** -/
theorem extentOr_eq_zero_iff {p : Place} (h : p.Terminated) {otherwise : Nat}
    (hotherwise : otherwise ≤ semicolonExtent p) :
    extentOr p otherwise = 0 ↔ p.opensSoon = false := by
  rw [semicolonExtent_eq_zero h] at hotherwise
  rw [extentOr]
  cases hopens : p.opensSoon with
  | false =>
    simp only [Bool.false_eq_true, if_false, iff_true]
    omega
  | true =>
    -- The brace stands on the next line, so there is one.
    have hafter : p.after ≠ [] := by
      intro hnil
      rw [opensSoon, h.2, hnil] at hopens
      cases hopens
    have hpos : 0 < lexis.extent p := Lexis.extent_pos h.2 hafter
    simp only [if_true, Bool.true_eq_false, iff_false]
    omega

theorem Measured.last_eq_iff {p : Place} (h : Measured p s) (hp : p.Terminated) :
    s.last = p.index + 1 ↔ p.opensSoon = false := by
  obtain ⟨otherwise, hotherwise, rfl⟩ := h
  rw [← extentOr_eq_zero_iff hp hotherwise, spanOf]
  dsimp only
  omega

theorem Measured.first {p : Place} (h : Measured p s) : s.first = p.index + 1 := by
  obtain ⟨otherwise, -, rfl⟩ := h
  rfl

/-- What starts on a line was measured there. -/
theorem measured_of_first {lines : List Line} {p : Place} (hp : p ∈ all lines) (hq : q ∈ all lines)
    (h : Measured q s) (hfirst : s.first = p.index + 1) :
    Measured p s := by
  have hindex := h.first
  rwa [eq_of_index_eq hp hq (by omega)]

/-! ### Implementation blocks -/

/-- The range starts with a block, or behind the start of another one that reaches it. -/
def StartsInside (lines : List Line) (ranges : Covered) (r : Nat × Nat) : Prop :=
  (∃ q ∈ all lines, q.index = r.1 ∧ StartsBlock q) ∨ ∃ s ∈ ranges, s.1 < r.1 ∧ r.1 ≤ s.2

theorem StartsInside.mono {lines : List Line} {more : Covered} {r : Nat × Nat}
    (h : StartsInside lines ranges r) (hmore : ranges ⊆ more) : StartsInside lines more r := by
  rcases h with hblock | ⟨s, hs, hinside⟩
  · exact .inl hblock
  · exact .inr ⟨s, hmore hs, hinside⟩

/-- What holds of the findings of the first sweep: the methods of blocks stand on covered lines, and
no covered range starts on its own without a block. -/
structure Blocked (lines : List Line) (found : Findings) : Prop where
  classes : found.classes = []
  functions : ∀ f ∈ found.functions, ∃ q ∈ all lines,
    found.covered.mem q.index = true ∧ Measured q f.span
  starts : ∀ r ∈ found.covered, StartsInside lines found.covered r

/-- The findings with one more range covered. -/
def Findings.cover (found : Findings) (range : Nat × Nat) : Findings :=
  { found with covered := range :: found.covered }

variable {lines : List Line} {found : Findings} {p : Place}

theorem Blocked.widen (h : Blocked lines found) (hold : found.covered ⊆ ranges)
    (hnew : ∀ r ∈ ranges, r ∈ found.covered ∨ StartsInside lines ranges r) :
    Blocked lines { found with covered := ranges } where
  classes := h.classes
  functions := by
    intro f hf
    obtain ⟨q, hq, hcovered, hmeasured⟩ := h.functions f hf
    obtain ⟨r, hr, hinside⟩ := Covered.mem_iff.1 hcovered
    exact ⟨q, hq, Covered.mem_iff.2 ⟨r, hold hr, hinside⟩, hmeasured⟩
  starts := by
    intro r hr
    rcases hnew r hr with hr | hstarts
    · exact (h.starts r hr).mono hold
    · exact hstarts

theorem Blocked.cover (h : Blocked lines found) (hp : p ∈ all lines) (hblock : StartsBlock p)
    (last : Nat) : Blocked lines (found.cover (p.index, last)) := by
  apply h.widen (List.subset_cons_self _ _)
  intro r hr
  rcases List.mem_cons.1 hr with rfl | hr
  · exact .inr (.inl ⟨p, hp, rfl, hblock⟩)
  · exact .inl hr

/-- A method on a covered line, entered into a table of methods. -/
theorem Blocked.enter (h : Blocked lines found) (hp : p ∈ all lines)
    (hcovered : found.covered.mem p.index = true) {f : Callable} (hf : Measured p f.span)
    (methods : Assoc (List Callable)) :
    Blocked lines { found with functions := found.functions ++ [f], methods := methods } where
  classes := h.classes
  functions := by
    intro g hg
    rcases List.mem_append.1 hg with hg | hg
    · exact h.functions g hg
    · rw [List.mem_singleton.1 hg]
      exact ⟨p, hp, hcovered, hf⟩
  starts := h.starts

/-- A method inside a block that counts as covered. -/
theorem Blocked.methodStep {range : Nat × Nat} (h : Blocked lines (found.cover range))
    (hp : p ∈ all lines) (hfirst : range.1 < p.index) (hlast : p.index ≤ range.2)
    (traitName : Option String) (typeName : String) :
    Blocked lines ((methodStep traitName typeName found p).cover range) := by
  rw [Rust.methodStep]
  split
  · exact h
  split
  · exact h
  have hwider : Blocked lines { found with
      covered := range :: (p.index, p.index + extentOr p 0) :: found.covered } := by
    apply h.widen (List.cons_subset_cons range (List.subset_cons_self _ _))
    intro r hr
    rcases List.mem_cons.1 hr with rfl | hr
    · exact .inl List.mem_cons_self
    rcases List.mem_cons.1 hr with rfl | hr
    · exact .inr (.inr ⟨range, List.mem_cons_self, hfirst, hlast⟩)
    · exact .inl (List.mem_cons_of_mem _ hr)
  apply hwider.enter hp
  · exact Covered.mem_iff.2 ⟨range, List.mem_cons_self, by omega, hlast⟩
  · exact ⟨0, Nat.zero_le _, rfl⟩

theorem Blocked.implStep (h : Blocked lines found) (hp : p ∈ all lines) :
    Blocked lines (implStep found p).1 := by
  rw [Rust.implStep]
  split
  · rename_i hmay
    split
    · exact h
    · rename_i m hm
      have hblock : StartsBlock p := ⟨hmay, by rw [hm]; rfl⟩
      -- The range of the block counts as covered while its methods are found.
      refine List.foldlRecOn (motive := fun found : Findings =>
        Blocked lines (found.cover (p.index, p.index + lexis.extent p))) _ _
        (h.cover hp hblock _) ?_
      intro found hfound q hq
      have hindex := index_of_mem_take hq
      have hinside := ((mem_following_iff hp).1 (List.mem_of_mem_take hq)).1
      exact hfound.methodStep hinside (by dsimp only; omega) (by dsimp only; omega) _ _
  · exact h

/-- The findings of the first sweep. -/
def blocks (lines : List Line) : Findings :=
  sweep implStep 0 ⟨[], [], [], []⟩ (all lines)

theorem blocked_blocks (lines : List Line) : Blocked lines (blocks lines) := by
  apply sweep_induction_of_mem
  · intro found p hp h
    exact h.implStep hp
  · exact ⟨rfl, by simp, by simp⟩

/-- Behind a line that no block covers only another block makes a line covered. -/
theorem Blocked.next (h : Blocked lines found) (hq : q ∈ all lines)
    (hp : found.covered.mem p.index = false) (hnext : q.index = p.index + 1)
    (hblock : ¬ StartsBlock q) : found.covered.mem q.index = false := by
  by_contra hcovered
  obtain ⟨r, hr, hfirst, hlast⟩ := Covered.mem_iff.1 (Bool.not_eq_false _ ▸ hcovered)
  have houtside : ∀ s ∈ found.covered, ¬ (s.1 ≤ p.index ∧ p.index ≤ s.2) := by
    intro s hs hinside
    rw [Covered.mem_iff.2 ⟨s, hs, hinside⟩] at hp
    cases hp
  have hr' := houtside r hr
  rcases h.starts r hr with ⟨u, hu, hindex, hstarts⟩ | ⟨s, hs, hbefore, hbehind⟩
  · rw [eq_of_index_eq hu hq (by omega)] at hstarts
    exact hblock hstarts
  · exact houtside s hs (by omega)

/-! ### Items between the blocks -/

/-- A function or a type is among the findings. -/
def Findings.Has (found : Findings) : Callable ⊕ ClassItem → Prop
  | .inl f => f ∈ found.functions
  | .inr c => c ∈ found.classes

/-- What the second sweep finds on a line, behind a first one that found `b`. -/
def itemVisit (b : Findings) (p : Place) : List (Callable ⊕ ClassItem) × Nat :=
  let after := itemStep { b with functions := [], classes := [] } p
  (after.1.functions.map .inl ++ after.1.classes.map .inr, after.2)

/-- The methods that a type on the line declares itself: those on the lines of a trait. -/
def OwnMethods (p : Place) (name : String) (extent : Nat) (own : List Callable) : Prop :=
  (StartsTrait p ∧ own = (p.following.take (extent - 1)).filterMap (traitMethod? name)) ∨
    (¬ StartsTrait p ∧ own = [])

/-- All that a line without block, comment or use statement can add to any findings. -/
theorem itemAt_cases (p : Place) :
    (∃ f, ∃ otherwise ≤ semicolonExtent p, f.span = spanOf p (extentOr p otherwise) ∧
      ∀ found, itemAt found p = (found.addFunction f, extentOr p otherwise)) ∨
    (∃ name bases own, ∃ otherwise ≤ semicolonExtent p,
      OwnMethods p name (extentOr p otherwise) own ∧ ∀ found,
        itemAt found p =
          (found.addClass p name (extentOr p otherwise) bases own, extentOr p otherwise)) ∨
    (¬ LooksLikeItem p ∧ ∀ found, itemAt found p = (found, 0)) := by
  -- One case per pattern, in the order in which a line is tried with them.
  cases hrules : rulesPattern.atHead? p.stripped with
  | some m =>
    refine .inl ⟨.plain (groupString m 1) (spanOf p (extentOr p 0)) [] (attributes p ++ ["macro"])
      (documentation? p), 0, Nat.zero_le _, rfl, fun found => ?_⟩
    simp only [itemAt, hrules]
  | none =>
  cases hstruct : structPattern.atHead? p.stripped with
  | some m =>
    refine .inr (.inl ⟨groupString m 1, [], [], if p.has '(' then semicolonExtent p else 0, ?_,
      .inr ⟨?_, rfl⟩, fun found => ?_⟩)
    · split
      · exact Nat.le_refl _
      · exact Nat.zero_le _
    · rintro ⟨-, hnone, -⟩
      rw [hstruct] at hnone
      cases hnone
    · simp only [itemAt, hrules, hstruct]
  | none =>
  cases henum : enumPattern.atHead? p.stripped with
  | some m =>
    refine .inr (.inl ⟨groupString m 1, [], [], 0, Nat.zero_le _, .inr ⟨?_, rfl⟩, fun found => ?_⟩)
    · rintro ⟨-, -, hnone, -⟩
      rw [henum] at hnone
      cases hnone
    · simp only [itemAt, hrules, hstruct, henum]
  | none =>
  cases htrait : trait? p.stripped with
  | some m =>
    refine .inr (.inl ⟨groupString m 1,
      ((m.group? 2).map fun cs => (splitOn '+' cs).filterMap superTrait?).getD [], _, 0,
      Nat.zero_le _, .inl ⟨⟨hrules, hstruct, henum, by rw [htrait]; rfl⟩, rfl⟩, fun found => ?_⟩)
    simp only [itemAt, hrules, hstruct, henum, htrait]
  | none =>
  cases hfunction : functionPattern.atHead? p.stripped with
  | some m =>
    refine .inl ⟨.plain (groupString m 1) (spanOf p (extentOr p (semicolonExtent p)))
      (parametersAt p) (attributes p) (documentation? p), semicolonExtent p, Nat.le_refl _, rfl,
      fun found => ?_⟩
    simp only [itemAt, functionAt, hrules, hstruct, henum, htrait, hfunction]
  | none =>
    refine .inr (.inr ⟨?_, fun found => ?_⟩)
    · simp [LooksLikeItem, hrules, hstruct, henum, htrait, hfunction]
    · simp only [itemAt, functionAt, hrules, hstruct, henum, htrait, hfunction]

/-- What a visit of the second sweep finds: nothing, a function, or a type with its methods. -/
inductive Visit (b : Findings) (p : Place) : List (Callable ⊕ ClassItem) × Nat → Prop
  | nothing (extent : Nat) (hnone : b.covered.mem p.index = false → ¬ DeclaresItem p) :
    Visit b p ([], extent)
  | function (f : Callable) (extent : Nat) (hfree : b.covered.mem p.index = false)
    (hspan : f.span = spanOf p extent) (hmeasured : Measured p f.span) :
    Visit b p ([.inl f], extent)
  | type (c : ClassItem) (own : List Callable) (extent : Nat)
    (hfree : b.covered.mem p.index = false) (hspan : c.span = spanOf p extent)
    (hmeasured : Measured p c.span) (hown : OwnMethods p c.name extent own)
    (hmethods : c.methods = own ++ (b.methods.get? c.name).getD []) :
    Visit b p (own.map .inl ++ [.inr c], extent)

theorem visit_itemVisit (b : Findings) (p : Place) : Visit b p (itemVisit b p) := by
  rw [itemVisit, itemStep]
  dsimp only
  split
  · rename_i hpassed
    apply Visit.nothing
    intro hfree hdeclares
    rw [hfree, hdeclares.idle] at hpassed
    cases hpassed
  rename_i hpassed
  simp only [Bool.or_eq_true, not_or, Bool.not_eq_true] at hpassed
  split
  · rename_i huse
    apply Visit.nothing
    intro _ hdeclares
    rw [hdeclares.use] at huse
    cases huse
  rcases itemAt_cases p with ⟨f, otherwise, hotherwise, hspan, hitem⟩ |
    ⟨name, bases, own, otherwise, hotherwise, hown, hitem⟩ | ⟨hlooks, hitem⟩
  · rw [hitem]
    exact .function f _ hpassed.1 hspan ⟨otherwise, hotherwise, hspan⟩
  · rw [hitem]
    exact .type _ own _ hpassed.1 rfl ⟨otherwise, hotherwise, rfl⟩ hown rfl
  · rw [hitem]
    exact .nothing 0 fun _ hdeclares => hlooks hdeclares.item

/-- A visit adds the same to all findings with the same blocks. -/
theorem itemStep_eq_itemVisit {b : Findings} (p : Place)
    (h : found.methods = b.methods ∧ found.covered = b.covered) :
    (itemStep found p).2 = (itemVisit b p).2 ∧
      (∀ x, (itemStep found p).1.Has x ↔ found.Has x ∨ x ∈ (itemVisit b p).1) ∧
      ((itemStep found p).1.methods = b.methods ∧ (itemStep found p).1.covered = b.covered) := by
  rw [itemVisit, itemStep, itemStep, h.2]
  dsimp only
  split
  · exact ⟨rfl, by simp, h⟩
  split
  · exact ⟨rfl, by simp, h⟩
  rcases itemAt_cases p with ⟨f, otherwise, -, -, hitem⟩ |
    ⟨name, bases, own, otherwise, -, -, hitem⟩ | ⟨-, hitem⟩
  · rw [hitem, hitem]
    refine ⟨rfl, ?_, h⟩
    rintro (g | c) <;> simp [Findings.Has, Findings.addFunction]
  · rw [hitem, hitem]
    refine ⟨rfl, ?_, h⟩
    rintro (g | c) <;> simp [Findings.Has, Findings.addClass, h.1]
  · rw [hitem, hitem]
    exact ⟨rfl, by simp, h⟩

/-- The places that the second sweep visits. -/
def visits (lines : List Line) : List Place :=
  visited (itemVisit (blocks lines)) 0 (all lines)

/-- The findings of both sweeps. -/
def swept (lines : List Line) : Findings :=
  sweep itemStep 0 (blocks lines) (all lines)

/-- What both sweeps find is what the first one finds and what the visits of the second one do. -/
theorem has_swept_iff (lines : List Line) (x : Callable ⊕ ClassItem) :
    (swept lines).Has x ↔
      (blocks lines).Has x ∨ ∃ p ∈ visits lines, x ∈ (itemVisit (blocks lines) p).1 := by
  have hcollect := @sweep_holds_iff _ _ itemStep 0 0 [] lines (blocks lines)
    (itemVisit (blocks lines)) Findings.Has
    (fun _ found => found.methods = (blocks lines).methods ∧
      found.covered = (blocks lines).covered)
    (fun _ p _ h => itemStep_eq_itemVisit p h) ⟨rfl, rfl⟩ x
  rw [collect_eq_flatMap, List.mem_flatMap] at hcollect
  exact hcollect

/-! ### Items that end with a semicolon -/

theorem measured_traitMethod? {f : Callable} (h : traitMethod? name q = some f) :
    Measured q f.span := by
  obtain ⟨m, -, rfl⟩ := Option.map_eq_some_iff.1 h
  exact ⟨semicolonExtent q, Nat.le_refl _, rfl⟩

/-- The methods of a trait stand on its lines, behind the first and before the last. -/
theorem OwnMethods.place {extent : Nat} (h : OwnMethods p name extent own) {f : Callable}
    (hf : f ∈ own) :
    StartsTrait p ∧
      ∃ q ∈ p.following, q.index < p.index + extent ∧ Measured q f.span := by
  rcases h with ⟨htrait, rfl⟩ | ⟨-, rfl⟩
  · obtain ⟨q, hq, hmethod⟩ := List.mem_filterMap.1 hf
    have hindex := index_of_mem_take hq
    exact ⟨htrait, q, List.mem_of_mem_take hq, by omega, measured_traitMethod? hmethod⟩
  · cases hf

/-- Every line of a trait that looks like a function declares a method. -/
theorem OwnMethods.exists_of_place {extent : Nat} (h : OwnMethods p name extent own)
    (htrait : StartsTrait p) (hq : q ∈ p.following) (hlast : q.index < p.index + extent)
    (hfunction : (functionPattern.atHead? q.stripped).isSome) :
    ∃ f ∈ own, f.span.first = q.index + 1 := by
  rcases h with ⟨-, rfl⟩ | ⟨hno, -⟩
  · have hsome : (traitMethod? name q).isSome := by
      rw [traitMethod?, Option.isSome_map]
      exact hfunction
    obtain ⟨f, hf⟩ := Option.isSome_iff_exists.1 hsome
    have hinside : q ∈ p.following.take (extent - 1) := by
      obtain ⟨passed, -, -, hindex⟩ := mem_allFrom_iff.1 hq
      exact mem_take_iff.2 ⟨hq, by omega⟩
    exact ⟨f, List.mem_filterMap.2 ⟨q, hinside, hf⟩, (measured_traitMethod? hf).first⟩
  · exact absurd htrait hno

section Sweeps

variable {f : Callable} {c : ClassItem}

theorem mem_all_of_mem_visits (h : p ∈ visits lines) : p ∈ all lines :=
  visited_subset 0 _ h

/-- Where a function of a visit stands: on the line of the visit, or on a line of a trait. -/
theorem place_of_mem_itemVisit (h : .inl f ∈ (itemVisit (blocks lines) p).1) :
    (blocks lines).covered.mem p.index = false ∧ (Measured p f.span ∨ StartsTrait p ∧
      ∃ q ∈ p.following, q.index < p.index + (itemVisit (blocks lines) p).2 ∧
        Measured q f.span) := by
  have hvisit := visit_itemVisit (blocks lines) p
  generalize itemVisit (blocks lines) p = v at h hvisit
  cases hvisit with
  | nothing extent => cases h
  | function g extent hfree _ hmeasured =>
    cases List.mem_singleton.1 h
    exact ⟨hfree, .inl hmeasured⟩
  | type d own extent hfree _ _ hown =>
    have hf : f ∈ own := by simpa using h
    exact ⟨hfree, .inr (hown.place hf)⟩

/-- A type of a visit starts on the line of the visit and covers what the visit does. Its methods
are those of its own lines and those that blocks have for its name. -/
theorem type_of_mem_itemVisit (h : .inr c ∈ (itemVisit (blocks lines) p).1) :
    (blocks lines).covered.mem p.index = false ∧ c.span = spanOf p (itemVisit (blocks lines) p).2 ∧
      Measured p c.span ∧ ∃ own, OwnMethods p c.name (itemVisit (blocks lines) p).2 own ∧
        (∀ f ∈ own, .inl f ∈ (itemVisit (blocks lines) p).1) ∧
        c.methods = own ++ ((blocks lines).methods.get? c.name).getD [] := by
  have hvisit := visit_itemVisit (blocks lines) p
  generalize itemVisit (blocks lines) p = v at h hvisit
  cases hvisit with
  | nothing extent => cases h
  | function g extent => cases List.mem_singleton.1 h
  | type d own extent hfree hspan hmeasured hown hmethods =>
    have hc : c = d := by simpa using h
    subst hc
    refine ⟨hfree, hspan, hmeasured, own, hown, ?_, hmethods⟩
    intro f hf
    simpa using hf

/-- A visit to a line that declares an item finds one there. -/
theorem exists_of_declaresItem (hfree : (blocks lines).covered.mem p.index = false)
    (h : DeclaresItem p) :
    (∃ f : Callable, .inl f ∈ (itemVisit (blocks lines) p).1 ∧ f.span.first = p.index + 1) ∨
      ∃ c : ClassItem, .inr c ∈ (itemVisit (blocks lines) p).1 ∧ c.span.first = p.index + 1 := by
  have hvisit := visit_itemVisit (blocks lines) p
  generalize itemVisit (blocks lines) p = v at hvisit
  cases hvisit with
  | nothing extent hnone => exact absurd h (hnone hfree)
  | function f extent _ _ hmeasured => exact .inl ⟨f, List.mem_singleton_self _, hmeasured.first⟩
  | type c own extent _ _ hmeasured =>
    exact .inr ⟨c, List.mem_append_right _ (List.mem_singleton_self _), hmeasured.first⟩

theorem mem_functions_iff : f ∈ (swept lines).functions ↔
    f ∈ (blocks lines).functions ∨ ∃ p ∈ visits lines, .inl f ∈ (itemVisit (blocks lines) p).1 :=
  has_swept_iff lines (.inl f)

theorem mem_classes_iff : c ∈ (swept lines).classes ↔
    ∃ p ∈ visits lines, .inr c ∈ (itemVisit (blocks lines) p).1 := by
  have hclasses := has_swept_iff lines (.inr c)
  simpa only [Findings.Has, (blocked_blocks lines).classes, List.not_mem_nil, false_or]
    using hclasses

/-- Every function is measured on its line. -/
theorem measured_of_mem_functions (h : f ∈ (swept lines).functions) :
    ∃ q ∈ all lines, Measured q f.span := by
  rcases mem_functions_iff.1 h with hblock | ⟨p, hp, hf⟩
  · obtain ⟨q, hq, -, hmeasured⟩ := (blocked_blocks lines).functions f hblock
    exact ⟨q, hq, hmeasured⟩
  · have hall := mem_all_of_mem_visits hp
    rcases (place_of_mem_itemVisit hf).2 with hmeasured | ⟨-, q, hq, -, hmeasured⟩
    · exact ⟨p, hall, hmeasured⟩
    · exact ⟨q, ((mem_following_iff hall).1 hq).1, hmeasured⟩

/-- The visit that finds a type is that to its first line. -/
theorem visit_of_mem_classes (hc : c ∈ (swept lines).classes) (hp : p ∈ all lines)
    (hfirst : c.span.first = p.index + 1) :
    p ∈ visits lines ∧ .inr c ∈ (itemVisit (blocks lines) p).1 := by
  obtain ⟨q, hq, hc⟩ := mem_classes_iff.1 hc
  have hindex := (type_of_mem_itemVisit hc).2.2.1.first
  have hplace : q = p := eq_of_index_eq (mem_all_of_mem_visits hq) hp (by omega)
  rw [← hplace]
  exact ⟨hq, hc⟩

/-- **A line behind a visited one is reported exactly if it is visited,** outside of a trait. -/
theorem reported_next_iff (hp : p ∈ visits lines) (hq : q ∈ all lines)
    (hfree : (blocks lines).covered.mem p.index = false) (hnext : q.index = p.index + 1)
    (htrait : ¬ StartsTrait p) (hdeclares : DeclaresItem q) :
    ((∃ f ∈ (swept lines).functions, f.span.first = q.index + 1) ∨
      ∃ c ∈ (swept lines).classes, c.span.first = q.index + 1) ↔ q ∈ visits lines := by
  have hfree' := (blocked_blocks lines).next hq hfree hnext hdeclares.block
  constructor
  · rintro (⟨f, hf, hfirst⟩ | ⟨c, hc, hfirst⟩)
    · rcases mem_functions_iff.1 hf with hblock | ⟨u, hu, hf⟩
      · -- The methods of blocks stand on covered lines.
        obtain ⟨v, hv, hcovered, hmeasured⟩ := (blocked_blocks lines).functions f hblock
        have hindex := hmeasured.first
        rw [show v.index = q.index by omega, hfree'] at hcovered
        cases hcovered
      · rcases (place_of_mem_itemVisit hf).2 with hmeasured | ⟨hstarts, v, hv, hlast, hmeasured⟩
        · have hindex := hmeasured.first
          rwa [← eq_of_index_eq (mem_all_of_mem_visits hu) hq (by omega)]
        · -- A trait that holds the line would hold the visited one before it, or start there.
          exfalso
          have hall := mem_all_of_mem_visits hu
          have hbehind := ((mem_following_iff hall).1 hv).2
          have hindex := hmeasured.first
          rcases eq_or_ne u.index p.index with hsame | hother
          · rw [eq_of_index_eq hall (mem_all_of_mem_visits hp) hsame] at hstarts
            exact htrait hstarts
          · have hapart := apart_of_mem_visited hu hp (by omega)
            omega
    · exact (visit_of_mem_classes hc hq hfirst).1
  · intro hvisited
    rcases exists_of_declaresItem hfree' hdeclares with ⟨f, hf, hfirst⟩ | ⟨c, hc, hfirst⟩
    · exact .inl ⟨f, mem_functions_iff.2 (.inr ⟨q, hvisited, hf⟩), hfirst⟩
    · exact .inr ⟨c, mem_classes_iff.2 ⟨q, hvisited, hc⟩, hfirst⟩

end Sweeps

/-- **Items that end with a semicolon.** They keep to their line, and let a declaration on the next
line be reported, exactly if no brace opens on the next line. Methods of a trait never hide what its
other lines declare. -/
structure SemicolonLaw (lines : List Line) (o : Outline) : Prop where
  function_iff : ∀ p ∈ all lines, p.Terminated → ∀ f,
    (f ∈ o.functions ∨ ∃ c ∈ o.classes, f ∈ c.methods) → f.span.first = p.index + 1 →
      (f.span.last = p.index + 1 ↔ p.opensSoon = false)
  type_iff : ∀ p ∈ all lines, p.Terminated → ∀ c ∈ o.classes, c.span.first = p.index + 1 →
    (c.span.last = p.index + 1 ↔ p.opensSoon = false)
  next_iff : ∀ p ∈ all lines, p.Terminated → StartsStructure p →
    (∃ c ∈ o.classes, c.span.first = p.index + 1) →
      ∀ q ∈ all lines, q.index = p.index + 1 → DeclaresItem q →
        (((∃ f ∈ o.functions, f.span.first = q.index + 1) ∨
          ∃ c ∈ o.classes, c.span.first = q.index + 1) ↔ p.opensSoon = false)
  trait_methods : ∀ p ∈ all lines, StartsTrait p → ∀ c ∈ o.classes,
    c.span.first = p.index + 1 → ∀ q ∈ all lines, p.index < q.index →
      (q.index + 1 : Int) < c.span.last → (functionPattern.atHead? q.stripped).isSome →
        ∃ f ∈ c.methods, f ∈ o.functions ∧ f.span.first = q.index + 1

theorem semicolonLaw_outline (sourceName : String) (text : List Char) :
    SemicolonLaw (splitNewlines text) (outline sourceName text) where
  function_iff := by
    intro p hp hterminated f hf hfirst
    have hfunctions : f ∈ (swept (splitNewlines text)).functions := by
      rcases hf with hf | ⟨c, hc, hf⟩
      · exact hf
      · exact ((coherent_outline sourceName text).listed c hc f hf).1
    obtain ⟨q, hq, hmeasured⟩ := measured_of_mem_functions hfunctions
    exact (measured_of_first hp hq hmeasured hfirst).last_eq_iff hterminated
  type_iff := by
    intro p hp hterminated c hc hfirst
    have hvisit := (visit_of_mem_classes hc hp hfirst).2
    exact (type_of_mem_itemVisit hvisit).2.2.1.last_eq_iff hterminated
  next_iff := by
    rintro p hp hterminated hstarts ⟨c, hc, hfirst⟩ q hq hnext hdeclares
    obtain ⟨hvisited, hvisit⟩ := visit_of_mem_classes hc hp hfirst
    obtain ⟨hfree, hspan, hmeasured, -⟩ := type_of_mem_itemVisit hvisit
    have htrait : ¬ StartsTrait p := by
      rintro ⟨-, hnone, -⟩
      have hsome := hstarts.2
      rw [hnone] at hsome
      cases hsome
    have hextent : (itemVisit (blocks (splitNewlines text)) p).2 = 0 ↔ p.opensSoon = false := by
      rw [← hmeasured.last_eq_iff hterminated, hspan, spanOf]
      dsimp only
      omega
    -- The next line is visited exactly if the declaration reaches no further line.
    exact (reported_next_iff hvisited hq hfree hnext htrait hdeclares).trans
      ((mem_visited_next_iff hvisited hq hnext).trans hextent)
  trait_methods := by
    intro p hp hstarts c hc hfirst q hq hbehind hlast hfunction
    obtain ⟨hvisited, hvisit⟩ := visit_of_mem_classes hc hp hfirst
    obtain ⟨-, hspan, -, own, hown, hlisted, hmethods⟩ := type_of_mem_itemVisit hvisit
    rw [hspan, spanOf] at hlast
    dsimp only at hlast
    obtain ⟨f, hf, hplace⟩ := hown.exists_of_place hstarts
      ((mem_following_iff hp).2 ⟨hq, hbehind⟩) (by omega) hfunction
    refine ⟨f, ?_, mem_functions_iff.2 (.inr ⟨p, hvisited, hlisted f hf⟩), hplace⟩
    rw [hmethods]
    exact List.mem_append_left _ hf

end Rust

end SourceAtlas
