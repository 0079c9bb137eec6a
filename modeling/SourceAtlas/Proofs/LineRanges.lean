import SourceAtlas.Proofs.Cutting
import SourceAtlas.Proofs.QualifiedNames
import SourceAtlas.Proofs.Tables

/-!
# Lines that an outline speaks of

Every range of lines in an outline starts at the first line or later, does not end before it starts,
and ends at the last line or before; every import stands on one of the lines
(`Outline.WellSpanned`). Here this is shown for all kinds of text but Python sources, which have a
grammar and tokens of their own.

What is found in a source is found by a search that adds one declaration after the other. Its names
and its ranges are looked at together: functions are qualified, classes list methods among the
functions, and all lie within the lines (`Coherent`). So there is one pass over the steps of each
search.

For a source in lines, a range starts at a place and reaches over so many of the lines after it. A
place knows the lines after it, so all that has to be shown is that no search for an end looks
further than these. The one about blocks is `Lexis.extent_le`, whatever the literals and comments of
the language.
-/

set_option autoImplicit false

namespace SourceAtlas

open Callable Place Text

variable {f : Callable} {i : ImportItem} {c : ClassItem}
variable {places : List Place} {k : Nat}

/-! ## Ranges within a text -/

/-- The range lies within so many lines. -/
def Span.Within (s : Span) (total : Nat) : Prop := 1 ≤ s.first ∧ s.first ≤ s.last ∧ s.last ≤ total

/-- All of the callables lie within so many lines. -/
def AllWithin (total : Nat) (fs : List Callable) : Prop := ∀ f ∈ fs, f.span.Within total

theorem allWithin_nil (total : Nat) : AllWithin total [] := fun _ hf => absurd hf List.not_mem_nil

/-- The class and its methods lie within so many lines. -/
def ClassItem.Within (c : ClassItem) (total : Nat) : Prop :=
  c.span.Within total ∧ AllWithin total c.methods

/-- The import stands on one of so many lines. -/
def ImportItem.Within (i : ImportItem) (total : Nat) : Prop := 1 ≤ i.line ∧ i.line ≤ total

/-- The lines of an outline are counted, and all that it speaks of lies within them. -/
structure Outline.WellSpanned (o : Outline) : Prop where
  lines : o.totalLines = o.lines.length
  offsets : o.totalLines = o.offsets.length
  functions : AllWithin o.totalLines o.functions
  classes : ∀ c ∈ o.classes, c.Within o.totalLines
  imports : ∀ i ∈ o.imports, i.Within o.totalLines
  sections : ∀ s ∈ o.sections, s.span.Within o.totalLines

namespace Text

theorem length_offsetsFrom (start : Nat) (lengths : List Nat) :
    (offsetsFrom start lengths).length = lengths.length := by
  induction lengths generalizing start with
  | nil => rfl
  | cons n lengths ih => rw [offsetsFrom, List.length_cons, ih, List.length_cons]

theorem length_offsets (lines : List (List Char)) : (offsets lines).length = lines.length := by
  rw [offsets, length_offsetsFrom, List.length_map]

end Text

theorem Outline.wellSpanned_ofLines (sourceName : String) (text : List Char)
    (lines : List (List Char)) : (ofLines sourceName text lines).WellSpanned where
  lines := by simp [ofLines]
  offsets := by simp [ofLines, length_offsets]
  functions := allWithin_nil _
  classes := by simp [ofLines]
  imports := by simp [ofLines]
  sections := by simp [ofLines]

/-! ## Places -/

namespace Place

variable {p : Place}
variable {total : Nat} {lines : List Line}

/-- The place is one in a source of so many lines. -/
def Of (p : Place) (total : Nat) : Prop := p.index + 1 + p.after.length = total

theorem of_mem_allFrom {index : Nat} {before : List Line} (h : p ∈ allFrom index before lines) :
    p.Of (index + lines.length) := by
  induction lines generalizing index before with
  | nil => cases h
  | cons line lines ih =>
    rw [allFrom, List.mem_cons] at h
    rcases h with rfl | h
    · simp only [Of, List.length_cons]
      omega
    · have hrest := ih h
      simp only [Of, List.length_cons] at hrest ⊢
      omega

theorem of_mem_all (h : p ∈ all lines) : p.Of lines.length := by
  simpa using of_mem_allFrom h

theorem Of.of_mem_following {q : Place} (hp : p.Of total) (h : q ∈ p.following) :
    q.Of total := by
  have hq := of_mem_allFrom h
  rwa [hp] at hq

/-- What reaches from a place over some of the lines after it lies within the source. -/
theorem Of.within {extent : Nat} (hp : p.Of total) (h : extent ≤ p.after.length) :
    (⟨p.index + 1, p.index + extent + 1⟩ : Span).Within total := by
  unfold Of at hp
  refine ⟨?_, ?_, ?_⟩ <;> simp only <;> omega

theorem Of.import_within (hp : p.Of total) (h : i.line = p.index + 1) :
    i.Within total := by
  unfold Of at hp
  rw [ImportItem.Within, h]
  omega

/-- The first line that passes a test is not further away than the last line. -/
theorem distance?_le {test : Line → Bool} (h : p.distance? test = some k) :
    k ≤ p.after.length := by
  obtain ⟨hk, -⟩ := List.findIdx?_eq_some_iff_findIdx_eq.1 h
  simpa [onward, Nat.lt_succ_iff] using hk

end Place

/-! ## Blocks -/

namespace Lexis

variable {μ : Type} (l : Lexis μ)
variable {lines : List Line}

/-- A literal that runs on does not run past the last line. -/
theorem passage_closed_lt {m : μ} {b : Balance} {distance : Nat}
    (h : l.passage m b distance lines = .closed k) : k < distance + lines.length := by
  induction lines generalizing m b distance with
  | nil => cases h
  | cons line rest ih =>
    rw [passage] at h
    split at h
    · cases h
      simp
    · split at h
      · cases h
      · have hrest := ih h
        rw [List.length_cons]
        omega

theorem closingFrom?_lt {m : μ} {b : Balance} (h : l.closingFrom? m b lines = some k) :
    k < lines.length := by
  induction lines generalizing m b k with
  | nil => cases h
  | cons line rest ih =>
    rw [closingFrom?] at h
    split at h
    · rename_i distance hpassage
      cases h
      simpa using l.passage_closed_lt hpassage
    · cases h
    · obtain ⟨j, hj, rfl⟩ := Option.map_eq_some_iff.1 h
      have hrest := ih hj
      rw [List.length_cons]
      omega

/-- **No block reaches past the last line,** whatever the literals and comments of the language. -/
theorem extent_le (p : Place) : l.extent p ≤ p.after.length := by
  unfold extent
  cases h : l.closing? p.onward with
  | none => exact Nat.le_refl _
  | some k =>
    have hk : k < p.onward.length := l.closingFrom?_lt h
    exact Nat.lt_succ_iff.1 hk

end Lexis

/-! ## What a source declares -/

/-- The callable is qualified as its place demands, and lies within so many lines. -/
structure Callable.Sound (f : Callable) (total : Nat) : Prop where
  qualified : f.Qualified
  within : f.span.Within total

/-- The callable is a sound method of a class of the name. -/
structure Callable.Member (f : Callable) (parent : String) (total : Nat) : Prop
    extends f.Sound total where
  isMethodOf : f.IsMethodOf parent

section Callables

variable {name parent : String} {span : Span} {parameters decorators : List String}
  {docstring : Option String} {total : Nat}

theorem Callable.sound_plain (h : span.Within total) :
    (plain name span parameters decorators docstring).Sound total :=
  ⟨qualified_plain .., h⟩

theorem Callable.member_method (h : span.Within total) :
    (method parent name span parameters decorators docstring).Member parent total :=
  ⟨⟨qualified_method .., h⟩, rfl, rfl⟩

end Callables

/-- Functions and classes of a source of so many lines that fit together. -/
structure Coherent (total : Nat) (functions : List Callable) (classes : List ClassItem) : Prop where
  sound : ∀ f ∈ functions, f.Sound total
  spans : ∀ c ∈ classes, c.span.Within total
  listed : MethodsListed functions classes

namespace Coherent

variable {total : Nat} {functions : List Callable} {classes : List ClassItem}

theorem nil (total : Nat) : Coherent total [] [] := ⟨by simp, by simp, methodsListed_nil _⟩

section

variable (h : Coherent total functions classes)
include h

theorem addFunctions {more : List Callable} (hmore : ∀ f ∈ more, f.Sound total) :
    Coherent total (functions ++ more) classes where
  sound := List.forall_mem_append.2 ⟨h.sound, hmore⟩
  spans := h.spans
  listed c hc m hm := ⟨List.mem_append_left _ (h.listed c hc m hm).1, (h.listed c hc m hm).2⟩

theorem addFunction (hf : f.Sound total) :
    Coherent total (functions ++ [f]) classes :=
  h.addFunctions (List.forall_mem_singleton.2 hf)

theorem addClass (hspan : c.span.Within total) (hlisted : c.Listed functions) :
    Coherent total functions (classes ++ [c]) where
  sound := h.sound
  spans := List.forall_mem_append.2 ⟨h.spans, List.forall_mem_singleton.2 hspan⟩
  listed := List.forall_mem_append.2 ⟨h.listed, List.forall_mem_singleton.2 hlisted⟩

theorem allQualified : AllQualified functions :=
  fun f hf => (h.sound f hf).qualified

/-- The methods of a class are functions, so they lie where functions do. -/
theorem wellSpanned {o : Outline} (hbase : o.WellSpanned) (htotal : o.totalLines = total)
    {imports : List ImportItem} (himports : ∀ i ∈ imports, i.Within total) {mentions : Mentions} :
    { o with functions, classes, imports, mentions }.WellSpanned where
  lines := hbase.lines
  offsets := hbase.offsets
  functions f hf := htotal ▸ (h.sound f hf).within
  classes c hc := htotal ▸
    ⟨h.spans c hc, fun m hm => (h.sound m (h.listed c hc m hm).1).within⟩
  imports := htotal ▸ himports
  sections := hbase.sections

end

end Coherent

/-! ## Sources by language -/

namespace Script

variable {p : Place} {total : Nat}

theorem aliasExtent_le (p : Place) : aliasExtent p ≤ p.after.length := by
  unfold aliasExtent
  split
  · exact Nat.zero_le _
  split
  · rename_i k hk
    exact (List.findIdx?_eq_some_iff_findIdx_eq.1 hk).1
  · exact Nat.le_refl _

theorem arrowExtent_le (p : Place) : arrowExtent p ≤ p.after.length := by
  unfold arrowExtent
  split
  · exact Nat.zero_le _
  dsimp only
  split
  · rename_i k hk
    exact (List.findIdx?_eq_some_iff_findIdx_eq.1 hk).1
  · exact Nat.zero_le _

/-- A type starts at its place and reaches over some of the lines after it. -/
theorem type?_range {t : TypeRange} (h : type? p = some t) :
    ∃ extent, extent ≤ p.after.length ∧ t.first = p.index ∧ t.last = p.index + extent := by
  unfold type? at h
  split at h
  · cases h
    exact ⟨_, Lexis.plain.extent_le p, rfl, rfl⟩
  split at h
  · cases h
    exact ⟨_, Lexis.plain.extent_le p, rfl, rfl⟩
  · obtain ⟨m, -, rfl⟩ := Option.map_eq_some_iff.1 h
    refine ⟨_, ?_, rfl, rfl⟩
    split
    · exact Lexis.plain.extent_le p
    · exact aliasExtent_le p

theorem types_range (lines : List Line) :
    ∀ t ∈ types lines, (⟨t.first + 1, t.last + 1⟩ : Span).Within lines.length := by
  refine forall_mem_collect_of_mem (fun p hp t ht => ?_) 0
  unfold typeVisit at ht
  split at ht
  · rename_i u hu
    rw [List.mem_singleton.1 ht]
    obtain ⟨extent, hextent, hfirst, hlast⟩ := type?_range hu
    have hwithin := (of_mem_all hp).within hextent
    rw [hfirst, hlast]
    exact_mod_cast hwithin
  · cases ht

theorem member_method? {parent : String} (hp : p.Of total) (h : method? parent p = some f) :
    f.Member parent total := by
  unfold method? at h
  split at h
  · cases h
  dsimp only at h
  split at h
  · cases h
  · cases h
    have hwithin : (⟨p.index + 1, p.index + (if p.has '\x7b' then extent p else 0 : Nat) + 1⟩ :
        Span).Within total := by
      refine hp.within ?_
      split
      · exact Lexis.plain.extent_le p
      · exact Nat.zero_le _
    exact member_method (by exact_mod_cast hwithin)

theorem sound_function? {extent : Nat} (hp : p.Of total) (h : function? p = some (f, extent)) :
    f.Sound total := by
  unfold function? at h
  dsimp only at h
  split at h
  · cases h
    refine sound_plain (hp.within ?_)
    split
    · exact Lexis.plain.extent_le p
    · exact Nat.zero_le _
  · obtain ⟨m, -, hm⟩ := Option.map_eq_some_iff.1 h
    cases hm
    refine sound_plain (hp.within ?_)
    split
    · exact Lexis.plain.extent_le p
    · exact arrowExtent_le p

theorem sound_functions (covered : Covered) (hplaces : ∀ p ∈ places, p.Of total) :
    ∀ f ∈ functions covered places, f.Sound total := by
  refine forall_mem_collect_of_mem (fun p hp f hf => ?_) 0
  unfold functionVisit at hf
  split at hf
  · cases hf
  split at hf
  · rename_i g extent hg
    rw [List.mem_singleton.1 hf]
    exact sound_function? (hplaces p hp) hg
  · cases hf

theorem within_import? (hp : p.Of total) (h : import? p = some i) :
    i.Within total := by
  unfold import? at h
  split at h
  · cases h
    exact hp.import_within rfl
  · obtain ⟨m, -, rfl⟩ := Option.map_eq_some_iff.1 h
    exact hp.import_within rfl

/-- A class lists the methods of all classes of its name. -/
theorem coherent_outline (sourceName : String) (text : List Char) :
    Coherent (splitNewlines text).length (outline sourceName text).functions
      (outline sourceName text).classes := by
  have hplaces := fun p (hp : p ∈ all (splitNewlines text)) => of_mem_all hp
  have hmethods : ∀ f ∈ (types (splitNewlines text)).flatMap
      (methodsOf (all (splitNewlines text))),
      ∃ parent, f.Member parent (splitNewlines text).length := by
    intro f hf
    obtain ⟨t, -, ht⟩ := List.mem_flatMap.1 hf
    obtain ⟨p, hp, hmethod⟩ := List.mem_filterMap.1 ht
    exact ⟨_, member_method? (hplaces p (List.mem_filter.1 hp).1) hmethod⟩
  refine ⟨fun f hf => ?_, fun c hc => ?_, fun c hc m hm => ?_⟩
  · rcases List.mem_append.1 hf with hf | hf
    · exact (hmethods f hf).choose_spec.toSound
    · exact sound_functions _ hplaces f hf
  · obtain ⟨t, ht, rfl⟩ := List.mem_map.1 hc
    exact types_range _ t ht
  · obtain ⟨t, -, rfl⟩ := List.mem_map.1 hc
    obtain ⟨hfound, hparent⟩ := List.mem_filter.1 hm
    obtain ⟨parent, hmember⟩ := hmethods m hfound
    exact ⟨List.mem_append_left _ hfound, hmember.isMethodOf.1, beq_iff_eq.1 hparent⟩

theorem wellSpanned_outline (sourceName : String) (text : List Char) :
    (outline sourceName text).WellSpanned := by
  refine (coherent_outline sourceName text).wellSpanned (Outline.wellSpanned_ofLines ..) rfl ?_
  intro i hi
  obtain ⟨p, hp, himport⟩ := List.mem_filterMap.1 hi
  exact within_import? (of_mem_all hp) himport

end Script

namespace Go

theorem extent_le (p : Place) : extent p ≤ p.after.length := by
  unfold extent
  split
  · exact lexis.extent_le p
  · exact Nat.zero_le _

variable {p : Place} {total : Nat}

/-- A function starts on its line, and reaches as far as the block there. -/
theorem callable?_cases (h : callable? p = some f) :
    f.Qualified ∧ f.span = spanOf p (extent p) := by
  unfold callable? at h
  split at h
  · cases h
    exact ⟨qualified_method .., rfl⟩
  · obtain ⟨m, -, rfl⟩ := Option.map_eq_some_iff.1 h
    exact ⟨qualified_plain .., rfl⟩

/-- An interface starts on the line of the place. -/
def StartsInterface (p : Place) : Prop :=
  (structPattern.atHead? p.stripped).isNone ∧ (interfacePattern.atHead? p.stripped).isSome

/-- What a type declares: its lines are those of its visit, and only an interface lists methods. -/
theorem type?_cases {reach : Nat} (h : type? p = some (c, reach)) :
    reach ≤ p.after.length ∧ c.span = spanOf p reach ∧
      (c.methods = [] ∨
        StartsInterface p ∧ c.methods = (bodyPlaces p reach).filterMap (signature? c.name)) := by
  rw [type?] at h
  cases hstruct : structPattern.atHead? p.stripped with
  | some m =>
    rw [hstruct] at h
    cases h
    exact ⟨extent_le p, rfl, .inl rfl⟩
  | none =>
    rw [hstruct] at h
    dsimp only at h
    cases hinterface : interfacePattern.atHead? p.stripped with
    | some m =>
      rw [hinterface] at h
      cases h
      exact ⟨extent_le p, rfl, .inr ⟨⟨by rw [hstruct]; rfl, by rw [hinterface]; rfl⟩, rfl⟩⟩
    | none =>
      rw [hinterface] at h
      obtain ⟨m, -, hm⟩ := Option.map_eq_some_iff.1 h
      cases hm
      exact ⟨Nat.zero_le _, rfl, .inl rfl⟩

/-- What a visit finds: nothing, a function, or a type. -/
theorem declarationAt_cases (p : Place) :
    (declarationAt p).1 = [] ∨
      (∃ f, callable? p = some f ∧ declarationAt p = ([.callable f], extent p)) ∨
      ∃ c reach, type? p = some (c, reach) ∧ declarationAt p = ([.type c], reach) := by
  rw [declarationAt]
  split_ifs
  · exact .inl rfl
  · exact .inl rfl
  cases hcallable : callable? p with
  | some f => exact .inr (.inl ⟨f, rfl, rfl⟩)
  | none =>
    cases htype : type? p with
    | some found => exact .inr (.inr ⟨found.1, found.2, rfl, rfl⟩)
    | none => exact .inl rfl

theorem member_signature? (hp : p.Of total) {parent : String} (h : signature? parent p = some f) :
    f.Member parent total := by
  obtain ⟨m, -, rfl⟩ := Option.map_eq_some_iff.1 h
  exact member_method (by simpa using hp.within (Nat.zero_le _))

/-- A function is sound; a type lies within so many lines, and what it lists by itself are methods
of it. -/
def Declaration.Sound (total : Nat) : Declaration → Prop
  | .callable f => f.Sound total
  | .type c => c.span.Within total ∧ ∀ m ∈ c.methods, m.Member c.name total

theorem sound_declarationAt (hp : p.Of total) : ∀ d ∈ (declarationAt p).1, d.Sound total := by
  intro d hd
  rcases declarationAt_cases p with hnone | ⟨f, hf, hvisit⟩ | ⟨c, reach, hc, hvisit⟩
  · rw [hnone] at hd
    cases hd
  · rw [hvisit, List.mem_singleton] at hd
    obtain ⟨hqualified, hspan⟩ := callable?_cases hf
    rw [hd]
    exact ⟨hqualified, hspan ▸ hp.within (extent_le p)⟩
  · rw [hvisit, List.mem_singleton] at hd
    obtain ⟨hreach, hspan, hmethods⟩ := type?_cases hc
    rw [hd]
    refine ⟨hspan ▸ hp.within hreach, fun m hm => ?_⟩
    rcases hmethods with hnone | ⟨-, hlisted⟩
    · rw [hnone] at hm
      cases hm
    · -- The methods that an interface lists stand on lines after its first.
      rw [hlisted] at hm
      obtain ⟨q, hq, hsignature⟩ := List.mem_filterMap.1 hm
      have hbody := List.mem_of_mem_take (List.mem_filter.1 hq).1
      exact member_signature? (hp.of_mem_following hbody) hsignature

/-- What is attached to a type are functions that name it as their receiver. -/
theorem listed_attach {functions : List Callable} (h : c.Listed functions) :
    (attach functions c).Listed functions := by
  unfold attach
  split
  · intro m hm
    obtain ⟨hfound, htest⟩ := List.mem_filter.1 hm
    rw [Bool.and_eq_true, beq_iff_eq] at htest
    exact ⟨hfound, htest⟩
  · exact h

theorem span_attach (functions : List Callable) (c : ClassItem) :
    (attach functions c).span = c.span ∧ (attach functions c).name = c.name := by
  rw [attach]
  split_ifs <;> exact ⟨rfl, rfl⟩

theorem within_importStep (hplaces : ∀ p ∈ places, p.Of total) (inGroup : Bool) :
    ∀ i ∈ importStep inGroup places, i.Within total := by
  induction places generalizing inGroup with
  | nil => cases inGroup <;> simp [importStep]
  | cons p places ih =>
    have hp := hplaces p List.mem_cons_self
    have hrest := ih (List.forall_mem_cons.1 hplaces).2
    intro i hi
    cases inGroup with
    | true =>
      rw [importStep] at hi
      split at hi
      · exact hrest _ i hi
      · rcases List.mem_append.1 hi with hi | hi
        · obtain ⟨m, -, rfl⟩ := Option.map_eq_some_iff.1 (Option.mem_toList.1 hi)
          exact hp.import_within rfl
        · exact hrest _ i hi
    | false =>
      rw [importStep] at hi
      split at hi
      · rename_i j hj
        rcases List.mem_cons.1 hi with rfl | hi
        · unfold import? at hj
          split at hj
          · split at hj
            · cases hj
            · cases hj
              exact hp.import_within rfl
          · cases hj
        · exact hrest _ i hi
      · exact hrest _ i hi

theorem coherent_outline (sourceName : String) (text : List Char) :
    Coherent (splitNewlines text).length (outline sourceName text).functions
      (outline sourceName text).classes := by
  have hfound : ∀ d ∈ declarations (splitNewlines text),
      d.Sound (splitNewlines text).length :=
    forall_mem_collect_of_mem (fun p hp => sound_declarationAt (of_mem_all hp)) 0
  refine ⟨fun f hf => ?_, fun c hc => ?_, fun c hc => ?_⟩
  · obtain ⟨d, hd, hcallable⟩ := List.mem_flatMap.1 hf
    have hsound := hfound d hd
    cases d with
    | callable g =>
      rw [List.mem_singleton.1 hcallable]
      exact hsound
    | type c => exact (hsound.2 f hcallable).toSound
  · obtain ⟨own, hown, rfl⟩ := List.mem_map.1 hc
    obtain ⟨_ | b, hd, ⟨⟩⟩ := List.mem_filterMap.1 hown
    rw [(span_attach _ own).1]
    exact (hfound _ hd).1
  · obtain ⟨own, hown, rfl⟩ := List.mem_map.1 hc
    obtain ⟨_ | b, hd, ⟨⟩⟩ := List.mem_filterMap.1 hown
    refine listed_attach fun m hm => ⟨?_, ((hfound _ hd).2 m hm).isMethodOf⟩
    exact List.mem_flatMap.2 ⟨.type own, hd, hm⟩

theorem wellSpanned_outline (sourceName : String) (text : List Char) :
    (outline sourceName text).WellSpanned :=
  (coherent_outline sourceName text).wellSpanned (Outline.wellSpanned_ofLines ..) rfl
    (within_importStep (fun _ => of_mem_all) false)

end Go

namespace Rust

theorem semicolonExtent_le (p : Place) : semicolonExtent p ≤ p.after.length := by
  unfold semicolonExtent
  cases h : p.distance? (·.contains ';') with
  | none => exact Nat.zero_le _
  | some k => exact distance?_le h

theorem extentOr_le {p : Place} {otherwise : Nat} (h : otherwise ≤ p.after.length) :
    extentOr p otherwise ≤ p.after.length := by
  unfold extentOr
  split
  · exact lexis.extent_le p
  · exact h

/-- What the sweeps keep: functions and classes fit together, and the table of methods by the name
of their type holds functions. -/
structure Findings.Coherent (found : Findings) (total : Nat) : Prop where
  declared : SourceAtlas.Coherent total found.functions found.classes
  methods : ∀ name, ∀ m ∈ (found.methods.get? name).getD [],
    m ∈ found.functions ∧ m.IsMethodOf name

variable {found : Findings} {p : Place} {total : Nat}

/-- What the table holds is among the functions also when more are found. -/
theorem Findings.Coherent.of_mem (h : found.Coherent total) (more : List Callable) {name : String}
    {m : Callable} (hm : m ∈ (found.methods.get? name).getD []) :
    m ∈ found.functions ++ more ∧ m.IsMethodOf name :=
  ⟨List.mem_append_left _ (h.methods name m hm).1, (h.methods name m hm).2⟩

theorem coherent_addMethod (h : found.Coherent total) {parent : String} (hf : f.Member parent total)
    (range : Nat × Nat) :
    (found.addMethod f range).Coherent total where
  declared := h.declared.addFunction hf.toSound
  methods name m hm := by
    have hname : f.parent.getD "" = parent := by rw [hf.isMethodOf.2]; rfl
    unfold Findings.addMethod at hm ⊢
    dsimp only at hm ⊢
    rw [hname, Assoc.get?_put] at hm
    split at hm
    · rename_i heq
      subst heq
      rcases List.mem_append.1 hm with hold | hnew
      · exact h.of_mem _ hold
      · rw [List.mem_singleton.1 hnew]
        exact ⟨List.mem_append_right _ (List.mem_singleton_self f), hf.isMethodOf⟩
    · exact h.of_mem _ hm

theorem coherent_addFunction (h : found.Coherent total) (hf : f.Sound total) :
    (found.addFunction f).Coherent total :=
  ⟨h.declared.addFunction hf, fun _ _ hm => h.of_mem _ hm⟩

/-- A type takes its own methods and those of the table under its name. -/
theorem coherent_addClass (h : found.Coherent total) (hp : p.Of total) {extent : Nat}
    (hextent : extent ≤ p.after.length) {name : String} (bases : List String)
    {own : List Callable} (hown : ∀ m ∈ own, m.Member name total) :
    (found.addClass p name extent bases own).Coherent total where
  declared := by
    refine (h.declared.addFunctions fun m hm => (hown m hm).toSound).addClass
      (hp.within hextent) fun m hm => ?_
    rcases List.mem_append.1 hm with hm | hm
    · exact ⟨List.mem_append_right _ hm, (hown m hm).isMethodOf⟩
    · exact h.of_mem _ hm
  methods _ _ hm := h.of_mem _ hm

theorem coherent_methodStep (traitName : Option String) (typeName : String)
    (h : found.Coherent total) (hp : p.Of total) :
    (methodStep traitName typeName found p).Coherent total := by
  unfold methodStep
  split
  · exact h
  split
  · exact h
  · exact coherent_addMethod h
      (member_method (hp.within (extentOr_le (Nat.zero_le _)))) _

theorem coherent_implStep (found : Findings) (h : found.Coherent total) (hp : p.Of total) :
    (implStep found p).1.Coherent total := by
  unfold implStep
  split
  · split
    · exact h
    · have hinside : ∀ traitName typeName, ((p.following.take (lexis.extent p - 1)).foldl
          (methodStep traitName typeName) found).Coherent total := by
        intro traitName typeName
        refine List.foldlRecOn (motive := fun found : Findings => found.Coherent total) _ _ h ?_
        intro found hfound q hq
        exact coherent_methodStep _ _ hfound (hp.of_mem_following (List.mem_of_mem_take hq))
      exact ⟨(hinside _ _).declared, (hinside _ _).methods⟩
  · exact h

theorem coherent_itemAt (h : found.Coherent total) (hp : p.Of total) :
    (itemAt found p).1.Coherent total := by
  unfold itemAt
  split
  · exact coherent_addFunction h
      (sound_plain (hp.within (extentOr_le (Nat.zero_le _))))
  split
  · refine coherent_addClass h hp (extentOr_le ?_) _ (by simp)
    split
    · exact semicolonExtent_le p
    · exact Nat.zero_le _
  split
  · exact coherent_addClass h hp (extentOr_le (Nat.zero_le _)) _ (by simp)
  split
  · refine coherent_addClass h hp (extentOr_le (Nat.zero_le _)) _ fun f hf => ?_
    obtain ⟨q, hq, hmethod⟩ := List.mem_filterMap.1 hf
    obtain ⟨m, -, rfl⟩ := Option.map_eq_some_iff.1 hmethod
    have hinside := hp.of_mem_following (List.mem_of_mem_take hq)
    exact member_method (hinside.within (extentOr_le (semicolonExtent_le q)))
  unfold functionAt
  split
  · exact coherent_addFunction h
      (sound_plain (hp.within (extentOr_le (semicolonExtent_le p))))
  · exact h

theorem coherent_itemStep (found : Findings) (h : found.Coherent total) (hp : p.Of total) :
    (itemStep found p).1.Coherent total := by
  unfold itemStep
  split
  · exact h
  split
  · exact h
  · exact coherent_itemAt h hp

theorem coherent_outline (sourceName : String) (text : List Char) :
    SourceAtlas.Coherent (splitNewlines text).length (outline sourceName text).functions
      (outline sourceName text).classes := by
  have hstart : Findings.Coherent ⟨[], [], [], []⟩ (splitNewlines text).length :=
    ⟨.nil _, by simp⟩
  have hblocks := sweep_induction_of_mem
    (fun found p hp h => coherent_implStep found h (of_mem_all hp)) hstart 0
  have hfound := sweep_induction_of_mem
    (fun found p hp h => coherent_itemStep found h (of_mem_all hp)) hblocks 0
  exact hfound.declared

theorem line_namedImport (path : List Char) (newName : Option String) (line : Int) :
    (namedImport path newName line).line = line := by
  unfold namedImport
  split <;> rfl

theorem line_importOfPath (path : List Char) (line : Int) :
    (importOfPath path line).line = line := by
  unfold importOfPath
  split
  · rfl
  split
  · exact line_namedImport _ _ _
  split
  · rfl
  split
  · exact line_namedImport _ _ _
  · rfl

theorem line_importOfUse? {statement : List Char} {index : Nat}
    (h : importOfUse? statement index = some i) : i.line = index + 1 := by
  obtain ⟨m, -, rfl⟩ := Option.map_eq_some_iff.1 h
  exact line_importOfPath _ _

theorem within_importAt (hp : p.Of total) : ∀ i ∈ (importAt p).1, i.Within total := by
  intro i hi
  unfold importAt at hi
  split at hi
  · split at hi
    · rename_i j hj
      rw [List.mem_singleton.1 hi]
      exact hp.import_within (line_importOfUse? hj)
    split at hi
    · exact hp.import_within (line_importOfUse? (Option.mem_toList.1 hi))
    · cases hi
  · cases hi

theorem wellSpanned_outline (sourceName : String) (text : List Char) :
    (outline sourceName text).WellSpanned :=
  (coherent_outline sourceName text).wellSpanned (Outline.wellSpanned_ofLines ..) rfl
    (forall_mem_collect_of_mem (fun _ hp => within_importAt (of_mem_all hp)) 0)

end Rust

namespace CSharp

theorem blockExtent_le (p : Place) (distance : Nat) : blockExtent p distance ≤ p.after.length := by
  unfold blockExtent
  split
  · exact Nat.le_refl _
  · rename_i line after hdrop
    have hextent := lexis.extent_le ⟨p.index + distance, [], line, after⟩
    have hlength := congrArg List.length hdrop
    simp only [onward, List.length_drop, List.length_cons] at hlength hextent
    omega

theorem methodExtent_le {p : Place} {room : Nat} (h : room ≤ p.after.length) :
    methodExtent p room ≤ p.after.length := by
  unfold methodExtent
  split
  · exact blockExtent_le p _
  · cases hsemicolon : (p.onward.take room).findIdx? (·.contains ';') with
    | none => exact h
    | some k =>
      obtain ⟨hk, -⟩ := List.findIdx?_eq_some_iff_findIdx_eq.1 hsemicolon
      rw [List.length_take] at hk
      show k ≤ p.after.length
      omega

/-- The number of further lines that a type has. -/
def TypeExtent.reach : TypeExtent → Nat
  | .block extent => extent
  | .bare extent => extent

theorem reach_typeExtent_le (p : Place) : (typeExtent p).reach ≤ p.after.length := by
  unfold typeExtent
  split
  · exact lexis.extent_le p
  split
  · exact Nat.zero_le _
  split
  · rename_i k hk
    split
    · exact blockExtent_le p _
    · exact (List.findIdx?_eq_some_iff_findIdx_eq.1 hk).1
  · exact Nat.zero_le _

/-- Functions and classes that were found fit together. -/
def Findings.Coherent (found : Findings) (total : Nat) : Prop :=
  SourceAtlas.Coherent total found.functions found.classes

/-- All of the methods found inside a type belong to it. -/
def Members.Of (members : Members) (typeName : String) (total : Nat) : Prop :=
  ∀ m ∈ members.methods, m.Member typeName total

variable {found : Findings} {p : Place} {total : Nat}

/-- The lines of a type that are left from a member on are lines of the source. -/
theorem of_memberStep {typeName : String} {last : Nat} (hlast : last < total)
    {members : Members} (h : members.Of typeName total) (hp : p.Of total) :
    (memberStep typeName last members p).1.Of typeName total := by
  unfold memberStep
  split
  · exact h
  split
  · split <;> exact h
  split
  · exact h
  split
  · exact h
  · intro m hm
    rcases List.mem_append.1 hm with hm | hm
    · exact h m hm
    · rw [List.mem_singleton.1 hm]
      refine member_method (hp.within (methodExtent_le ?_))
      unfold Place.Of at hp
      omega

/-- A type is added together with its methods. -/
theorem coherent_typeAt (h : found.Coherent total) (hp : p.Of total) (m : Cursor) :
    (typeAt found p m).1.Coherent total := by
  have hreach := reach_typeExtent_le p
  unfold typeAt
  split
  · rename_i extent hextent
    rw [hextent] at hreach
    exact Coherent.addClass h (hp.within hreach) fun _ hm => absurd hm List.not_mem_nil
  · rename_i extent hextent
    rw [hextent] at hreach
    have hlast : p.index + extent < total := by
      unfold Place.Of at hp
      simp only [TypeExtent.reach] at hreach
      omega
    have hmembers : Members.Of
        (if groupString m 1 == "enum" then ⟨[], found.covered⟩
          else sweep (memberStep (groupString m 2) (p.index + extent)) 0 ⟨[], found.covered⟩
            p.following) (groupString m 2) total := by
      have hstart : Members.Of ⟨[], found.covered⟩ (groupString m 2) total := by simp [Members.Of]
      split
      · exact hstart
      · exact sweep_induction_of_mem (motive := (Members.Of · (groupString m 2) total))
          (fun _ _ hq hs => of_memberStep hlast hs (hp.of_mem_following hq)) hstart 0
    exact (Coherent.addFunctions h fun f hf => (hmembers f hf).toSound).addClass
      (hp.within hreach) fun f hf => ⟨List.mem_append_right _ hf, (hmembers f hf).isMethodOf⟩

theorem coherent_typeStep (found : Findings) (h : found.Coherent total) (hp : p.Of total) :
    (typeStep found p).1.Coherent total := by
  unfold typeStep
  split
  · exact h
  split
  · exact h
  split
  · exact coherent_typeAt h hp _
  · exact h

theorem coherent_functionStep (found : Findings) (h : found.Coherent total) (hp : p.Of total) :
    (functionStep found p).1.Coherent total := by
  unfold functionStep
  split
  · exact h
  split
  · exact h
  · exact Coherent.addFunction h
      (sound_plain (hp.within (methodExtent_le (Nat.le_refl p.after.length))))

theorem coherent_outline (sourceName : String) (text : List Char) :
    SourceAtlas.Coherent (splitNewlines text).length (outline sourceName text).functions
      (outline sourceName text).classes := by
  have hstart : Findings.Coherent ⟨[], [], []⟩ (splitNewlines text).length := .nil _
  have htypes := sweep_induction_of_mem
    (fun found p hp h => coherent_typeStep found h (of_mem_all hp)) hstart 0
  exact sweep_induction_of_mem (motive := (Findings.Coherent · _))
    (fun found p hp h => coherent_functionStep found h (of_mem_all hp)) htypes 0

theorem within_import? (hp : p.Of total) (h : import? p = some i) :
    i.Within total := by
  unfold import? at h
  dsimp only at h
  split at h
  · cases h
  split at h
  · cases h
    exact hp.import_within rfl
  split at h
  · cases h
    exact hp.import_within rfl
  split at h
  · split at h
    · cases h
    · cases h
      exact hp.import_within rfl
  · cases h

theorem wellSpanned_outline (sourceName : String) (text : List Char) :
    (outline sourceName text).WellSpanned := by
  refine (coherent_outline sourceName text).wellSpanned (Outline.wellSpanned_ofLines ..) rfl ?_
  intro i hi
  obtain ⟨p, hp, himport⟩ := List.mem_filterMap.1 hi
  exact within_import? (of_mem_all hp) himport

end CSharp

/-! ## Prose -/

namespace Prose

/-- Headings stand on the lines that they are looked for on. -/
theorem line_headingsFrom (i : Nat) (lines : List (List Char)) :
    ∀ h ∈ headingsFrom i lines, i ≤ h.line ∧ h.line < i + lines.length := by
  fun_induction headingsFrom i lines with
  | case1 i => simp
  | case2 i line title level hown => simp
  | case3 i line hown => simp
  | case4 i line next rest level hunder ih =>
    intro h hh
    rcases List.mem_cons.1 hh with rfl | hh
    · simp
    · have hrest := ih h hh
      simp only [List.length_cons]
      omega
  | case5 i line next rest hunder title level hown ih =>
    intro h hh
    rcases List.mem_cons.1 hh with rfl | hh
    · simp
    · have hrest := ih h hh
      simp only [List.length_cons] at hrest ⊢
      omega
  | case6 i line next rest hunder hown ih =>
    intro h hh
    have hrest := ih h hh
    simp only [List.length_cons] at hrest ⊢
    omega

/-- Headings come in the order of their lines, each on a line of its own. -/
theorem pairwise_headingsFrom (i : Nat) (lines : List (List Char)) :
    (headingsFrom i lines).Pairwise fun h k => h.line < k.line := by
  fun_induction headingsFrom i lines with
  | case1 i => exact .nil
  | case2 i line title level hown => simp
  | case3 i line hown => exact .nil
  | case4 i line next rest level hunder ih =>
    refine .cons (fun k hk => ?_) ih
    have hline := (line_headingsFrom _ _ k hk).1
    show i < k.line
    omega
  | case5 i line next rest hunder title level hown ih =>
    refine .cons (fun k hk => ?_) ih
    exact (line_headingsFrom _ _ k hk).1
  | case6 i line next rest hunder hown ih => exact ih

/-- A section reaches from its heading to a later one, or to the last line. -/
theorem within_sections {total : Nat} {headings : List Heading}
    (hlines : ∀ h ∈ headings, h.line < total)
    (horder : headings.Pairwise fun h k => h.line < k.line) :
    ∀ s ∈ sections total headings, s.span.Within total := by
  induction headings with
  | nil => simp [sections]
  | cons h headings ih =>
    obtain ⟨hlater, hrest⟩ := List.pairwise_cons.1 horder
    intro s hs
    rw [sections, List.mem_cons] at hs
    rcases hs with rfl | hs
    · have hfirst := hlines h List.mem_cons_self
      cases hnext : headings.find? fun k => k.level ≤ h.level with
      | none =>
        simp only [Span.Within, Option.map_none, Option.getD_none]
        omega
      | some k =>
        have hk := List.mem_of_find?_eq_some hnext
        have hafter := hlater k hk
        have hbefore := hlines k (List.mem_cons_of_mem h hk)
        simp only [Span.Within, Option.map_some, Option.getD_some]
        omega
    · exact ih (List.forall_mem_cons.1 hlines).2 hrest s hs

theorem wellSpanned_outline (sourceName : String) (text : List Char) :
    (outline sourceName text).WellSpanned := by
  have hbase := Outline.wellSpanned_ofLines sourceName text (splitNewlines text)
  have hlines : ∀ h ∈ headingsFrom 0 (splitNewlines text),
      h.line < (splitNewlines text).length := by
    intro h hh
    simpa using (line_headingsFrom 0 _ h hh).2
  exact { hbase with sections := within_sections hlines (pairwise_headingsFrom 0 _) }

end Prose

/-! ## JSON texts -/

namespace Data

variable {lines : List (List Char)}

/-- The line of a key is one of the lines, if there are any. -/
theorem keyLine_within (hlines : lines ≠ []) (key : String) (start : Nat) :
    1 ≤ keyLine lines key start ∧ keyLine lines key start ≤ lines.length := by
  have hlength := List.length_pos_iff.2 hlines
  unfold keyLine
  dsimp only
  split
  · rename_i i hi
    obtain ⟨hlt, -⟩ := List.findIdx?_eq_some_iff_findIdx_eq.1 hi
    rw [List.length_drop] at hlt
    omega
  · omega

/-- All that was found lies within so many lines. -/
structure Findings.Within (found : Findings) (total : Nat) : Prop where
  sections : ∀ s ∈ found.sections, s.span.Within total
  references : ∀ i ∈ found.references, i.Within total

theorem within_nothing (total : Nat) : Findings.Within ⟨[], []⟩ total :=
  ⟨by simp, by simp⟩

theorem within_append {a b : Findings} {total : Nat} (ha : a.Within total) (hb : b.Within total) :
    (a.append b).Within total where
  sections := List.forall_mem_append.2 ⟨ha.sections, hb.sections⟩
  references := List.forall_mem_append.2 ⟨ha.references, hb.references⟩

theorem within_lineSection (title : String) (level : Nat) {line total : Nat}
    (h : 1 ≤ line ∧ line ≤ total) : (lineSection title level line).Within total where
  sections s hs := by
    rw [List.mem_singleton.1 hs]
    refine ⟨?_, ?_, ?_⟩ <;> simp only <;> omega
  references := by simp [lineSection]

-- One case per kind of value; the values inside of one are further down.
mutual

theorem within_walk (hlines : lines ≠ []) (path : List Char) (depth start : Nat) (value : Json) :
    (walk lines path depth start value).Within lines.length := by
  match value with
  | .object fields =>
    rw [walk]
    split
    · exact within_nothing _
    · exact within_walkFields hlines path depth start fields
  | .array items =>
    rw [walk]
    split
    · exact within_nothing _
    · exact within_walkItems hlines path depth start 0 items
  | .null | .bool _ | .int _ | .real _ | .text _ => exact within_nothing _

theorem within_walkFields (hlines : lines ≠ []) (path : List Char) (depth start : Nat)
    (fields : List (String × Json)) :
    (walkFields lines path depth start fields).Within lines.length := by
  match fields with
  | [] => exact within_nothing _
  | (key, value) :: rest =>
    unfold walkFields
    dsimp only
    have hline := keyLine_within hlines key start
    have hvalue := fun path depth start => within_walk hlines path depth start value
    refine within_append ?_ (within_walkFields hlines path depth start rest)
    split
    · refine ⟨by simp, fun i hi => ?_⟩
      rw [List.mem_singleton.1 hi]
      show (1 : Int) ≤ keyLine lines key start ∧ (keyLine lines key start : Int) ≤ lines.length
      omega
    · exact within_append (within_lineSection key depth hline) (hvalue _ _ _)

theorem within_walkItems (hlines : lines ≠ []) (path : List Char) (depth start i : Nat)
    (items : List Json) :
    (walkItems lines path depth start i items).Within lines.length := by
  match items with
  | [] => exact within_nothing _
  | .object fields :: rest =>
    rw [walkItems]
    refine within_append ?_ (within_walkItems hlines path depth start (i + 1) rest)
    split
    · rename_i name hname
      have hline := keyLine_within hlines name start
      exact within_append (within_lineSection _ depth hline)
        (within_walk hlines _ _ _ (.object fields))
    · exact within_walk hlines _ _ _ (.object fields)
  | .array _ :: rest | .null :: rest | .bool _ :: rest | .int _ :: rest | .real _ :: rest
  | .text _ :: rest => exact within_walkItems hlines path depth start (i + 1) rest

end

theorem wellSpanned_outline {sourceName : String} {text : List Char} {o : Outline}
    (h : outline sourceName text = .ok o) : o.WellSpanned := by
  unfold outline at h
  split at h
  · cases h
  · cases h
    exact Outline.wellSpanned_ofLines _ _ _
  · rename_i value hvalue
    cases h
    have hbase := Outline.wellSpanned_ofLines sourceName text (splitNewlines text)
    have hlines : splitNewlines text ≠ [] := splitWhere_ne_nil _ text
    have hfound := within_walk hlines [] 1 0 value
    exact { hbase with imports := hfound.references, sections := hfound.sections }

end Data

end SourceAtlas
