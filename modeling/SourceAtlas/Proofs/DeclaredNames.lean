import SourceAtlas.Proofs.BareDeclarations
import SourceAtlas.Proofs.ParameterLists

/-!
# Declared names and commas

A list of parameters is cut at every comma, and each piece is read by itself. But commas also stand
inside of types, and between names that share a type. `declared_names` says what is found then, for
any types: each declared name, and behind it whatever the pieces of its type behind a comma are
taken to declare; of names that share a type the last only.
-/

set_option autoImplicit false

namespace SourceAtlas

open Text

/-! ## Pieces between commas -/

/-- The pieces of a text behind its commas. -/
def behindCommas (text : List Char) : List (List Char) := (splitOn ',' text).tail

section Pieces

variable {read : List Char → Option String} {front text : List Char} {name : String}

theorem splitOn_eq_cons (text : List Char) :
    ∃ first, splitOn ',' text = first :: behindCommas text := by
  cases h : splitOn ',' text with
  | nil => exact absurd h (splitWhere_ne_nil _ text)
  | cons first later => exact ⟨first, by rw [behindCommas, h, List.tail_cons]⟩

theorem splitOn_append_front (hfront : ',' ∉ front) {first : List Char}
    (h : splitOn ',' text = first :: behindCommas text) :
    splitOn ',' (front ++ text) = (front ++ first) :: behindCommas text := by
  apply splitWhere_append_of_forall_not _ h
  intro c hc
  simpa using ne_of_mem_of_not_mem hc hfront

/-- A list is cut into the pieces of its members. -/
theorem readPieces_join (hnil : read [] = none) (ws : List (List Char)) :
    readPieces read (join [',', ' '] ws) = ws.flatMap (readPieces read) := by
  have hblank : ∀ text, readPieces read (' ' :: text) = readPieces read text := by
    intro text
    obtain ⟨first, hfirst⟩ := splitOn_eq_cons text
    have hfront : splitOn ',' ([' '] ++ text) = ([' '] ++ first) :: behindCommas text :=
      splitOn_append_front (by decide) hfirst
    rw [List.cons_append, List.nil_append] at hfront
    rw [readPieces, readPieces, hfront, hfirst, List.cons_append, List.nil_append,
      List.filterMap_cons, List.filterMap_cons, trim_cons_blank (by decide)]
  induction ws with
  | nil =>
    simp [readPieces, join, splitOn, splitWhere_nil, trim, trimLeft, trimRight, dropEndWhile, hnil]
  | cons w ws ih =>
    cases ws with
    | nil => simp [join]
    | cons v ws =>
      rw [join_cons_of_ne_nil _ _ (by simp), List.append_assoc, List.flatMap_cons, ← ih]
      rw [List.cons_append, readPieces, splitOn_append_sep, List.filterMap_append]
      exact congrArg _ (hblank _)

/-- The first piece gives the name, and those behind commas give what they seem to declare. -/
theorem readPieces_of_front (hfront : ',' ∉ front)
    (hread : ∀ first later, splitOn ',' text = first :: later →
      read (trim (front ++ first)) = some name) :
    readPieces read (front ++ text) =
      name :: (behindCommas text).filterMap fun piece => read (trim piece) := by
  obtain ⟨first, hfirst⟩ := splitOn_eq_cons text
  rw [readPieces, splitOn_append_front hfront hfirst, List.filterMap_cons, hread _ _ hfirst]

end Pieces

section Names

variable {α β : Type} {f : α → β} {h : α → List β} {as : List α}

/-- Members that give something each give as much as one name each only if none gives more. -/
theorem flatMap_eq_map_iff (hne : ∀ a, h a ≠ []) :
    as.flatMap h = as.map f ↔ ∀ a ∈ as, h a = [f a] := by
  induction as with
  | nil => simp
  | cons a as ih =>
    rw [List.flatMap_cons, List.map_cons, List.forall_mem_cons, ← ih]
    constructor
    · intro heq
      -- The later members give one each at least, which leaves no room for a second one here.
      have hlength := congrArg List.length heq
      have hmany := length_le_flatMap hne as
      have hpos := List.length_pos_iff.2 (hne a)
      rw [List.length_append, List.length_cons, List.length_map] at hlength
      obtain ⟨b, hb⟩ := List.length_eq_one_iff.1 (show (h a).length = 1 by omega)
      rw [hb, List.singleton_append] at heq
      obtain ⟨rfl, hrest⟩ := List.cons.inj heq
      exact ⟨hb, hrest⟩
    · rintro ⟨ha, hrest⟩
      rw [ha, hrest]
      rfl

end Names

/-- What is found in a list of members that have a name and a type: each name, and behind it what is
read from the pieces of the type behind its commas. -/
def namesAndMore {α : Type} (read : List Char → Option String) (name type : α → List Char)
    (ps : List α) : List String :=
  ps.flatMap fun p =>
    String.ofList (name p) :: (behindCommas (type p)).filterMap fun piece => read (trim piece)

/-- The names alone are found if no piece of a type behind a comma seems to have one. -/
theorem namesAndMore_eq_map_iff {α : Type} {read : List Char → Option String}
    {seems : List Char → List Char → Prop}
    (hread : ∀ {piece n}, read (trim piece) = some (String.ofList n) ↔ seems piece n)
    (name type : α → List Char) (ps : List α) :
    namesAndMore read name type ps = ps.map (fun p => String.ofList (name p)) ↔
      ∀ p ∈ ps, ∀ piece ∈ behindCommas (type p), ∀ n, ¬ seems piece n := by
  rw [namesAndMore, flatMap_eq_map_iff (by simp)]
  apply forall₂_congr
  intro p _
  simp only [List.cons.injEq, true_and, List.filterMap_eq_nil_iff]
  apply forall₂_congr
  intro piece _
  rw [Option.eq_none_iff_forall_ne_some]
  constructor
  · intro hnone n hseems
    exact hnone _ (hread.2 hseems)
  · intro hnone n hsome
    rw [← String.ofList_toList (s := n)] at hsome
    exact hnone _ (hread.1 hsome)

/-- A name with its type begins with the name and a colon. -/
theorem Text.Trimmed.trim_typed {name : List Char} (h : Trimmed name) (first : List Char) :
    trim ((name ++ [':', ' ']) ++ first) = name ++ ':' :: trimRight (' ' :: first) := by
  have hcolon : Trimmed (name ++ ([] ++ [':'])) :=
    h.around (Trimmed.of_forall (by simp) (by decide)) []
  have htrim := hcolon.trim_append (' ' :: first)
  simpa using htrim

/-- A parameter: a name and the text of its type. -/
structure TypedName (IsName : List Char → Prop) where
  name : List Char
  type : List Char
  isName : IsName name

/-- The text of a parameter. -/
def TypedName.render {IsName : List Char → Prop} (p : TypedName IsName) : List Char :=
  (p.name ++ [':', ' ']) ++ p.type

/-- A name that is read in front of a colon is found in front of its type. -/
theorem TypedName.readPieces_render {IsName : List Char → Prop} {read : List Char → Option String}
    (p : TypedName IsName) (htrimmed : Trimmed p.name) (hcomma : ',' ∉ p.name)
    (hread : ∀ behind, read (p.name ++ ':' :: behind) = some (String.ofList p.name)) :
    readPieces read p.render =
      String.ofList p.name :: (behindCommas p.type).filterMap fun piece => read (trim piece) := by
  apply readPieces_of_front
  · simpa using hcomma
  · intro first later _
    rw [htrimmed.trim_typed first]
    exact hread _

/-! ## Rust -/

namespace Rust

/-- The name of a parameter: an identifier, and not that of a receiver. -/
def IsParameter (name : List Char) : Prop := isIdentifier name = true ∧ name ≠ "self".toList

instance (name : List Char) : Decidable (IsParameter name) := inferInstanceAs (Decidable (_ ∧ _))

/-- The piece looks like a parameter: a colon stands in it, and in front of its first colon there is
an identifier, but for blanks and the word `mut`. -/
def SeemsNamed (piece name : List Char) : Prop :=
  isIdentifier name = true ∧ ∃ front behind, trim piece = front ++ ':' :: behind ∧ ':' ∉ front ∧
    front ≠ "self".toList ∧ dropWord (trim front) "mut " = name

theorem parameterName?_eq_of_cut {piece front behind : List Char}
    (hpiece : piece = front ++ ':' :: behind) (hcolon : ':' ∉ front) :
    parameterName? piece =
      if front = "self".toList then none
      else if isIdentifier (dropWord (trim front) "mut ") then
        some (String.ofList (dropWord (trim front) "mut "))
      else none := by
  have hcut := cutAt?_eq_some_iff.2 ⟨hpiece, hcolon⟩
  have hreceiver : receivers.contains (String.ofList piece) = false := by
    have hall : ∀ r ∈ receivers, ':' ∉ r.toList := by decide
    simp only [List.contains_eq_mem, decide_eq_false_iff_not]
    intro hmem
    apply hall _ hmem
    simp [hpiece]
  have hself : startsWith "self:".toList piece = true ↔ front = "self".toList := by
    rw [startsWith, List.isPrefixOf_iff_prefix]
    constructor
    · rintro ⟨rest, hrest⟩
      have hother : cutAt? [':'] piece = some ("self".toList, rest) :=
        cutAt?_eq_some_iff.2 ⟨hrest.symm, by decide⟩
      rw [hcut] at hother
      cases hother
      rfl
    · rintro rfl
      exact ⟨behind, hpiece.symm⟩
  -- What stands before the colon then starts with an ampersand, and is no name.
  have hreference : startsWith "&self".toList piece = true →
      isIdentifier (dropWord (trim front) "mut ") = false := by
    intro hstart
    obtain ⟨rest, hrest⟩ := List.isPrefixOf_iff_prefix.1 hstart
    cases front with
    | nil => rfl
    | cons c before =>
      have hc : c = '&' := (List.cons.inj (hpiece.symm.trans hrest.symm)).1
      have htrim : trimRight (['&'] ++ before) = ['&'] ++ trimRight before :=
        trimRight_append_of_last ⟨'&', rfl, by decide⟩
      rw [hc, show trim ('&' :: before) = trimRight (['&'] ++ before) from rfl, htrim]
      rfl
  rw [parameterName?, hreceiver, hcut, Bool.false_or]
  simp only [Bool.or_eq_true, hself]
  by_cases hfront : front = "self".toList
  · rw [if_pos (.inl hfront), if_pos hfront]
  rw [if_neg hfront]
  by_cases hstart : startsWith "&self".toList piece = true
  · rw [if_pos (.inr hstart), hreference hstart]
    rfl
  rw [if_neg (not_or.2 ⟨hfront, hstart⟩)]
  cases front <;> rfl

theorem parameterName?_trim_eq_some_iff {piece name : List Char} :
    parameterName? (trim piece) = some (String.ofList name) ↔ SeemsNamed piece name := by
  constructor
  · intro h
    by_cases hmem : ':' ∈ trim piece
    · obtain ⟨front, behind, htrim, hcolon⟩ := List.eq_append_cons_of_mem hmem
      rw [parameterName?_eq_of_cut htrim hcolon] at h
      split_ifs at h with hself hname
      cases String.ofList_injective (Option.some.inj h)
      exact ⟨hname, front, behind, htrim, hcolon, hself, rfl⟩
    · rw [parameterName?, cutAt?_of_not_mem hmem] at h
      split_ifs at h
  · rintro ⟨hname, front, behind, htrim, hcolon, hself, rfl⟩
    rw [parameterName?_eq_of_cut htrim hcolon, if_neg hself, if_pos hname]

theorem readPieces_render (p : TypedName IsParameter) :
    readPieces parameterName? p.render =
      String.ofList p.name :: (behindCommas p.type).filterMap fun piece =>
        parameterName? (trim piece) := by
  obtain ⟨hidentifier, hself⟩ := p.isName
  let n : Identifier := ⟨p.name, hidentifier⟩
  have hne : ∀ {d}, (isIdentifierStart d || isIdentifierContinue d) = false → d ∉ p.name :=
    fun hd hmem => n.ne_of_mem hmem hd rfl
  have hbare : dropWord (trim p.name) "mut " = p.name := by
    rw [n.trimmed.trim_eq, dropWord]
    cases hmut : after? "mut ".toList p.name with
    | none => rfl
    | some rest =>
      have hblank : ' ' ∈ p.name := by
        rw [after?_eq_some_iff.1 hmut]
        simp
      exact absurd hblank (hne (by decide))
  refine p.readPieces_render n.trimmed (hne (by decide)) fun behind => ?_
  rw [parameterName?_eq_of_cut rfl (hne (by decide)), if_neg hself, hbare, if_pos hidentifier]

end Rust

/-! ## Scripts -/

namespace Script

/-- The name of a parameter. -/
def IsParameter (name : List Char) : Prop := name ≠ [] ∧ ∀ c ∈ name, isNameChar c = true

instance (name : List Char) : Decidable (IsParameter name) := inferInstanceAs (Decidable (_ ∧ _))

/-- The piece looks like a parameter: it begins with a name, which goes on to the first colon,
blank, equals sign or question mark. What is taken apart, and dots alone, are no names. -/
def SeemsNamed (piece name : List Char) : Prop :=
  ∃ behind, trim piece = name ++ behind ∧ (∀ c ∈ name, endsName c = false) ∧
    (∀ c ∈ behind.head?, endsName c = true) ∧ name ≠ "...".toList ∧
    ∃ c ∈ name.head?, c ≠ '\x7b' ∧ c ≠ '['

theorem parameterName?_append {name behind : List Char} (hname : ∀ c ∈ name, endsName c = false)
    (hbehind : ∀ c ∈ behind.head?, endsName c = true) :
    parameterName? (name ++ behind) =
      if name ≠ "...".toList ∧ ∃ c ∈ name.head?, c ≠ '\x7b' ∧ c ≠ '[' then
        some (String.ofList name)
      else none := by
  have htake := takeWhile_word hname hbehind
  have htrim : trim name = name := by
    rcases name with - | ⟨c, more⟩
    · rfl
    apply Trimmed.trim_eq
    apply Trimmed.of_forall (by simp)
    intro d hd
    have hends := hname d hd
    simp only [endsName, Bool.or_eq_false_iff] at hends
    exact hends.2
  simp only [parameterName?, htake, htrim]
  cases name with
  | nil => rfl
  | cons c more =>
    simp only [Option.mem_def, List.head?_cons, Option.some.injEq, exists_eq_left', Bool.or_eq_true,
      beq_iff_eq]
    split_ifs <;> tauto

theorem parameterName?_trim_eq_some_iff {piece name : List Char} :
    parameterName? (trim piece) = some (String.ofList name) ↔ SeemsNamed piece name := by
  constructor
  · intro h
    have hword := List.all_eq_true.1
      (List.all_takeWhile (p := fun c => !endsName c) (l := trim piece))
    have hrest : ∀ c ∈ ((trim piece).dropWhile (!endsName ·)).head?, endsName c = true := by
      intro c hc
      have hnot := List.head?_dropWhile_not (!endsName ·) (trim piece)
      rw [Option.mem_def.1 hc] at hnot
      simpa using hnot
    have hcut := List.takeWhile_append_dropWhile (p := fun c => !endsName c) (l := trim piece)
    rw [← hcut, parameterName?_append (by simpa using hword) hrest] at h
    split_ifs at h with hnamed
    cases String.ofList_injective (Option.some.inj h)
    exact ⟨_, hcut.symm, by simpa using hword, hrest, hnamed.1, hnamed.2⟩
  · rintro ⟨behind, hpiece, hname, hbehind, hnamed⟩
    rw [hpiece, parameterName?_append hname hbehind, if_pos hnamed]

theorem parameterNames_eq (raw : List Char) :
    parameterNames raw = readPieces parameterName? raw := by
  rw [parameterNames, commaPieces, readPieces, List.filterMap_filter, List.filterMap_map]
  apply List.filterMap_congr
  intro piece _
  rw [Function.comp_apply]
  cases trim piece <;> rfl

theorem readPieces_render (p : TypedName IsParameter) :
    readPieces parameterName? p.render =
      String.ofList p.name :: (behindCommas p.type).filterMap fun piece =>
        parameterName? (trim piece) := by
  let n : Name := ⟨p.name, p.isName.1, p.isName.2⟩
  have hne : ∀ {d}, isNameChar d = false → d ∉ p.name := fun hd hmem => n.ne_of_mem hmem hd rfl
  have hends : ∀ c ∈ p.name, endsName c = false := by
    intro c hc
    have hsign : ∀ {d}, isNameChar d = false → c ≠ d := n.ne_of_mem hc
    simp [endsName, n.not_isBlank hc, hsign (d := ':') (by decide), hsign (d := '=') (by decide),
      hsign (d := '?') (by decide)]
  have htrimmed : Trimmed p.name := Trimmed.of_forall n.ne_nil fun _ => n.not_isBlank
  refine p.readPieces_render htrimmed (hne (by decide)) fun behind => ?_
  rw [parameterName?_append hends (by simp [endsName]), if_pos]
  refine ⟨fun hdots => hne (d := '.') (by decide) (by simp [hdots]), ?_⟩
  obtain ⟨c, hc, -⟩ := htrimmed.1
  have hmem := List.mem_of_mem_head? hc
  exact ⟨c, hc, n.ne_of_mem hmem (by decide), n.ne_of_mem hmem (by decide)⟩

end Script

/-! ## Go -/

namespace Go

/-- A name that does not look like a type: it begins with none of the signs of types and with no
capital letter. -/
def isLowerName (name : List Char) : Bool :=
  name.head?.any (fun c => !(isUpper c || c == '*' || c == '[' || c == '.')) &&
    name.all fun c => !isBlank c && c != ','

/-- Names that share a type, and the text of the type. -/
structure SharedType where
  names : List (List Char)
  last : List Char
  type : List Char
  isLowerName : ∀ n ∈ names ++ [last], isLowerName n = true
  type_head : ∃ c ∈ type.head?, isBlank c = false ∧ c ≠ ','

/-- The text of names that share a type. -/
def SharedType.render (g : SharedType) : List Char :=
  join [',', ' '] (g.names ++ [g.last ++ ' ' :: g.type])

theorem not_isBlank_of_isLowerName {n : List Char} (hn : isLowerName n = true) :
    n ≠ [] ∧ ',' ∉ n ∧ ∀ c ∈ n, isBlank c = false := by
  rw [isLowerName, Bool.and_eq_true, List.all_eq_true] at hn
  refine ⟨?_, ?_, ?_⟩
  · rintro rfl
    cases hn.1
  · intro hmem
    have hcomma := hn.2 _ hmem
    simp at hcomma
  · intro c hc
    have hplain := hn.2 c hc
    simp only [Bool.and_eq_true, Bool.not_eq_true'] at hplain
    exact hplain.1

/-- A name alone is taken for a type. -/
theorem readPieces_name {n : List Char} (hn : isLowerName n = true) :
    readPieces parameterName? n = [] := by
  obtain ⟨hne, hcomma, hblank⟩ := not_isBlank_of_isLowerName hn
  have hwords : words n = [n] := by
    rw [words, foldr_wordStep hblank, List.append_nil]
    simp [hne]
  rw [readPieces, splitOn_of_not_mem hcomma, List.filterMap_cons,
    (Trimmed.of_forall hne hblank).trim_eq, parameterName?, hwords]
  rfl

/-- A name with a type behind it is found. -/
theorem parameterName?_trim_typed {n : List Char} (hn : isLowerName n = true) {c : Char}
    (hc : isBlank c = false) (type : List Char) :
    parameterName? (trim (n ++ ' ' :: c :: type)) = some (String.ofList n) := by
  obtain ⟨hne, -, hblank⟩ := not_isBlank_of_isLowerName hn
  have htyped : Trimmed (n ++ ([' '] ++ [c])) :=
    (Trimmed.of_forall hne hblank).around (Trimmed.of_forall (by simp) (by simpa using hc)) _
  have htrim : trim (n ++ ' ' :: c :: type) = n ++ ' ' :: c :: trimRight type := by
    simpa using htyped.trim_append type
  obtain ⟨word, more, hmore⟩ : ∃ word more, words (c :: trimRight type) = word :: more := by
    rw [words, List.foldr_cons, wordStep, hc]
    exact ⟨_, _, rfl⟩
  rw [htrim, parameterName?, words_append_blank hne hblank, hmore]
  rw [isLowerName, Bool.and_eq_true] at hn
  cases n with
  | nil => exact absurd rfl hne
  | cons d n =>
    have hfirst := hn.1
    simp only [List.head?_cons, Option.any_some, Bool.not_eq_true', Bool.or_eq_false_iff,
      beq_eq_false_iff_ne] at hfirst
    obtain ⟨⟨⟨hupper, hstar⟩, hbracket⟩, hdot⟩ := hfirst
    simp [startsWith, hupper, hstar.symm, hbracket.symm, hdot, hdot.symm]

theorem readPieces_render (g : SharedType) :
    readPieces parameterName? g.render =
      String.ofList g.last :: (behindCommas g.type).filterMap fun piece =>
        parameterName? (trim piece) := by
  rw [SharedType.render, readPieces_join rfl, List.flatMap_append]
  have hnames : g.names.flatMap (readPieces parameterName?) = [] := by
    apply List.flatMap_eq_nil_iff.2
    intro n hn
    exact readPieces_name (g.isLowerName n (List.mem_append_left _ hn))
  have hlast := g.isLowerName g.last (by simp)
  obtain ⟨c, hc, hblank, hcomma⟩ := g.type_head
  obtain ⟨type, htype⟩ := List.head?_eq_some_iff.1 hc
  rw [hnames, List.nil_append, List.flatMap_singleton,
    show g.last ++ ' ' :: g.type = (g.last ++ [' ']) ++ g.type by simp]
  apply readPieces_of_front
  · simpa using (not_isBlank_of_isLowerName hlast).2.1
  · intro first later hfirst
    obtain ⟨rest, hrest⟩ := splitOn_eq_cons type
    have hfront : splitOn ',' ([c] ++ type) = ([c] ++ rest) :: behindCommas type :=
      splitOn_append_front (by simpa using hcomma.symm) hrest
    rw [List.singleton_append, ← htype, hfirst] at hfront
    obtain ⟨rfl, -⟩ := List.cons.inj hfront
    simpa using parameterName?_trim_typed hlast hblank rest

end Go

/-- **Names that are declared are found, but not only they, and not all.** In Rust and in scripts
every declared name is found, and they alone exactly if no piece of a type behind a comma looks like
a parameter. In Go the last of the names that share a type is found, so where no type has a comma
all names are found exactly if no two share a type. -/
theorem declared_names (rs : List (TypedName Rust.IsParameter))
    (ss : List (TypedName Script.IsParameter)) (gs : List Go.SharedType) :
    (Rust.parameterNames (join [',', ' '] (rs.map TypedName.render)) =
        namesAndMore Rust.parameterName? (·.name) (·.type) rs ∧
      (Rust.parameterNames (join [',', ' '] (rs.map TypedName.render)) =
          rs.map (fun p => String.ofList p.name) ↔
        ∀ p ∈ rs, ∀ piece ∈ behindCommas p.type, ∀ n, ¬ Rust.SeemsNamed piece n)) ∧
    (Script.parameterNames (join [',', ' '] (ss.map TypedName.render)) =
        namesAndMore Script.parameterName? (·.name) (·.type) ss ∧
      (Script.parameterNames (join [',', ' '] (ss.map TypedName.render)) =
          ss.map (fun p => String.ofList p.name) ↔
        ∀ p ∈ ss, ∀ piece ∈ behindCommas p.type, ∀ n, ¬ Script.SeemsNamed piece n)) ∧
    Go.parameterNames (join [',', ' '] (gs.map Go.SharedType.render)) =
      namesAndMore Go.parameterName? (·.last) (·.type) gs ∧
    ((∀ g ∈ gs, ',' ∉ g.type) →
      (Go.parameterNames (join [',', ' '] (gs.map Go.SharedType.render)) =
          gs.flatMap (fun g => (g.names ++ [g.last]).map String.ofList) ↔
        ∀ g ∈ gs, g.names = [])) := by
  have hrust : Rust.parameterNames (join [',', ' '] (rs.map TypedName.render)) =
      namesAndMore Rust.parameterName? (·.name) (·.type) rs := by
    rw [Rust.parameterNames, readPieces_join rfl,
      List.flatMap_map]
    exact List.flatMap_congr fun p _ => Rust.readPieces_render p
  have hscript : Script.parameterNames (join [',', ' '] (ss.map TypedName.render)) =
      namesAndMore Script.parameterName? (·.name) (·.type) ss := by
    rw [Script.parameterNames_eq, readPieces_join rfl, List.flatMap_map]
    exact List.flatMap_congr fun p _ => Script.readPieces_render p
  have hgo : Go.parameterNames (join [',', ' '] (gs.map Go.SharedType.render)) =
      namesAndMore Go.parameterName? (·.last) (·.type) gs := by
    rw [Go.parameterNames, readPieces_join rfl,
      List.flatMap_map]
    exact List.flatMap_congr fun g _ => Go.readPieces_render g
  refine ⟨⟨hrust, ?_⟩, ⟨hscript, ?_⟩, hgo, ?_⟩
  · rw [hrust]
    exact namesAndMore_eq_map_iff Rust.parameterName?_trim_eq_some_iff _ _ rs
  · rw [hscript]
    exact namesAndMore_eq_map_iff Script.parameterName?_trim_eq_some_iff _ _ ss
  · intro hplain
    -- Types without commas give no further names.
    have hlast : namesAndMore Go.parameterName? (·.last) (·.type) gs =
        gs.map fun g => String.ofList g.last := by
      rw [namesAndMore, flatMap_eq_map_iff (by simp)]
      intro g hg
      rw [behindCommas, splitOn_of_not_mem (hplain g hg)]
      rfl
    rw [hgo, hlast, eq_comm, flatMap_eq_map_iff (by simp)]
    simp

/-- Types with commas, and two names for one type. -/
theorem declared_names_behind_commas :
    ∃ (rs : List (TypedName Rust.IsParameter)) (ss : List (TypedName Script.IsParameter))
      (gs : List Go.SharedType),
      (join [',', ' '] (rs.map TypedName.render) = "r: Result<u8, io::Error>, n: u8".toList ∧
        Rust.parameterNames (join [',', ' '] (rs.map TypedName.render)) = ["r", "io", "n"]) ∧
      (join [',', ' '] (ss.map TypedName.render) = "$m: Map<string, number>".toList ∧
        Script.parameterNames (join [',', ' '] (ss.map TypedName.render)) = ["$m", "number>"]) ∧
      join [',', ' '] (gs.map Go.SharedType.render) = "a, b int, c T".toList ∧
      Go.parameterNames (join [',', ' '] (gs.map Go.SharedType.render)) = ["b", "c"] := by
  let rs : List (TypedName Rust.IsParameter) :=
    [⟨"r".toList, "Result<u8, io::Error>".toList, by decide⟩, ⟨"n".toList, "u8".toList, by decide⟩]
  let ss : List (TypedName Script.IsParameter) :=
    [⟨"$m".toList, "Map<string, number>".toList, by decide⟩]
  let gs : List Go.SharedType :=
    [⟨["a".toList], "b".toList, "int".toList, by decide, 'i', rfl, by decide⟩,
      ⟨[], "c".toList, "T".toList, by decide, 'T', rfl, by decide⟩]
  obtain ⟨⟨hrust, -⟩, ⟨hscript, -⟩, hgo, -⟩ := declared_names rs ss gs
  exact ⟨rs, ss, gs, ⟨rfl, hrust.trans (by decide +kernel)⟩,
    ⟨rfl, hscript.trans (by decide +kernel)⟩, rfl, hgo.trans (by decide +kernel)⟩

/-- The second argument of a type counts as a parameter, and the first of two names is lost. -/
theorem names_invented_and_lost :
    Rust.parameterNames "r: Result<u8, io::Error>, n: u8".toList = ["r", "io", "n"] ∧
      Script.parameterNames "m: Map<string, number>, n: number".toList = ["m", "number>", "n"] ∧
      Go.parameterNames "a, b int".toList = ["b"] := by
  decide +kernel

end SourceAtlas
