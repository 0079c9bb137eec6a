import SourceAtlas.Proofs.BraceScans
import SourceAtlas.Proofs.PatternRuns
import SourceAtlas.Proofs.VisitedPlaces
import SourceAtlas.Proofs.Words

/-!
# The lines of a function

A `FunctionText` is a function as it is usually laid out: a first line that ends with an opening
brace, a body with nested braces, and a line with the closing one, none of it in a literal or a
comment. The range of such a function is to be all of these lines.

`function_span` says for Go and for scripts what it is. If a line of a source begins such a text and
no earlier declaration covers it, a function of that name is found there, and it ends with the
closing line unless a brace of its signature closes what the signature has opened; then it ends on
its first line. A signature with nested braces does that as soon as it has any
(`Nested.closesBlock_iff`), as with `interface` types or parameters that are taken apart.

The scan for braces is `FunctionText.extent_place`, for any language that reads the text as code.
What remains is that the line is looked at at all, that the patterns for other declarations fail on
it, and that nothing else is found there.
-/

set_option autoImplicit false

namespace SourceAtlas

open Place Text

variable {sourceName : String}

/-! ## Functions as they are laid out -/

/-- A name of word characters. -/
structure IsName (name : List Char) : Prop where
  ne_nil : name ≠ []
  isWordChar : ∀ c ∈ name, Text.isWordChar c = true

theorem IsName.not_isBlank {name : List Char} (h : IsName name) (c : Char) (hc : c ∈ name) :
    isBlank c = false := not_isBlank_of_isWordChar (h.isWordChar c hc)

/-- The first line of a function up to the brace that opens its body. -/
def signatureText (keyword : String) (name parameters result : List Char) : Line :=
  keyword.toList ++ ' ' :: (name ++ '(' :: (parameters ++ ')' :: result))

/-- A function as it is usually laid out: its signature and an opening brace on the first line, the
lines of its body, and a line with the closing brace. Nothing in it opens a literal or a comment,
the signature opens and closes as many braces, and the braces of the body are nested. -/
structure FunctionText (keyword : String) where
  name : List Char
  parameters : List Char
  result : List Char
  body : List Line
  isName : IsName name := by exact ⟨by decide, by decide⟩
  signature_code : ∀ c ∈ signatureText keyword name parameters result, OpensNothing c := by
    decide +kernel
  signature_even : excess (signatureText keyword name parameters result) = 0 := by decide +kernel
  body_code : ∀ c ∈ body.flatten, OpensNothing c := by decide +kernel
  body_nested : Nested body.flatten := by decide +kernel

namespace FunctionText

variable {keyword : String} (f : FunctionText keyword)

/-- The first line up to its last brace. -/
def signature : Line := signatureText keyword f.name f.parameters f.result

/-- The first line. -/
def opening : Line := f.signature ++ ['\x7b']

/-- All lines of the function. -/
def lines : List Line := f.opening :: (f.body ++ [['\x7d']])

/-- A source with the function in it. -/
def source (before after : List Line) : List Line :=
  before ++ f.opening :: (f.body ++ ['\x7d'] :: after)

/-- The place of the first line in that source. -/
def place (before after : List Line) : Place :=
  ⟨before.length, before.reverse, f.opening, f.body ++ ['\x7d'] :: after⟩

/-- The function is found on a line of the source: functions that start there bear its name, and
they end with its closing brace unless its signature closes what it opens. -/
structure FoundAt (functions : List Callable) (line : Nat) : Prop where
  exists_mem : ∃ g ∈ functions, g.span.first = line
  name_eq : ∀ g ∈ functions, g.span.first = line → g.name = String.ofList f.name
  last_eq_iff : ∀ g ∈ functions, g.span.first = line →
    (g.span.last = line + f.body.length + 1 ↔ ¬ ClosesBlock f.signature)
  last_eq_line : ∀ g ∈ functions, g.span.first = line → ClosesBlock f.signature →
    g.span.last = line
  last_eq_iff_of_nested : Nested f.signature → ∀ g ∈ functions, g.span.first = line →
    (g.span.last = line + f.body.length + 1 ↔ '\x7b' ∉ f.signature)

variable {f} in
/-- It is found if one function starts on the line, which bears its name and reaches as far as the
block on that line. -/
theorem FoundAt.of_unique {functions : List Callable} {index extent : Nat}
    (parameters : List String) (doc : Option String)
    (hmem : ∀ g : Callable, g.span.first = index + 1 → (g ∈ functions ↔
      g = .plain (String.ofList f.name) ⟨index + 1, index + extent + 1⟩ parameters [] doc))
    (hwhole : ¬ ClosesBlock f.signature → extent = f.body.length + 1)
    (hcut : ClosesBlock f.signature → extent = 0) : f.FoundAt functions (index + 1) := by
  have hline : ((index + 1 : Nat) : Int) = index + 1 := by omega
  have hiff : (index + extent + 1 : Int) = index + 1 + f.body.length + 1 ↔
      ¬ ClosesBlock f.signature := by
    by_cases hcloses : ClosesBlock f.signature
    · apply iff_of_false _ (not_not_intro hcloses)
      rw [hcut hcloses]
      omega
    · apply iff_of_true _ hcloses
      rw [hwhole hcloses]
      omega
  constructor
  · exact ⟨_, (hmem _ rfl).2 rfl, hline.symm⟩
  · intro g hg hfirst
    rw [(hmem g (hfirst.trans hline)).1 hg]
    rfl
  · intro g hg hfirst
    rw [(hmem g (hfirst.trans hline)).1 hg, hline]
    exact hiff
  · intro g hg hfirst hcloses
    rw [(hmem g (hfirst.trans hline)).1 hg, hcut hcloses, hline]
    rfl
  · intro hnested g hg hfirst
    rw [(hmem g (hfirst.trans hline)).1 hg, hline, ← hnested.closesBlock_iff]
    exact hiff

theorem append_lines_append (before after : List Line) :
    before ++ f.lines ++ after = f.source before after := by
  simp [lines, source]

/-- Behind the name stands a parenthesis, and behind that some text up to the first one that
closes. -/
theorem exists_opening_eq : ∃ parameters rest, ')' ∉ parameters ∧
    f.opening = keyword.toList ++ ' ' :: (f.name ++ '(' :: (parameters ++ ')' :: rest)) := by
  have hmem : ')' ∈ f.parameters ++ ')' :: (f.result ++ ['\x7b']) := by simp
  obtain ⟨parameters, rest, heq, hnot⟩ := List.eq_append_cons_of_mem hmem
  refine ⟨parameters, rest, hnot, ?_⟩
  rw [← heq]
  simp [opening, signature, signatureText]

theorem stripped_place {c : Char} {cs : List Char} (hkeyword : keyword.toList = c :: cs)
    (hblank : isBlank c = false) (before after : List Line) :
    (f.place before after).stripped = f.opening := by
  have hfirst : f.opening.head? = some c := by
    simp [opening, signature, signatureText, hkeyword]
  have hlast : f.opening.getLast? = some '\x7b' := by simp [opening]
  exact trim_eq_self hfirst hblank hlast (by decide)

theorem opensSoon_place (before after : List Line) : (f.place before after).opensSoon = true := by
  have hbrace : '\x7b' ∈ f.opening := by simp [opening]
  simp [opensSoon, has, place, hbrace]

/-- A scan for the end of the function. -/
theorem extent_place {μ : Type} {l : Lexis μ} (hcarry : l.carry l.fresh = some l.fresh)
    (hclear : ∀ t, (∀ c ∈ t, OpensNothing c) → l.Clear t) (before after : List Line) :
    (¬ ClosesBlock f.signature → l.extent (f.place before after) = f.body.length + 1) ∧
      (ClosesBlock f.signature → l.extent (f.place before after) = 0) := by
  have hsignature : l.Clear f.signature := hclear _ f.signature_code
  have hbrace : l.Clear ['\x7d'] := by
    apply hclear
    intro c hc
    rw [List.mem_singleton.1 hc]
    decide
  have hopening : l.Clear f.opening := by
    apply hclear
    intro c hc
    rcases List.mem_append.1 hc with hc | hc
    · exact f.signature_code c hc
    · rw [List.mem_singleton.1 hc]
      decide
  have hbody : ∀ t ∈ f.body, l.Clear t := by
    intro t ht
    exact hclear t fun c hc => f.body_code c (List.mem_flatten.2 ⟨t, ht, hc⟩)
  constructor
  · intro hopen
    have hclosing := Lexis.closing?_of_body hcarry hopening
      hbody hbrace f.signature_even hopen f.body_nested after
    rw [Lexis.extent, onward, place]
    dsimp only
    rw [opening, hclosing]
    rfl
  · intro hcloses
    rw [Lexis.extent, onward, place]
    dsimp only
    rw [opening, Lexis.closing?_of_closesBlock hsignature hcloses]
    rfl

end FunctionText

/-! ## Go -/

section Patterns

open Pattern

variable {name parameters rest tail : List Char}

theorem IsName.head?_append (h : IsName name) {c : Char} (hc : c ∈ (name ++ tail).head?) :
    c ∈ name := by
  cases name with
  | nil => exact absurd rfl h.ne_nil
  | cons d name =>
    cases hc
    exact List.mem_cons_self

/-- A name is read as a word up to the parenthesis behind it. -/
theorem IsName.takes_word (h : IsName name) (index : Nat) :
    (Pattern.group index word).Takes name ('(' :: tail) [(index, name)] := by
  apply Takes.group
  apply Pattern.takes_word h.ne_nil h.isWordChar
  intro c hc
  cases hc
  decide

/-- Parameters are read up to the first parenthesis that closes. -/
theorem takes_parameters (h : ')' ∉ parameters) :
    (Pattern.group 2 (many (noneOf ")"))).Takes parameters (")".toList ++ rest)
      [(2, parameters)] := by
  apply Takes.group
  exact takes_upTo rfl h

namespace Go

/-- The keyword of a function in front of its name. -/
theorem takesOnly_keyword (h : IsName name) :
    (blanks ++ exactly "func" ++ gap).TakesOnly ([] ++ "func".toList ++ [' ']) (name ++ tail) := by
  have hblanks : blanks.TakesOnly [] ("func".toList ++ ([' '] ++ (name ++ tail))) := by
    apply takesOnly_blanks_nil
    intro c hc
    cases hc
    decide
  have hgap : gap.TakesOnly [' '] (name ++ tail) := by
    apply takesOnly_gap_single (by decide)
    intro c hc
    exact h.not_isBlank c (h.head?_append hc)
  exact (hblanks.seq (takesOnly_exactly "func" _)).seq hgap

/-- A function is no method: no parenthesis stands in front of its name. -/
theorem fails_methodPattern (h : IsName name) :
    methodPattern.Fails ("func".toList ++ ' ' :: (name ++ tail)) := by
  have hparen : (exactly "(").Fails (name ++ tail) := by
    apply fails_exactly rfl
    intro hc
    have hword := h.isWordChar _ (h.head?_append hc)
    revert hword
    decide
  -- The pattern begins with the keyword and a parenthesis, and fourteen parts follow.
  have hhead := (takesOnly_keyword h).fails_seq hparen
  rw [List.nil_append, List.append_assoc] at hhead
  iterate 14 apply Fails.seq
  exact hhead

theorem takes_functionPattern (h : IsName name) (hparameters : ')' ∉ parameters) :
    functionPattern.Takes
      ([] ++ "func".toList ++ [' '] ++ name ++ [] ++ [] ++ "(".toList ++ parameters ++ ")".toList)
      rest [(2, parameters), (1, name)] := by
  have hkeyword : (blanks ++ exactly "func" ++ gap).Takes ([] ++ "func".toList ++ [' '])
      (name ++ ("(".toList ++ (parameters ++ (")".toList ++ rest)))) [] :=
    (takesOnly_keyword h).takes
  have hname : (Pattern.group 1 word).Takes name
      ([] ++ ("(".toList ++ (parameters ++ (")".toList ++ rest)))) [(1, name)] := h.takes_word 1
  have hblanks : blanks.Takes []
      ([] ++ ("(".toList ++ (parameters ++ (")".toList ++ rest)))) [] := by
    apply (takesOnly_blanks_nil _).takes
    intro c hc
    cases hc
    decide
  have htypes : typeParameters.Takes []
      ("(".toList ++ (parameters ++ (")".toList ++ rest))) [] := by
    apply (takesOnly_maybe _).takes
    iterate 3 apply Fails.seq
    apply fails_exactly (c := '[') rfl
    intro hc
    exact absurd (Option.some.inj hc) (by decide)
  have hopen : (exactly "(").Takes "(".toList (parameters ++ (")".toList ++ rest)) [] :=
    (takesOnly_exactly "(" _).takes
  have hclose : (exactly ")").Takes ")".toList rest [] := (takesOnly_exactly ")" rest).takes
  have hbefore := ((hkeyword.seq hname).seq (v := []) hblanks).seq (v := []) htypes
  exact ((hbefore.seq hopen).seq (takes_parameters hparameters)).seq hclose

end Go

end Patterns

namespace Go

/-- The lines that the statements of a source cover. -/
def declared (lines : List Line) : Covered := ranges declarationAt lines

/-- The functions that a visit finds start on the lines that it covers. -/
theorem first_of_declarationAt (p : Place) {d : Declaration} (hd : d ∈ (declarationAt p).1)
    {g : Callable} (hg : g ∈ d.callables) :
    (p.index + 1 : Int) ≤ g.span.first ∧ g.span.first ≤ p.index + (declarationAt p).2 + 1 := by
  rcases declarationAt_cases p with hnone | ⟨f, hf, hvisit⟩ | ⟨c, reach, hc, hvisit⟩
  · rw [hnone] at hd
    cases hd
  · rw [hvisit, List.mem_singleton] at hd
    rw [hd] at hg
    rw [hvisit, List.mem_singleton.1 hg, (callable?_cases hf).2]
    dsimp only [spanOf]
    omega
  · rw [hvisit, List.mem_singleton] at hd
    rw [hd, Declaration.callables] at hg
    obtain ⟨-, -, hnone | ⟨-, hlisted⟩⟩ := type?_cases hc
    · rw [hnone] at hg
      cases hg
    · rw [hlisted] at hg
      obtain ⟨q, hq, hsignature⟩ := List.mem_filterMap.1 hg
      obtain ⟨m, -, rfl⟩ := Option.map_eq_some_iff.1 hsignature
      have hindex := index_of_mem_take (List.mem_filter.1 hq).1
      rw [hvisit]
      dsimp only [Callable.method]
      omega

variable (f : FunctionText "func") (before after : List Line)

theorem callable?_place : ∃ parameters doc,
    callable? (f.place before after) =
      some (.plain (String.ofList f.name)
        (spanOf (f.place before after) (extent (f.place before after))) parameters [] doc) := by
  obtain ⟨parameters, rest, hparameters, hopening⟩ := f.exists_opening_eq
  have hmethod : methodPattern.atHead? f.opening = none := by
    rw [hopening]
    exact (fails_methodPattern f.isName).atHead?
  have htakes : functionPattern.Takes _ rest _ := takes_functionPattern f.isName hparameters
  obtain ⟨m, hm, hgroups⟩ := htakes.atHead? (hopening.trans (by simp))
  have hname : m.group? 1 = some f.name := by
    rw [Cursor.group?, hgroups]
    rfl
  refine ⟨parameterNames (groupText m 2), documentation? (f.place before after), ?_⟩
  rw [callable?, f.stripped_place rfl (by decide), hmethod, hm]
  dsimp only [Option.map_some]
  rw [groupString, groupText, hname]
  rfl

theorem declarationAt_place : ∃ parameters doc,
    declarationAt (f.place before after) =
      ([.callable (.plain (String.ofList f.name)
          (spanOf (f.place before after) (extent (f.place before after))) parameters [] doc)],
        extent (f.place before after)) := by
  obtain ⟨parameters, doc, hcallable⟩ := callable?_place f before after
  refine ⟨parameters, doc, ?_⟩
  obtain ⟨_, _, -, hopening⟩ := f.exists_opening_eq
  have hidle : (f.opening.isEmpty || isComment f.opening || startsWith "/*".toList f.opening) =
      false := by
    rw [hopening]
    rfl
  have himport : startsWith "import".toList f.opening = false := by
    rw [hopening]
    rfl
  rw [declarationAt, f.stripped_place rfl (by decide), hidle, himport, hcallable]
  rfl

/-- A function that no earlier statement covers is found. -/
theorem foundAt_outline {text : List Char} (htext : splitNewlines text = before ++ f.lines ++ after)
    (h : ¬ (declared (splitNewlines text)).Reaches before.length) :
    f.FoundAt (outline sourceName text).functions (before.length + 1) := by
  obtain ⟨parameters, doc, hvisit⟩ := declarationAt_place f before after
  rw [f.append_lines_append] at htext
  have hextent := f.extent_place (l := lexis) rfl (fun t => clear_of_opensNothing) before after
  have hsoon : extent (f.place before after) = lexis.extent (f.place before after) := by
    rw [extent, f.opensSoon_place, if_pos rfl]
  rw [← hsoon] at hextent
  apply FunctionText.FoundAt.of_unique parameters doc _ hextent.1 hextent.2
  intro g hfirst
  rw [htext] at h
  have hmem := mem_collect_iff Declaration.callables
    (fun p d hd g hg => first_of_declarationAt p hd hg) h hfirst
  rw [outline, declarations, htext, FunctionText.source, hmem]
  change g ∈ (declarationAt (f.place before after)).1.flatMap Declaration.callables ↔ _
  rw [hvisit]
  exact List.mem_singleton

end Go

/-! ## Scripts -/

namespace Script

variable {lines : List Line} {covered : Covered}

/-- A character of a name: it is not blank, and in ASCII it is a letter, a digit, an underscore or
a dollar sign. -/
def isNameChar (c : Char) : Bool :=
  !isBlank c && (128 ≤ c.toNat || isAsciiLetter c || isAsciiDigit c || c == '_' || c == '$')

/-- A name that a script may declare. -/
structure Name where
  text : List Char
  ne_nil : text ≠ []
  isNameChar : ∀ c ∈ text, isNameChar c = true

namespace Name

variable {n : Name} {tail : List Char} {c : Char}

/-- All characters of the name are word characters. -/
def isWord (n : Name) : Bool := n.text.all isWordChar

theorem not_isBlank (h : c ∈ n.text) : isBlank c = false := by
  have hname := n.isNameChar c h
  rw [Script.isNameChar, Bool.and_eq_true, Bool.not_eq_true'] at hname
  exact hname.1

/-- No other sign of a declaration stands in a name. -/
theorem ne_of_mem {d : Char} (h : c ∈ n.text) (hd : Script.isNameChar d = false) : c ≠ d := by
  rintro rfl
  rw [n.isNameChar c h] at hd
  cases hd

theorem mem_of_head? (h : c ∈ (n.text ++ tail).head?) : c ∈ n.text := by
  rw [List.head?_append_of_ne_nil _ n.ne_nil] at h
  exact List.mem_of_mem_head? h

end Name

section Patterns

open Pattern

variable {name parameters rest tail text : List Char} {n : Name}

/-- A word that may be left out is left out in front of a word with another first letter. -/
theorem takesOnly_maybe_word {t : String} {c d : Char} {cs : List Char} (ht : t.toList = c :: cs)
    (hne : d ≠ c) (h : text.head? = some d) : (maybe (exactly t ++ gap)).TakesOnly [] text := by
  apply takesOnly_maybe
  apply Fails.seq
  apply fails_exactly ht
  rw [h]
  exact fun hc => hne (Option.some.inj hc)

/-- A function is no declaration of a type and no variable. -/
theorem fails_otherPatterns (h : text.head? = some 'f') :
    classPattern.Fails text ∧ interfacePattern.Fails text ∧ aliasPattern.Fails text ∧
      arrowPattern.Fails text := by
  have hexported : exported.TakesOnly [] text := takesOnly_maybe_word (c := 'e') rfl (by decide) h
  have habstract : (maybe (exactly "abstract" ++ gap)).TakesOnly [] text :=
    takesOnly_maybe_word (c := 'a') rfl (by decide) h
  have hword : ∀ {t : String} {c : Char} {cs : List Char}, t.toList = c :: cs → 'f' ≠ c →
      (exactly t).Fails text := by
    intro t c cs ht hne
    apply fails_exactly ht
    rw [h]
    exact fun hc => hne (Option.some.inj hc)
  -- Each pattern fails at its keyword, whatever follows that.
  refine ⟨?_, ?_, ?_, ?_⟩
  · iterate 4 apply Fails.seq
    exact (hexported.seq habstract).fails_seq (hword (t := "class") (c := 'c') rfl (by decide))
  · iterate 3 apply Fails.seq
    exact hexported.fails_seq (hword (t := "interface") (c := 'i') rfl (by decide))
  · iterate 6 apply Fails.seq
    exact hexported.fails_seq (hword (t := "type") (c := 't') rfl (by decide))
  · iterate 11 apply Fails.seq
    apply hexported.fails_seq
    apply (hword (t := "const") (c := 'c') rfl (by decide)).alt
    apply (hword (t := "let") (c := 'l') rfl (by decide)).alt
    exact hword (t := "var") (c := 'v') rfl (by decide)

theorem takes_functionPattern (h : IsName name) (hparameters : ')' ∉ parameters) :
    functionPattern.Takes ([] ++ [] ++ "function".toList ++ [' '] ++ name ++ [] ++
      ("(".toList ++ parameters ++ ")".toList)) rest [(2, parameters), (1, name)] := by
  have hexported : exported.TakesOnly [] ("function".toList ++ ([' '] ++ (name ++ ("(".toList ++
      parameters ++ ")".toList ++ rest)))) :=
    takesOnly_maybe_word (c := 'e') rfl (by decide) rfl
  have hasync : (maybe (exactly "async" ++ gap)).TakesOnly [] ("function".toList ++ ([' '] ++
      (name ++ ("(".toList ++ parameters ++ ")".toList ++ rest)))) :=
    takesOnly_maybe_word (c := 'a') rfl (by decide) rfl
  have hgap : gap.TakesOnly [' '] (name ++ ("(".toList ++ parameters ++ ")".toList ++ rest)) := by
    apply takesOnly_gap_single (by decide)
    intro c hc
    exact h.not_isBlank c (h.head?_append hc)
  have hname : (Pattern.group 1 word).Takes name
      ([] ++ ("(".toList ++ parameters ++ ")".toList ++ rest)) [(1, name)] := h.takes_word 1
  have hblanks : blanks.Takes [] ("(".toList ++ parameters ++ ")".toList ++ rest) [] := by
    apply (takesOnly_blanks_nil _).takes
    intro c hc
    cases hc
    decide
  have hopen : (exactly "(").Takes "(".toList (parameters ++ (")".toList ++ rest)) [] :=
    (takesOnly_exactly "(" _).takes
  have hlist : parameterList.Takes ("(".toList ++ parameters ++ ")".toList) rest
      [(2, parameters)] :=
    (hopen.seq (takes_parameters hparameters)).seq (takesOnly_exactly ")" rest).takes
  have hkeyword := ((hexported.seq (v := []) hasync).seq (takesOnly_exactly "function" _)).seq hgap
  exact ((hkeyword.takes.seq hname).seq (v := []) hblanks).seq hlist

/-- A name that is no word is not read as one: what follows a word has to match in its middle. -/
theorem fails_name {q : Pattern} (hn : n.isWord = false)
    (hq : ∀ c more, c ∈ n.text → q.Fails (c :: more)) :
    (Pattern.group 1 word ++ q).Fails (n.text ++ tail) := by
  apply fails_oneOrMore_seq
  intro u v htext _ hu
  have hword : n.text.all isWordChar ≠ true := by
    rw [Name.isWord] at hn
    simp [hn]
  have hu' : ∀ c ∈ u, isWordChar c = true := fun c hc => (mem_wordItem c).symm.trans (hu c hc)
  rcases List.append_eq_append_iff.1 htext with ⟨more, rfl, -⟩ | ⟨more, hname, rfl⟩
  · refine absurd (List.all_eq_true.2 fun c hc => ?_) hword
    exact hu' c (List.mem_append_left _ hc)
  · cases more with
    | nil =>
      rw [List.append_nil] at hname
      exact absurd (List.all_eq_true.2 (hname ▸ hu')) hword
    | cons c more =>
      apply hq
      rw [hname]
      exact List.mem_append_right _ List.mem_cons_self

theorem takesOnly_blanks_of_mem {c : Char} {more : List Char} (hc : c ∈ n.text) :
    blanks.TakesOnly [] (c :: more) := by
  apply takesOnly_blanks_nil
  rintro d ⟨⟩
  exact n.not_isBlank hc

theorem takesOnly_gap_name : gap.TakesOnly [' '] (n.text ++ tail) := by
  apply takesOnly_gap_single (by decide)
  intro c hc
  exact n.not_isBlank (Name.mem_of_head? hc)

/-- A function whose name is no word is not seen: no parenthesis follows a word in front of it. -/
theorem fails_functionPattern_name (hn : n.isWord = false) :
    functionPattern.Fails ("function ".toList ++ (n.text ++ tail)) := by
  have hexported : exported.TakesOnly [] ("function".toList ++ ([' '] ++ (n.text ++ tail))) :=
    takesOnly_maybe_word (c := 'e') rfl (by decide) rfl
  have hasync : (maybe (exactly "async" ++ gap)).TakesOnly [] ("function".toList ++ ([' '] ++
      (n.text ++ tail))) := takesOnly_maybe_word (c := 'a') rfl (by decide) rfl
  have hkeyword := ((hexported.seq (v := []) hasync).seq (takesOnly_exactly "function" _)).seq
    takesOnly_gap_name
  have hopen : ∀ c more, c ∈ n.text → (blanks ++ parameterList).Fails (c :: more) := by
    intro c more hc
    apply (takesOnly_blanks_of_mem hc).fails_seq
    apply Fails.seq
    apply Fails.seq
    apply fails_exactly (c := '(') rfl
    rintro ⟨⟩
    exact n.ne_of_mem hc (by decide) rfl
  apply Fails.assoc
  apply Fails.assoc
  exact hkeyword.fails_seq (fails_name hn hopen)

end Patterns

/-- The lines of the types of a source. -/
def typeRanges (lines : List Line) : Covered := (types lines).map fun t => (t.first, t.last)

/-- The lines that the declarations of a source cover. -/
def declared (lines : List Line) : Covered :=
  typeRanges lines ++ ranges (functionVisit (typeRanges lines)) lines

theorem type?_of_mem_types {t : TypeRange} (h : t ∈ types lines) :
    ∃ p ∈ all lines, type? p = some t := by
  revert t
  apply forall_mem_collect_of_mem
  intro p hp t ht
  unfold typeVisit at ht
  split at ht
  · rename_i u hu
    rw [List.mem_singleton.1 ht]
    exact ⟨p, hp, hu⟩
  · cases ht

variable {g : Callable}

theorem first_of_function? {p : Place} {extent : Nat} (h : function? p = some (g, extent)) :
    g.span.first = p.index + 1 := by
  unfold function? at h
  dsimp only at h
  split at h
  · cases h
    rfl
  · obtain ⟨m, -, hm⟩ := Option.map_eq_some_iff.1 h
    cases hm
    rfl

theorem functionVisit_of_function? {p : Place} {extent : Nat}
    (hcovered : covered.mem p.index = false) (h : function? p = some (g, extent)) :
    functionVisit covered p = ([g], extent) := by
  rw [functionVisit, hcovered, h]
  rfl

theorem first_of_functionVisit {p : Place} (h : g ∈ (functionVisit covered p).1) :
    g.span.first = p.index + 1 := by
  unfold functionVisit at h
  split at h
  · cases h
  split at h
  · rename_i hfunction
    rw [List.mem_singleton.1 h]
    exact first_of_function? hfunction
  · cases h

theorem first_of_method? {parent : String} {p : Place} (h : method? parent p = some g) :
    g.span.first = p.index + 1 := by
  unfold method? at h
  split at h
  · cases h
  dsimp only at h
  split at h
  · cases h
  · cases h
    rfl

theorem type?_of_head {p : Place} (h : p.stripped.head? = some 'f') : type? p = none := by
  obtain ⟨hclass, hinterface, halias, -⟩ := fails_otherPatterns h
  rw [type?, hclass.atHead?]
  dsimp only
  rw [hinterface.atHead?]
  dsimp only
  rw [halias.atHead?, Option.map_none]

section Outlines

variable {before after : List Line} {line : Line}
variable {text : List Char}

/-- The line is in no type: one that reaches it from above is ruled out, and none starts on it. -/
theorem mem_typeRanges_place (hnone : type? ⟨before.length, before.reverse, line, after⟩ = none)
    (h : ¬ (typeRanges (before ++ line :: after)).Reaches before.length) :
    (typeRanges (before ++ line :: after)).mem before.length = false := by
  rw [Covered.mem, List.any_eq_false]
  intro r hr hmem
  rw [Bool.and_eq_true, decide_eq_true_eq, decide_eq_true_eq] at hmem
  rcases Nat.lt_or_eq_of_le hmem.1 with hearlier | hhere
  · exact h ⟨r, hr, hearlier, hmem.2⟩
  · obtain ⟨t, ht, rfl⟩ := List.mem_map.1 hr
    obtain ⟨p, hp, htype⟩ := type?_of_mem_types ht
    obtain ⟨-, -, hfirst, -⟩ := type?_range htype
    have hplace := eq_of_mem_all hp (hfirst.symm.trans hhere)
    rw [hplace] at htype
    cases htype.symm.trans hnone

/-- No method of a type starts on a line that no type reaches from above. -/
theorem not_mem_methods {index : Nat} (h : ¬ (typeRanges lines).Reaches index)
    (hfirst : g.span.first = index + 1) :
    g ∉ (types lines).flatMap (methodsOf (all lines)) := by
  intro hg
  obtain ⟨t, ht, hmethod⟩ := List.mem_flatMap.1 hg
  obtain ⟨p, hp, hmethod⟩ := List.mem_filterMap.1 hmethod
  have hindex := first_of_method? hmethod
  have hinside := (List.mem_filter.1 hp).2
  rw [Bool.and_eq_true, decide_eq_true_eq, decide_eq_true_eq] at hinside
  refine h ⟨(t.first, t.last), List.mem_map.2 ⟨t, ht, rfl⟩, ?_, ?_⟩ <;> dsimp only <;> omega

/-- On a line that begins no type and that nothing covers, what is read there is found. -/
theorem mem_functions_iff (htext : splitNewlines text = before ++ line :: after)
    (hnone : type? ⟨before.length, before.reverse, line, after⟩ = none)
    (h : ¬ (declared (splitNewlines text)).Reaches before.length)
    (hfirst : g.span.first = before.length + 1) :
    g ∈ (outline sourceName text).functions ↔
      ∃ extent, function? ⟨before.length, before.reverse, line, after⟩ = some (g, extent) := by
  rw [htext, declared, Covered.reaches_append, not_or] at h
  obtain ⟨htypes, hfunctions⟩ := h
  -- The line is in no type, so the sweep for functions looks at it, and no method is on it.
  have hmem := mem_collect_iff (fun g => [g])
    (fun p x hx g hg => by
      rw [List.mem_singleton.1 hg, first_of_functionVisit hx]
      omega)
    hfunctions hfirst
  rw [List.flatMap_singleton', List.flatMap_singleton'] at hmem
  rw [outline, htext]
  dsimp only
  rw [List.mem_append, or_iff_right (not_mem_methods htypes hfirst), functions]
  refine hmem.trans ?_
  rw [functionVisit, mem_typeRanges_place hnone htypes]
  cases function? ⟨before.length, before.reverse, line, after⟩ with
  | none => simp
  | some found => simp [Prod.ext_iff, eq_comm]

theorem function?_place (f : FunctionText "function") (before after : List Line) : ∃ parameters,
    function? (f.place before after) =
      some (.plain (String.ofList f.name)
        ⟨before.length + 1, before.length + extent (f.place before after) + 1⟩ parameters [] none,
        extent (f.place before after)) := by
  obtain ⟨parameters, rest, hparameters, hopening⟩ := f.exists_opening_eq
  have htakes : functionPattern.Takes _ rest _ := takes_functionPattern f.isName hparameters
  obtain ⟨m, hm, hgroups⟩ := htakes.atHead? (hopening.trans (by simp))
  have hname : m.group? 1 = some f.name := by
    rw [Cursor.group?, hgroups]
    rfl
  refine ⟨parameterNames (groupText m 2), ?_⟩
  rw [function?, f.stripped_place rfl (by decide), hm]
  dsimp only
  rw [f.opensSoon_place, if_pos rfl, groupText, hname]
  rfl

/-- A function that no earlier type or function covers is found. -/
theorem foundAt_outline (f : FunctionText "function")
    (htext : splitNewlines text = before ++ f.lines ++ after)
    (h : ¬ (declared (splitNewlines text)).Reaches before.length) :
    f.FoundAt (outline sourceName text).functions (before.length + 1) := by
  rw [f.append_lines_append] at htext
  obtain ⟨parameters, hfunction⟩ := function?_place f before after
  have hextent := f.extent_place (l := .plain) rfl (fun t _ => Lexis.clear_plain t) before after
  have hnone : type? (f.place before after) = none := by
    obtain ⟨_, _, -, hopening⟩ := f.exists_opening_eq
    apply type?_of_head
    rw [f.stripped_place rfl (by decide), hopening]
    rfl
  apply FunctionText.FoundAt.of_unique parameters none _ hextent.1 hextent.2
  intro g hfirst
  refine (mem_functions_iff htext hnone h hfirst).trans ?_
  change (∃ reach, function? (f.place before after) = some (g, reach)) ↔ _
  rw [hfunction]
  simp [Prod.ext_iff, eq_comm, extent]

/-- No function is found on a line that gives it a name which is no word. -/
theorem first_ne_of_name {n : Name} (hn : n.isWord = false) {rest : Line}
    (htext : splitNewlines text =
      before ++ ("function ".toList ++ (n.text ++ '(' :: rest)) :: after)
    (h : ¬ (declared (splitNewlines text)).Reaches before.length) :
    ∀ g ∈ (outline sourceName text).functions, g.span.first ≠ before.length + 1 := by
  let p : Place := ⟨before.length, before.reverse, "function ".toList ++ (n.text ++ '(' :: rest),
    after⟩
  have hstripped : p.stripped = "function ".toList ++ (n.text ++ '(' :: trimRight rest) := by
    have htrimmed : Trimmed ("function ".toList ++ (n.text ++ ['('])) :=
      ⟨⟨'f', rfl, by decide⟩, '(', by rw [← List.append_assoc, List.getLast?_concat]; rfl,
        by decide⟩
    have htrim := htrimmed.trim_append rest
    rwa [List.append_assoc, List.append_assoc, List.append_assoc, List.append_assoc] at htrim
  have hhead : p.stripped.head? = some 'f' := by
    rw [hstripped]
    rfl
  have hfunction : function? p = none := by
    rw [function?, hstripped, (fails_functionPattern_name hn).atHead?]
    dsimp only
    rw [← hstripped, (fails_otherPatterns hhead).2.2.2.atHead?, Option.map_none]
  intro g hg hfirst
  obtain ⟨extent, hfound⟩ := (mem_functions_iff htext (type?_of_head hhead) h hfirst).1 hg
  cases hfunction.symm.trans hfound

end Outlines

end Script

/-! ## Ranges of functions -/

/-- **A function reaches to the end of its body, unless its signature closes a brace.** If a line of
a source begins a function and no earlier declaration covers it, the function is found there with
its name; the closing line of its body is its last line exactly if no brace of the signature closes
what the signature has opened, and otherwise it has one line. In a script this is so for names that
are words; under any other name no function is found on the line. -/
theorem function_span (sourceName : String) (text : List Char) (before after : List Line) :
    (∀ f : FunctionText "func", splitNewlines text = before ++ f.lines ++ after →
      ¬ (Go.declared (splitNewlines text)).Reaches before.length →
        f.FoundAt (Go.outline sourceName text).functions (before.length + 1)) ∧
    (∀ f : FunctionText "function", splitNewlines text = before ++ f.lines ++ after →
      ¬ (Script.declared (splitNewlines text)).Reaches before.length →
        f.FoundAt (Script.outline sourceName text).functions (before.length + 1)) ∧
    ∀ (n : Script.Name) (rest : Line), n.isWord = false →
      splitNewlines text =
        before ++ ("function ".toList ++ (n.text ++ '(' :: rest)) :: after →
      ¬ (Script.declared (splitNewlines text)).Reaches before.length →
        ∀ g ∈ (Script.outline sourceName text).functions, g.span.first ≠ before.length + 1 :=
  ⟨fun f htext h => Go.foundAt_outline f before after htext h,
    fun f htext h => Script.foundAt_outline f htext h,
    fun _ _ hn htext h => Script.first_ne_of_name hn htext h⟩

/-- A function with a block inside of its body. -/
def Go.nestedFunction : FunctionText "func" where
  name := "f".toList
  parameters := "x bool".toList
  result := " error ".toList
  body := ["\tif x \x7b".toList, "\t\x7d".toList]

/-- A function with a block inside of its body. -/
def Script.nestedFunction : FunctionText "function" where
  name := "f".toList
  parameters := "x".toList
  result := " ".toList
  body := ["  if (x) \x7b".toList, "  \x7d".toList]

/-- A name with a dollar sign. -/
def Script.dollarName : Script.Name := ⟨"$f".toList, by decide, by decide⟩

theorem nestedFunction_span :
    Go.nestedFunction.FoundAt
        (Go.outline "a.go" (join ['\n']
          (["type T struct \x7b".toList, "\x7d".toList] ++ Go.nestedFunction.lines))).functions 3 ∧
      Script.nestedFunction.FoundAt
        (Script.outline "a.ts" (join ['\n']
          (["class T \x7b".toList, "\x7d".toList] ++ Script.nestedFunction.lines))).functions 3 ∧
      Script.dollarName.isWord = false ∧
      ∀ g ∈ (Script.outline "a.ts" "function $f() \x7b\x7d".toList).functions,
        g.span.first ≠ 1 :=
  ⟨(function_span "a.go" _ ["type T struct \x7b".toList, "\x7d".toList] []).1 Go.nestedFunction
      (by decide +kernel) (by decide +kernel),
    (function_span "a.ts" _ ["class T \x7b".toList, "\x7d".toList] []).2.1 Script.nestedFunction
      (by decide +kernel) (by decide +kernel),
    by decide,
    (function_span "a.ts" _ [] []).2.2 Script.dollarName ") \x7b\x7d".toList (by decide)
      (by decide +kernel) (by decide +kernel)⟩

/-- A function with a brace in the type of its parameter. -/
def Go.openParameter : FunctionText "func" where
  name := "f".toList
  parameters := "x interface\x7b\x7d".toList
  result := " ".toList
  body := ["\treturn".toList]

/-- A function that takes its parameter apart. -/
def Script.takenApart : FunctionText "function" where
  name := "f".toList
  parameters := "\x7b a \x7d".toList
  result := " ".toList
  body := ["  return a".toList]

/-- Functions of three lines whose braces are all nested, and of which one line is reported. -/
theorem signature_brace_ends_function :
    (Nested Go.openParameter.signature ∧
      splitNewlines (join ['\n'] Go.openParameter.lines) = Go.openParameter.lines ∧
      (Go.outline "a.go" (join ['\n'] Go.openParameter.lines)).functions.map (·.span) =
        [⟨1, 1⟩]) ∧
    Nested Script.takenApart.signature ∧
      splitNewlines (join ['\n'] Script.takenApart.lines) = Script.takenApart.lines ∧
      (Script.outline "a.ts" (join ['\n'] Script.takenApart.lines)).functions.map (·.span) =
        [⟨1, 1⟩] := by
  decide +kernel

end SourceAtlas
