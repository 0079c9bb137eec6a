import SourceAtlas.Proofs.Excerpts
import SourceAtlas.Proofs.StatementLines

/-!
# Two ways to number lines

The lexer ends a line at a newline, at a carriage return, or at the two together, and a definition
has its lines by this count (`sourceLines`). An outline keeps lines that are cut at every break that
Unicode knows. A form feed or a line separator may stand in blanks, comments and strings; it ends a
line of the outline and none of the lexer.

`Python.numbering_of_definition` says for every definition of a source that can be read where it
stands, when both counts agree up to its last line, and where a line is found if they do not. The
lines of an outline are the lines of the source cut again (`flatMap_sourceLines`), so a line is
moved down by the breaks within those before it (`getElem?_splitBreaks`). That a definition stands
where it is said to is read off its keyword: the lexer counts the newlines that it passes, hence
the keyword is on the line that its token notes (`exists_line_of_keyword`).
-/

set_option autoImplicit false

namespace SourceAtlas

variable {line : List Char}

namespace Text

/-! ## Breaks of lines and newlines -/

/-- Reading a carriage return as a newline moves no break of lines. -/
theorem splitWhere_unifyNewlines (cs : List Char) :
    splitWhere isBreak (unifyNewlines cs) = splitWhere isBreak (mergeReturns cs) := by
  have hbreak : (isBreak ∘ fun c => if c == '\r' then '\n' else c) = isBreak := by
    funext c
    rw [Function.comp_apply]
    split
    · rename_i hreturn
      rw [beq_iff_eq.1 hreturn]
      rfl
    · rfl
  rw [unifyNewlines, splitWhere_map, hbreak]
  have hkept : ∀ piece ∈ splitWhere isBreak (mergeReturns cs),
      (piece.map fun c => if c == '\r' then '\n' else c) = id piece := by
    intro piece hpiece
    refine (List.map_congr_left (g := id) ?_).trans (List.map_id piece)
    intro c hc
    -- A carriage return is a break, and no piece holds one.
    have hplain := not_sep_of_mem_splitWhere hpiece c hc
    rw [if_neg]
    · rfl
    · intro hreturn
      rw [beq_iff_eq.1 hreturn] at hplain
      revert hplain
      decide
  exact (List.map_congr_left hkept).trans (List.map_id _)

/-- No line holds a break. -/
theorem not_break_of_mem_splitBreaks {cs : List Char} (h : line ∈ splitBreaks cs) :
    ∀ c ∈ line, isBreak c = false := by
  unfold splitBreaks at h
  dsimp only at h
  split at h
  · exact not_sep_of_mem_splitWhere (List.dropLast_subset _ h)
  · exact not_sep_of_mem_splitWhere h

/-- Pieces that are cut again give one piece more for each separator in them. -/
theorem length_flatMap_splitWhere (p : Char → Bool) (lines : List (List Char)) :
    (lines.flatMap (splitWhere p)).length = lines.length + lines.flatten.countP p := by
  induction lines with
  | nil => rfl
  | cons line lines ih =>
    rw [List.flatMap_cons, List.length_append, length_splitWhere, ih, List.flatten_cons,
      List.countP_append, List.length_cons]
    omega

/-- A piece without separators is left as it is, behind what becomes of the pieces before it. -/
theorem flatMap_splitWhere_around {p : Char → Bool} {lines : List (List Char)} {i : Nat}
    (hline : lines[i]? = some line) (hplain : ∀ c ∈ line, p c = false) :
    ∃ before after, lines.flatMap (splitWhere p) = before ++ line :: after ∧
      before.length = i + (lines.take i).flatten.countP p ∧
        (after = [] → lines.getLast? = some line) := by
  obtain ⟨hi, rfl⟩ := List.getElem?_eq_some_iff.1 hline
  refine ⟨(lines.take i).flatMap (splitWhere p), (lines.drop (i + 1)).flatMap (splitWhere p),
    ?_, ?_, ?_⟩
  · conv_lhs => rw [← List.take_append_drop i lines, List.drop_eq_getElem_cons hi]
    rw [List.flatMap_append, List.flatMap_cons, splitWhere_of_forall_not hplain]
    rfl
  · rw [length_flatMap_splitWhere, List.length_take_of_le (Nat.le_of_lt hi)]
  · intro hnone
    have hlength := congrArg List.length hnone
    rw [length_flatMap_splitWhere, List.length_drop, List.length_nil] at hlength
    have hlast : lines.length - 1 = i := by omega
    rw [List.getLast?_eq_getElem?, hlast, hline]

/-- A word without newlines stands in one line, and as many lines come before that one as newlines
before the word. -/
theorem exists_line_of_word {word : List Char} (hword : '\n' ∉ word) (before after : List Char) :
    ∃ line, (splitNewlines (before ++ (word ++ after)))[before.count '\n']? = some line ∧
      word <:+: line := by
  induction before with
  | nil =>
    cases hafter : splitNewlines after with
    | nil => exact absurd hafter (splitWhere_ne_nil _ after)
    | cons w ws =>
      have hplain : ∀ c ∈ word, (c == '\n') = false := fun c hc =>
        beq_false_of_ne fun hn => hword (hn ▸ hc)
      refine ⟨word ++ w, ?_, (List.prefix_append word w).isInfix⟩
      rw [List.nil_append, splitNewlines, splitOn, splitWhere_append_of_forall_not hplain hafter]
      rfl
  | cons c before ih =>
    obtain ⟨line, hline, hin⟩ := ih
    rw [List.cons_append, splitNewlines, splitOn, splitWhere_cons]
    rw [splitNewlines, splitOn] at hline
    cases hw : splitWhere (· == '\n') (before ++ (word ++ after)) with
    | nil => exact absurd hw (splitWhere_ne_nil _ _)
    | cons w ws =>
      rw [hw] at hline
      -- A newline starts a new first line; any other character joins the one there.
      by_cases hc : c = '\n'
      · rw [hc, splitStep_of_sep (by decide) (List.cons_ne_nil w ws), List.count_cons_self]
        exact ⟨line, hline, hin⟩
      · have hjoined : splitStep (· == '\n') c (w :: ws) = (c :: w) :: ws := by
          simp [splitStep, hc]
        rw [hjoined, List.count_cons_of_ne hc]
        cases hcount : before.count '\n' with
        | zero =>
          rw [hcount] at hline
          cases hline
          exact ⟨c :: line, rfl, List.infix_cons hin⟩
        | succ k =>
          rw [hcount] at hline
          exact ⟨line, hline, hin⟩

end Text

namespace Grammar

open Text

/-! ## The lines of a source -/

/-- The lines of a source as the lexer counts them: what stands before each newline of the text that
it reads. -/
def sourceLines (source : List Char) : List (List Char) :=
  (splitNewlines (endLine (unifyNewlines source))).dropLast

/-- The number of breaks within the first lines of a source. They end no line for the lexer. -/
def innerBreaks (source : List Char) (n : Nat) : Nat :=
  ((sourceLines source).take n).flatten.countP isBreak

theorem length_sourceLines (source : List Char) :
    (sourceLines source).length = (endLine (unifyNewlines source)).count '\n' := by
  rw [sourceLines, List.length_dropLast, splitNewlines, splitOn, length_splitWhere,
    Nat.add_sub_cancel]
  rfl

theorem splitNewlines_concat (front : List Char) :
    splitNewlines (front ++ ['\n']) = splitNewlines front ++ [[]] :=
  splitOn_append_sep '\n' front []

theorem sourceLines_of_endLine {source front : List Char}
    (h : endLine (unifyNewlines source) = front ++ ['\n']) :
    sourceLines source = splitNewlines front := by
  rw [sourceLines, h, splitNewlines_concat, List.dropLast_concat]

/-- The text that the lexer reads are the lines, with nothing behind the last one. -/
theorem splitNewlines_lexed (source : List Char) :
    ∃ rest, splitNewlines (lexed source) = sourceLines source ++ rest ∧
      ∀ line ∈ rest, line = [] := by
  have hfront := List.dropLast_append_getLast? _ (getLast?_endLine (unifyNewlines source))
  have hlines : splitNewlines (endLine (unifyNewlines source)) = sourceLines source ++ [[]] := by
    rw [sourceLines_of_endLine hfront.symm, ← splitNewlines_concat, hfront]
  unfold lexed
  split
  · rw [splitNewlines_concat, hlines, List.append_assoc]
    exact ⟨[[], []], rfl, by simp⟩
  · rw [List.append_nil]
    exact ⟨[[]], hlines, by simp⟩

/-- Cutting lines again at every break cuts the text at every break. -/
theorem flatMap_splitNewlines (cs : List Char) :
    (splitNewlines cs).flatMap (splitWhere isBreak) = splitWhere isBreak cs := by
  refine (splitWhere_flatMap ?_ cs).symm
  intro c hc
  rw [beq_iff_eq.1 hc]
  decide

variable {source : List Char}

/-- **The lines of an outline are the lines of the source, each cut again at the breaks within it.**
Only an empty piece at the very end is left out, and then a break stands there. -/
theorem flatMap_sourceLines (hne : source ≠ []) :
    ∃ rest, (sourceLines source).flatMap (splitWhere isBreak) = splitBreaks source ++ rest ∧
      (rest = [] ∨ rest = [[]] ∧ (sourceLines source).getLast? ≠ some []) := by
  have hpieces := splitWhere_unifyNewlines source
  by_cases hlast : (unifyNewlines source).getLast? = some '\n'
  · have hend : endLine (unifyNewlines source) = unifyNewlines source := if_pos hlast
    have hfront := List.dropLast_append_getLast? _ hlast
    have hcut : splitWhere isBreak (mergeReturns source) =
        splitWhere isBreak (unifyNewlines source).dropLast ++ [[]] := by
      rw [← hpieces]
      conv_lhs => rw [← hfront]
      exact splitWhere_append_sep (by decide) _ []
    refine ⟨[], ?_, .inl rfl⟩
    rw [sourceLines_of_endLine (hend.trans hfront.symm), flatMap_splitNewlines, splitBreaks, hcut,
      List.getLast?_concat, List.append_nil]
    exact List.dropLast_concat.symm
  · have hend : endLine (unifyNewlines source) = unifyNewlines source ++ ['\n'] := if_neg hlast
    rw [sourceLines_of_endLine hend, flatMap_splitNewlines, hpieces, splitBreaks]
    split
    · rename_i hempty
      refine ⟨[[]], (List.dropLast_append_getLast? _ hempty).symm, .inr ⟨rfl, ?_⟩⟩
      -- The last line has a last character, which is no newline.
      have hsome : unifyNewlines source ≠ [] := fun hnil =>
        hne (eq_nil_of_mergeReturns (List.map_eq_nil_iff.1 hnil))
      obtain ⟨front, c, hfront⟩ := (List.eq_nil_or_concat _).resolve_left hsome
      rw [List.concat_eq_append] at hfront
      rw [hfront] at hlast ⊢
      have hc : (c == '\n') = false := by
        rw [List.getLast?_concat] at hlast
        exact beq_false_of_ne fun hn => hlast (by rw [hn])
      obtain ⟨ws, w, hws⟩ := splitWhere_concat_of_not (p := (· == '\n')) hc front
      rw [splitNewlines, splitOn, hws, List.getLast?_concat]
      simp
    · exact ⟨[], (List.append_nil _).symm, .inl rfl⟩

/-- **Where a line of the source is found.** A line without breaks in it is a line of the outline,
moved down by the number of breaks within the lines before it. -/
theorem getElem?_splitBreaks (hne : source ≠ []) {i : Nat}
    (hline : (sourceLines source)[i]? = some line) (hplain : ∀ c ∈ line, isBreak c = false) :
    (splitBreaks source)[i + innerBreaks source i]? = some line := by
  obtain ⟨rest, hrest, hend⟩ := flatMap_sourceLines hne
  obtain ⟨before, after, hcut, hbefore, hlast⟩ := flatMap_splitWhere_around hline hplain
  have hfound : ∀ front, (before ++ line :: front)[i + innerBreaks source i]? = some line := by
    intro front
    rw [innerBreaks, ← hbefore, List.getElem?_append_right (Nat.le_refl _), Nat.sub_self]
    rfl
  rw [hrest] at hcut
  rcases hend with rfl | ⟨rfl, hfull⟩
  · rw [← List.append_nil (splitBreaks source), hcut, hfound]
  · -- The piece that is left out is not the line itself, for the last line is not empty.
    rcases List.eq_nil_or_concat after with rfl | ⟨front, last, rfl⟩
    · obtain ⟨-, hempty⟩ := List.append_inj' hcut rfl
      cases hempty
      exact absurd (hlast rfl) hfull
    · rw [List.concat_eq_append, ← List.cons_append, ← List.append_assoc] at hcut
      obtain ⟨hsame, -⟩ := List.append_inj' hcut rfl
      rw [hsame, hfound]

/-- **The two ways to number lines agree on the first lines if and only if no break stands within
them.** -/
theorem numbers_agree_iff (hne : source ≠ []) {n : Nat} (hn : n ≤ (sourceLines source).length) :
    (∀ k < n, (splitBreaks source)[k]? = (sourceLines source)[k]?) ↔ innerBreaks source n = 0 := by
  rw [innerBreaks, List.countP_eq_zero]
  constructor
  · intro hagree c hc
    obtain ⟨line, hline, hc⟩ := List.mem_flatten.1 hc
    obtain ⟨k, hk, rfl⟩ := List.mem_take_iff_getElem.1 hline
    -- The line is one of the outline as well, and these have no break in them.
    have hfound := (hagree k (by omega)).trans (List.getElem?_eq_getElem (by omega))
    rw [not_break_of_mem_splitBreaks (List.mem_of_getElem? hfound) c hc]
    decide
  · intro hplain k hk
    have hline := List.getElem?_eq_getElem (l := sourceLines source) (i := k) (by omega)
    have hbefore : innerBreaks source k = 0 := by
      rw [innerBreaks, List.countP_eq_zero]
      intro c hc
      obtain ⟨line, hline, hc⟩ := List.mem_flatten.1 hc
      have hmem := List.take_subset_take_left _ (Nat.le_of_lt hk) hline
      exact hplain c (List.mem_flatten_of_mem hmem hc)
    have hmem : (sourceLines source)[k] ∈ (sourceLines source).take n :=
      List.mem_take_iff_getElem.2 ⟨k, by omega, rfl⟩
    have hfound := getElem?_splitBreaks hne hline fun c hc =>
      Bool.eq_false_iff.2 (hplain c (List.mem_flatten_of_mem hmem hc))
    rw [hbefore, Nat.add_zero] at hfound
    rw [hfound, hline]

/-! ## Keywords on their lines -/

namespace Lexer

variable {text : List Char} {t : Lexer}

/-- The line that the lexer has reached is counted by the newlines that it has passed. -/
theorem Moves.line_eq (h : (atStart text).Moves t) :
    ∃ read, text = read ++ t.ahead ∧ t.line = 1 + read.count '\n' := by
  induction h with
  | refl => exact ⟨[], rfl, rfl⟩
  | pass _ part hahead hline _ _ ih =>
    obtain ⟨read, htext, hreached⟩ := ih
    refine ⟨read ++ part, by rw [htext, hahead, List.append_assoc], ?_⟩
    rw [hline, hreached, List.count_append, Nat.add_assoc]
  | mark _ _ _ ih => exact ih
  | @emit u _ _ lexeme rest hahead _ _ _ ih =>
    obtain ⟨read, htext, hreached⟩ := ih
    refine ⟨read ++ lexeme, by rw [htext, hahead, List.append_assoc]; rfl, ?_⟩
    show u.line + _ = _
    rw [hreached, List.count_append, Nat.add_assoc]

/-- A keyword stands in the text behind as many newlines as its line says. -/
theorem Moves.keyword_at (h : (atStart text).Moves t) :
    ∀ u ∈ t.done.toList, ∀ word, u.kind = .keyword word →
      ∃ before after, text = before ++ (word.toList ++ after) ∧
        u.line = 1 + before.count '\n' := by
  induction h with
  | refl =>
    intro u hu
    cases hu
  | pass _ _ _ _ _ hdone ih =>
    rw [hdone]
    exact ih
  | mark _ kind hkind ih =>
    intro u hu word hword
    rw [Lexer.mark, Array.toList_push, List.mem_append, List.mem_singleton] at hu
    rcases hu with hu | rfl
    · exact ih u hu word hword
    · rw [show kind = .keyword word from hword] at hkind
      cases hkind
  | emit hmoves _ hahead _ hlexeme ih =>
    intro u hu word hword
    rw [Lexer.emit, Array.toList_push, List.mem_append, List.mem_singleton] at hu
    rcases hu with hu | rfl
    · exact ih u hu word hword
    · obtain ⟨read, htext, hline⟩ := hmoves.line_eq
      exact ⟨read, _, by rw [htext, hahead, hlexeme word hword], hline⟩

end Lexer

/-- **A keyword is shown on the line that its token notes.** -/
theorem exists_line_of_keyword {ts : List Token} (h : tokens? source = some ts) {t : Token}
    (ht : t ∈ ts) {word : String} (hkind : t.kind = .keyword word)
    (hword : word.toList ≠ [] ∧ '\n' ∉ word.toList) :
    ∃ (k : Nat) (line : List Char), t.line = k + 1 ∧ (sourceLines source)[k]? = some line ∧
      word.toList <:+: line := by
  obtain ⟨s, hmoves, rfl⟩ := exists_moves_of_tokens? h
  obtain ⟨before, after, htext, hline⟩ := hmoves.keyword_at t ht word hkind
  obtain ⟨line, hfound, hin⟩ := exists_line_of_word hword.2 before after
  obtain ⟨rest, hsplit, hempty⟩ := splitNewlines_lexed source
  rw [← htext, hsplit] at hfound
  refine ⟨before.count '\n', line, by omega, ?_, hin⟩
  -- Nothing stands behind the last line, so the word is not there.
  rcases Nat.lt_or_ge (before.count '\n') (sourceLines source).length with hlt | hge
  · rwa [List.getElem?_append_left hlt] at hfound
  · rw [List.getElem?_append_right hge] at hfound
    rw [hempty line (List.mem_of_getElem? hfound), List.infix_nil] at hin
    exact absurd hin hword.1

/-- The lines are lines of the source. One of them shows one of the words, and it is the first if
nothing comes before. -/
def Stands (source : List Char) (span : Span) (isFirst : Bool) (words : List String) : Prop :=
  span.Within (sourceLines source).length ∧
    ∃ (k : Nat) (line : List Char), span.first ≤ k + 1 ∧ k + 1 ≤ span.last ∧
      (isFirst = true → k + 1 = span.first) ∧ (sourceLines source)[k]? = some line ∧
        ∃ word ∈ words, word.toList <:+: line

/-- A definition stands in the source where it is said to, with its keyword. -/
def Stmt.Stands (source : List Char) : Stmt → Prop
  | .function _ _ _ decorators _ line last =>
    Grammar.Stands source ⟨Python.firstLine decorators line, last⟩ decorators.isEmpty
      ["async", "def"]
  | .classDef _ _ _ decorators _ line last =>
    Grammar.Stands source ⟨Python.firstLine decorators line, last⟩ decorators.isEmpty ["class"]
  | _ => True

/-- A definition that is read from the tokens of a source stands there. -/
theorem stands_definition {all : List Token} (hall : tokens? source = some all) {t u : Token}
    {tail : List Token} {decorated : List Decorator} (hts : t :: tail <:+ all) {words : List String}
    {word : String} (hkind : t.kind = .keyword word) (hword : word ∈ words)
    (hplain : word.toList ≠ [] ∧ '\n' ∉ word.toList) (hu : u ∈ tail)
    (hdecorated : ∀ d ∈ decorated, Parse.Passed all (t :: tail) d.line) :
    Stands source ⟨Python.firstLine decorated t.line, u.priorEnd⟩ decorated.isEmpty words := by
  have hordered := ordered_tokens?_of_count_le hall (Nat.le_of_eq (length_sourceLines source).symm)
  have htext : t.kind.isText = true := by rw [hkind]; rfl
  obtain ⟨hfirst, hline, hend, htotal⟩ := hordered.definition_bounds hts htext hu hdecorated
  obtain ⟨k, line, hk, hfound, hin⟩ :=
    exists_line_of_keyword hall (hts.subset List.mem_cons_self) hkind hplain
  refine ⟨?_, k, line, ?_, ?_, ?_, hfound, word, hword, hin⟩
  · simp only [Span.Within]
    omega
  · simp only
    omega
  · simp only
    omega
  · intro hnone
    have hstart : Python.firstLine decorated t.line = t.line := by
      rw [List.isEmpty_iff.1 hnone]
      rfl
    simp only [hstart]
    omega

theorem suits_stands {all : List Token} (hall : tokens? source = some all) :
    Suits all (Stmt.Stands source) where
  other _ _ := trivial
  expression _ := trivial
  importNames _ _ _ _ := trivial
  importFrom _ _ _ _ _ := trivial
  function hts hkind hu hdecorated _ _ _ _ := by
    rcases hkind with hkind | hkind
    · exact stands_definition hall hts hkind (by simp) (by decide) hu hdecorated
    · exact stands_definition hall hts hkind (by simp) (by decide) hu hdecorated
  classDef hts hkind hu hdecorated _ _ _ _ :=
    stands_definition hall hts hkind (by simp) (by decide) hu hdecorated

end Grammar

/-! ## Definitions of an outline -/

open Grammar

/-- The definition is one of the functions, methods and classes of the outline. -/
def Outline.Defines (o : Outline) : Definition → Prop
  | .callable f => f ∈ o.functions
  | .type c => c ∈ o.classes

/-- A function, method or class stands in the source on the lines that it has in an outline. The
first of them shows its keyword, or a later one if it has decorators. -/
def Definition.Stands (source : List Char) : Definition → Prop
  | .callable f => Grammar.Stands source f.span f.decorators.isEmpty ["async", "def"]
  | .type c => Grammar.Stands source c.span c.decorators.isEmpty ["class"]

/-- The text of lines of the source, joined by newlines. -/
def sourceText (source : List Char) (span : Span) : String :=
  Outline.joinLines (slice ((sourceLines source).map String.ofList) (span.first - 1) span.last)

namespace Python

variable {source : List Char} {s : Stmt} {sourceName : String} {o : Outline}
variable {d : Definition} {f : Callable}

theorem lines_outline (h : outline sourceName source = .ok o) :
    o.lines = (Text.splitBreaks source).map String.ofList := by
  obtain ⟨-, rfl⟩ | ⟨body, -, rfl⟩ := outline_cases h <;> rfl

theorem stands_function? (hs : s.Stands source) (h : function? s = some f) :
    (Definition.callable f).Stands source := by
  cases s <;> cases h
  simpa [Stmt.Stands, Definition.Stands, Callable.plain] using hs

theorem stands_method? (hs : s.Stands source) {parent : String} (h : method? parent s = some f) :
    (Definition.callable f).Stands source := by
  cases s <;> cases h
  simpa [Stmt.Stands, Definition.Stands, Callable.method] using hs

theorem stands_class? (hs : s.Stands source) {c : ClassItem} (h : class? s = some c) :
    (Definition.type c).Stands source := by
  cases s <;> cases h
  simpa [Definition.Stands, Stmt.Stands] using hs

theorem stands_callables (hs : s.Stands source) (hbody : Everywhere (Stmt.Stands source) s.body)
    (hf : f ∈ callables s) : (Definition.callable f).Stands source := by
  unfold callables at hf
  split at hf
  · rename_i c hc
    cases s <;> cases hc
    obtain ⟨m, hm, hf⟩ := List.mem_filterMap.1 hf
    exact stands_method? (hbody.of_mem hm).1 hf
  · exact stands_function? hs (Option.mem_toList.1 hf)

section

variable (h : outline sourceName source = .ok o)
include h

/-- Only what can be read defines something. -/
theorem exists_body_of_defines (hd : o.Defines d) :
    ∃ body, Stmt.ofSource? source = some body ∧ o = outlineOf sourceName source body := by
  obtain ⟨-, rfl⟩ | hread := outline_cases h
  · cases d <;> cases hd
  · exact hread

theorem stands_of_defines (hd : o.Defines d) :
    d.Stands source := by
  obtain ⟨body, hread, rfl⟩ := exists_body_of_defines h hd
  have hall := everywhere_of_suits hread fun _ hts => suits_stands hts
  cases d with
  | callable f =>
    obtain ⟨s, hs, hf⟩ := List.mem_flatMap.1 hd
    exact stands_callables (hall.of_mem hs).1 (hall.of_mem hs).2 hf
  | type c =>
    obtain ⟨s, hs, hc⟩ := List.mem_filterMap.1 hd
    exact stands_class? (hall.of_mem hs).1 hc

/-- There is nothing to define without a source. -/
theorem ne_nil_of_defines (hd : o.Defines d) :
    source ≠ [] := by
  rintro rfl
  obtain ⟨body, hread, rfl⟩ := exists_body_of_defines h hd
  have hnone : (Stmt.ofSource? []).map List.isEmpty = some true := by decide +kernel
  rw [hread] at hnone
  rw [List.isEmpty_iff.1 (Option.some.inj hnone)] at hd
  cases d <;> cases hd

/-- Lines up to which the numbers agree are shown as they stand in the source. -/
theorem textOf_outline (hne : source ≠ []) {span : Span}
    (hspan : span.Within (sourceLines source).length)
    (hplain : innerBreaks source span.last.toNat = 0) :
    o.textOf span = sourceText source span := by
  obtain ⟨hone, hle, htotal⟩ := hspan
  obtain ⟨i, hi⟩ : ∃ i : Nat, span.first - 1 = i := ⟨(span.first - 1).toNat, by omega⟩
  obtain ⟨n, hn⟩ : ∃ n : Nat, span.last = n := ⟨span.last.toNat, by omega⟩
  rw [hn, Int.toNat_natCast] at hplain
  have hagree := (numbers_agree_iff hne (by omega)).2 hplain
  have htake : (Text.splitBreaks source).take n = (sourceLines source).take n := by
    apply List.ext_getElem?
    intro k
    rw [List.getElem?_take, List.getElem?_take]
    split
    · rename_i hk
      exact hagree k hk
    · rfl
  rw [Outline.textOf, Outline.linesOf, sourceText, lines_outline h, hi, hn, slice_natCast,
    slice_natCast, ← List.map_take, ← List.map_take, htake]

end

/-- **Where a definition stands and what is shown of it.** A function, method or class of the
outline of a source stands on the lines that the outline gives to it, as the lexer counts lines, and
its keyword is on the first of them unless it has decorators. The outline numbers the lines up to
its last one in the same way if and only if no other break of lines stands within them, and then its
source is shown as it stands there. Otherwise a line is found further down, by as many lines as
there are breaks within those before it. -/
theorem numbering_of_definition (h : outline sourceName source = .ok o) {d : Definition}
    (hd : o.Defines d) :
    d.Stands source ∧
      ((∀ k : Nat, (k : Int) < d.span.last →
          o.lines[k]? = (sourceLines source)[k]?.map String.ofList) ↔
        innerBreaks source d.span.last.toNat = 0) ∧
      (innerBreaks source d.span.last.toNat = 0 →
        (∀ name f, d = .callable f → o.function? name = some f →
          o.functionSource name = .ok (sourceText source d.span)) ∧
        ∀ name c, d = .type c → o.class? name = some c →
          o.classSource name = .ok (sourceText source d.span)) ∧
      ∀ (k : Nat) (line : List Char), (sourceLines source)[k]? = some line →
        (∀ c ∈ line, Text.isBreak c = false) →
          o.lines[k + innerBreaks source k]? = some (String.ofList line) := by
  have hne := ne_nil_of_defines h hd
  have hstands := stands_of_defines h hd
  have hspan : d.span.Within (sourceLines source).length := by
    cases d <;> exact hstands.1
  refine ⟨hstands, ?_, fun hplain => ⟨?_, ?_⟩, ?_⟩
  · obtain ⟨hone, hle, htotal⟩ := hspan
    rw [← numbers_agree_iff hne (by omega), lines_outline h]
    constructor
    · intro hagree k hk
      have hsame := hagree k (by omega)
      rw [List.getElem?_map] at hsame
      exact Option.map_injective (fun _ _ => String.ofList_injective) hsame
    · intro hagree k hk
      rw [List.getElem?_map, hagree k (by omega)]
  · rintro name f rfl hf
    rw [Outline.functionSource, hf]
    exact congrArg Except.ok (textOf_outline h hne hspan hplain)
  · rintro name c rfl hc
    rw [Outline.classSource, hc]
    exact congrArg Except.ok (textOf_outline h hne hspan hplain)
  · intro k line hline hplain
    rw [lines_outline h, List.getElem?_map, getElem?_splitBreaks hne hline hplain]
    rfl

/-- A function behind a line that holds a form feed. -/
def feedBefore : List Char := "import os\n\x0c\ndef f():\n    return 1\n".toList

/-- **A form feed moves what is shown.** The function stands on the lines three and four. What is
shown as its source is an empty line and the first of the two. -/
theorem shifted_behind_form_feed :
    ∃ o, outline "f.py" feedBefore = .ok o ∧ (o.function? "f").map (·.span) = some ⟨3, 4⟩ ∧
      sourceText feedBefore ⟨3, 4⟩ = "def f():\n    return 1" ∧
      o.functionSource "f" = .ok "\ndef f():" ∧ innerBreaks feedBefore 4 = 1 := by
  decide +kernel

/-- A method with a decorator and three kinds of line ends, and form feeds behind it. -/
def feedsBehind : List Char :=
  ("class A:\r\n  @cache\r  def run(self):\n    return 1\n" ++ "\x0c\n\x0cx = 2\ny = 3").toList

theorem shown_before_form_feeds :
    ∃ o f, outline "f.py" feedsBehind = .ok o ∧ o.function? "A.run" = some f ∧ f.span = ⟨2, 4⟩ ∧
      (Definition.callable f).Stands feedsBehind ∧
      o.functionSource "A.run" = .ok "  @cache\n  def run(self):\n    return 1" ∧
      (sourceLines feedsBehind)[6]? = some "y = 3".toList ∧ o.lines[8]? = some "y = 3" := by
  have hview : ∃ o, outline "f.py" feedsBehind = .ok o ∧
      (o.function? "A.run").map (·.span) = some ⟨2, 4⟩ ∧
      innerBreaks feedsBehind 4 = 0 ∧ innerBreaks feedsBehind 6 = 2 ∧
      sourceText feedsBehind ⟨2, 4⟩ = "  @cache\n  def run(self):\n    return 1" ∧
      (sourceLines feedsBehind)[6]? = some "y = 3".toList ∧
      ("y = 3".toList.all fun c => Text.isBreak c == false) = true := by decide +kernel
  obtain ⟨o, ho, hmethod, hplain, htwo, htext, hlast, hopen⟩ := hview
  obtain ⟨f, hf, hspan⟩ := Option.map_eq_some_iff.1 hmethod
  have hd : o.Defines (.callable f) := List.mem_of_find?_eq_some hf
  obtain ⟨hstands, -, hshown, hmoved⟩ := numbering_of_definition ho hd
  have hsource := (hshown (by rw [Definition.span, hspan]; exact hplain)).1 "A.run" f rfl hf
  rw [Definition.span, hspan, htext] at hsource
  have hfound := hmoved 6 _ hlast fun c hc => beq_iff_eq.1 (List.all_eq_true.1 hopen c hc)
  rw [htwo] at hfound
  exact ⟨o, f, ho, hf, hspan, hstands, hsource, hlast, hfound⟩

end Python

end SourceAtlas
