import Mathlib.Data.List.Basic
import SourceAtlas.Grammar.Lexer
import SourceAtlas.Proofs.Cutting

/-!
# Lines of tokens

The lexer counts a line for every newline it passes, so that no token with a text of its own stands
behind the last line of the source (`ordered_tokens?`). The count is kept as a sum: the line the
lexer has reached and the newlines still ahead never exceed the number of lines by more than one
(`Lexer.Sound`), or by one more where an empty line is added to the source. A text ends in newlines
and no lexeme does, hence these are still ahead when a token with a text has been read
(`Text.Closes`). What a step does to the text, the line and the tokens is said once (`Lexer.Moves`),
and what is kept is derived from that.

The second thing kept is the order of the tokens: lines never go back, and the end that a token
notes is not before the line of any token with a text that came earlier.
-/

set_option autoImplicit false

namespace SourceAtlas

variable {p : Char → Bool}

namespace Text

variable {cs : List Char}

/-! ## Newlines and lines -/

theorem countP_le_length_splitBreaks (cs : List Char) :
    (mergeReturns cs).countP isBreak ≤ (splitBreaks cs).length := by
  have hlength := length_splitWhere isBreak (mergeReturns cs)
  unfold splitBreaks
  dsimp only
  split
  · rw [List.length_dropLast]
    omega
  · omega

/-- The line that no break ends counts as well. -/
theorem countP_lt_length_splitBreaks {m : List Char} {c : Char} (hm : mergeReturns cs = m ++ [c])
    (hc : isBreak c = false) :
    m.countP isBreak < (splitBreaks cs).length := by
  have hlength := length_splitWhere isBreak (m ++ [c])
  obtain ⟨ws, w, hcut⟩ := splitWhere_concat_of_not hc m
  rw [List.countP_append] at hlength
  rw [splitBreaks, hm, hcut, List.getLast?_concat]
  rw [hcut] at hlength
  cases w <;> dsimp only [List.nil_append, List.cons_append] at hlength ⊢ <;> omega

/-- Every newline that the lexer reads is a break of lines. -/
theorem count_newlines_le (m : List Char) :
    (m.map fun c => if c == '\r' then '\n' else c).count '\n' ≤ m.countP isBreak := by
  rw [List.count, List.countP_map]
  apply List.countP_mono_left
  intro c _ hc
  rw [Function.comp_apply, beq_iff_eq] at hc
  split at hc
  · rename_i hreturn
    rw [beq_iff_eq.1 hreturn]
    decide
  · rw [hc]
    decide

/-- A source that is not empty has a line for every newline that the lexer reads, also for the one
that it adds behind the last line. -/
theorem count_endLine_le (h : cs ≠ []) :
    (Grammar.endLine (unifyNewlines cs)).count '\n' ≤ (splitBreaks cs).length := by
  have hne : mergeReturns cs ≠ [] := fun hnil => h (eq_nil_of_mergeReturns hnil)
  obtain ⟨m, c, hm⟩ := (List.eq_nil_or_concat _).resolve_left hne
  rw [List.concat_eq_append] at hm
  have hall := countP_le_length_splitBreaks cs
  have hfront := count_newlines_le m
  rw [hm, List.countP_append] at hall
  have hlast := count_newlines_le [c]
  rw [Grammar.endLine, unifyNewlines, hm, List.map_append, List.map_singleton, List.getLast?_concat]
  rw [List.map_singleton] at hlast
  generalize (if c == '\r' then '\n' else c) = d at hlast ⊢
  by_cases hd : d = '\n'
  · -- The last character is a newline already.
    rw [if_pos (by rw [hd]), List.count_append]
    omega
  · have hnone : List.count '\n' [d] = 0 := List.count_eq_zero.2 (by simpa using Ne.symm hd)
    rw [if_neg fun he => hd (Option.some.inj he), List.count_append, List.count_append, hnone,
      List.count_singleton_self]
    -- It is another break, or the last line has no break at all.
    cases hc : isBreak c with
    | true =>
      rw [List.countP_singleton, hc, if_pos rfl] at hall
      omega
    | false =>
      have hopen := countP_lt_length_splitBreaks hm hc
      omega

/-- Behind every character other than a newline there are more than so many newlines. -/
def Closes (extra : Nat) (cs : List Char) : Prop :=
  ∀ front c rest, cs = front ++ c :: rest → c ≠ '\n' → extra < rest.count '\n'

theorem Closes.of_append {extra : Nat} {read rest : List Char} (h : Closes extra (read ++ rest)) :
    Closes extra rest := fun front c more hrest hc =>
  h (read ++ front) c more (by rw [hrest, List.append_assoc]) hc

theorem closes_of_getLast? (h : cs.getLast? = some '\n') : Closes 0 cs := by
  rintro front c rest rfl hc
  rw [List.getLast?_append_of_ne_nil _ (List.cons_ne_nil c rest)] at h
  cases rest with
  | nil => exact absurd (Option.some.inj h) hc
  | cons d rest =>
    rw [List.getLast?_cons_cons] at h
    exact List.count_pos_iff.2 (List.mem_of_getLast? h)

/-- A further newline at the end is counted. -/
theorem Closes.concat {extra : Nat} (h : Closes extra cs) :
    Closes (extra + 1) (cs ++ ['\n']) := by
  intro front c rest hcs hc
  rcases List.eq_nil_or_concat rest with rfl | ⟨more, d, rfl⟩
  · obtain ⟨-, hlast⟩ := List.append_inj' hcs rfl
    exact absurd (List.cons.inj hlast).1.symm hc
  · rw [List.concat_eq_append, ← List.cons_append, ← List.append_assoc] at hcs
    obtain ⟨rfl, hlast⟩ := List.append_inj' hcs rfl
    rw [List.concat_eq_append, ← hlast, List.count_append, List.count_singleton_self]
    exact Nat.succ_lt_succ (h front c more rfl hc)

/-! ## Reading on in a line -/

/-- The second text is reached in the first without passing a newline. -/
def SameLine (cs rest : List Char) : Prop := ∃ read, cs = read ++ rest ∧ '\n' ∉ read

theorem SameLine.refl (cs : List Char) : SameLine cs cs := ⟨[], rfl, List.not_mem_nil⟩

theorem SameLine.trans {as bs : List Char} (h : SameLine as bs) (h' : SameLine bs cs) :
    SameLine as cs := by
  obtain ⟨read, rfl, hread⟩ := h
  obtain ⟨more, rfl, hmore⟩ := h'
  exact ⟨read ++ more, (List.append_assoc _ _ _).symm, by simp [hread, hmore]⟩

theorem SameLine.cons {c : Char} {rest : List Char} (h : SameLine cs rest) (hc : c ≠ '\n') :
    SameLine (c :: cs) rest := by
  obtain ⟨read, rfl, hread⟩ := h
  exact ⟨c :: read, rfl, by simp [hread, hc.symm]⟩

theorem sameLine_dropWhile (h : p '\n' = false) (cs : List Char) :
    SameLine cs (cs.dropWhile p) := by
  refine ⟨cs.takeWhile p, List.takeWhile_append_dropWhile.symm, fun hmem => ?_⟩
  rw [List.mem_takeWhile_imp hmem] at h
  cases h

/-- A text with a newline is read up to the first one. -/
theorem dropWhile_newline (h : '\n' ∈ cs) :
    ∃ read after, cs = read ++ '\n' :: after ∧ '\n' ∉ read ∧
      cs.dropWhile (· != '\n') = '\n' :: after := by
  induction cs with
  | nil => cases h
  | cons c cs ih =>
    by_cases hc : c = '\n'
    · exact ⟨[], cs, by rw [hc]; rfl, List.not_mem_nil, by simp [hc]⟩
    · obtain ⟨read, after, hcs, hread, hdrop⟩ := ih (by simpa [Ne.symm hc] using h)
      refine ⟨c :: read, after, by rw [hcs]; rfl, by simp [hread, Ne.symm hc], ?_⟩
      rw [List.dropWhile_cons_of_pos (by simpa using hc), hdrop]

end Text

namespace Grammar

open Text

variable {source : List Char}

namespace Numeral

theorem sameLine_digits? (hp : p '\n' = false) {cs ds rest : List Char}
    (h : digits? p cs = some (ds, rest)) : SameLine cs rest := by
  fun_induction digits? p cs generalizing ds rest with
  | case1 =>
    cases h
    exact .refl _
  | case2 => cases h
  | case3 d cs hd ih =>
    obtain ⟨⟨es, r⟩, hrest, heq⟩ := Option.map_eq_some_iff.1 h
    cases heq
    exact ((ih hrest).cons fun hn => by simp [hn, hp] at hd).cons (by decide)
  | case4 => cases h
  | case5 c cs _ _ hc ih =>
    obtain ⟨⟨es, r⟩, hrest, heq⟩ := Option.map_eq_some_iff.1 h
    cases heq
    exact (ih hrest).cons fun hn => by simp [hn, hp] at hc
  | case6 =>
    cases h
    exact .refl _

variable {text cs done rest : List Char}

theorem sameLine_ended? (h : ended? text cs = some (done, rest)) : SameLine cs rest := by
  unfold ended? at h
  split at h
  · cases h
    exact .refl _
  · cases h

theorem sameLine_based? {letter : Char} (hp : p '\n' = false) {cs done rest : List Char}
    (h : based? letter p cs = some (done, rest)) : SameLine cs rest := by
  obtain ⟨⟨ds, after⟩, hdigits, hrest⟩ := Option.bind_eq_some_iff.1 h
  dsimp only at hrest
  split at hrest
  · cases hrest
  · exact (sameLine_digits? hp hdigits).trans (sameLine_ended? hrest)

theorem sameLine_imaginary? (h : imaginary? text cs = some (done, rest)) : SameLine cs rest := by
  unfold imaginary? at h
  split at h
  · rename_i c after
    split at h
    · rename_i hc
      exact (sameLine_ended? h).cons fun hn => by simp [hn] at hc
    · exact sameLine_ended? h
  · cases h
    exact .refl _

theorem ne_newline_of_isDigit {c : Char} (h : isDigit c = true) : c ≠ '\n' := by
  rintro rfl
  revert h
  decide

theorem sameLine_exponent? (h : exponent? text cs = some (done, rest)) : SameLine cs rest := by
  unfold exponent? at h
  split at h
  · rename_i e after
    split at h
    · rename_i he
      have hletter : e ≠ '\n' := fun hn => by simp [hn] at he
      split at h
      · rename_i s d more
        split at h
        · rename_i hs
          have hsign : s ≠ '\n' := fun hn => by simp [hn] at hs
          split at h
          · rename_i hd
            obtain ⟨⟨ds, r⟩, hdigits, hrest⟩ := Option.bind_eq_some_iff.1 h
            have htail := (sameLine_digits? (by decide) hdigits).trans (sameLine_imaginary? hrest)
            exact ((htail.cons (ne_newline_of_isDigit hd)).cons hsign).cons hletter
          · cases h
        · split at h
          · rename_i hs
            obtain ⟨⟨ds, r⟩, hdigits, hrest⟩ := Option.bind_eq_some_iff.1 h
            have htail := (sameLine_digits? (by decide) hdigits).trans (sameLine_imaginary? hrest)
            exact (htail.cons (ne_newline_of_isDigit hs)).cons hletter
          · exact sameLine_ended? h
      · rename_i s
        split at h
        · rename_i hs
          exact ((sameLine_imaginary? h).cons (ne_newline_of_isDigit hs)).cons hletter
        · split at h
          · cases h
          · exact sameLine_ended? h
      · exact sameLine_ended? h
    · exact sameLine_imaginary? h
  · cases h
    exact .refl _

theorem sameLine_fraction? (h : fraction? text cs = some (done, rest)) : SameLine cs rest := by
  unfold fraction? at h
  split at h
  · split at h
    · rename_i hd
      obtain ⟨⟨ds, r⟩, hdigits, hrest⟩ := Option.bind_eq_some_iff.1 h
      have htail := (sameLine_digits? (by decide) hdigits).trans (sameLine_exponent? hrest)
      exact htail.cons (ne_newline_of_isDigit hd)
    · exact sameLine_exponent? h
  · cases h
    exact .refl _

theorem sameLine_decimal? (h : decimal? text cs = some (done, rest)) : SameLine cs rest := by
  unfold decimal? at h
  split at h
  · exact (sameLine_fraction? h).cons (by decide)
  · exact sameLine_exponent? h

theorem sameLine_zero? {cs done rest : List Char} (h : zero? cs = some (done, rest)) :
    SameLine cs rest := by
  unfold zero? at h
  split at h
  case h_7 =>
    obtain ⟨⟨ds, after⟩, hdigits, hrest⟩ := Option.bind_eq_some_iff.1 h
    have hdone := sameLine_digits? (by decide) hdigits
    dsimp only at hrest
    split at hrest
    · exact hdone.trans (sameLine_decimal? hrest)
    · split at hrest
      · exact hdone.trans (sameLine_ended? hrest)
      · cases hrest
  all_goals exact (sameLine_based? (by decide) h).cons (by decide)

/-- A numeral stands on one line. -/
theorem sameLine_read? {cs done rest : List Char} (h : read? cs = some (done, rest))
    (hcs : cs.head? ≠ some '\n') : SameLine cs rest := by
  unfold read? at h
  split at h
  · exact (sameLine_zero? h).cons (by decide)
  · exact (sameLine_fraction? h).cons (by decide)
  · obtain ⟨⟨ds, after⟩, hdigits, hrest⟩ := Option.bind_eq_some_iff.1 h
    have htail := (sameLine_digits? (by decide) hdigits).trans (sameLine_decimal? hrest)
    exact htail.cons fun hn => hcs (by rw [hn]; rfl)
  · cases h

end Numeral

/-! ## Tokens in order -/

/-- Tokens with a text of their own, as those that mark lines, blocks and the end have not. -/
def TokenKind.isText : TokenKind → Bool
  | .newline | .indent | .dedent | .finish => false
  | _ => true

/-- One token may come before the other: lines do not go back, and what ends before the second ends
no earlier than a text that starts with the first. -/
structure Token.Precedes (t u : Token) : Prop where
  line : t.line ≤ u.line
  text : t.kind.isText = true → t.line ≤ u.priorEnd

/-- The lines that a token knows lie within so many lines. Only a token without a text may stand
behind them. -/
structure Token.Within (t : Token) (total : Nat) : Prop where
  start : 1 ≤ t.line
  prior : t.priorEnd ≤ total
  text : t.kind.isText = true → t.line ≤ total

/-- Tokens in order within so many lines. -/
structure Ordered (total : Nat) (ts : List Token) : Prop where
  order : ts.Pairwise Token.Precedes
  within : ∀ t ∈ ts, t.Within total

theorem Ordered.of_suffix {total : Nat} {ts us : List Token} (h : Ordered total ts)
    (hus : us <:+ ts) : Ordered total us :=
  ⟨h.order.sublist hus.sublist, fun t ht => h.within t (hus.subset ht)⟩

variable {ts : List Token}

theorem Ordered.concat {total : Nat} {u : Token} (h : Ordered total ts)
    (hlast : ∀ t ∈ ts, t.Precedes u) (hu : u.Within total) : Ordered total (ts ++ [u]) := by
  constructor
  · rw [List.pairwise_append]
    refine ⟨h.order, List.pairwise_singleton _ _, ?_⟩
    intro t ht v hv
    rw [List.mem_singleton.1 hv]
    exact hlast t ht
  · intro t ht
    rcases List.mem_append.1 ht with ht | ht
    · exact h.within t ht
    · rw [List.mem_singleton.1 ht]
      exact hu

/-! ## The lexer -/

namespace Lexer

variable {quote : Char}

/-- What the lexer keeps, if so many empty lines were added: the text ahead ends in newlines, its
newlines and the line reached are within the lines of the source, and so are the tokens so far, in
an order that a token made here would continue. -/
structure Sound (s : Lexer) (total extra : Nat) : Prop where
  closed : Closes extra s.ahead
  ahead : s.line + s.ahead.count '\n' ≤ total + extra + 1
  start : 1 ≤ s.line
  prior : s.lastEnd ≤ total
  passed : ∀ t ∈ s.done.toList, ∀ kind, t.Precedes ⟨kind, s.line, s.lastEnd⟩
  ordered : Ordered total s.done.toList

variable {s t : Lexer} {total extra : Nat}

theorem Sound.mark (h : s.Sound total extra) (kind : TokenKind) (hkind : kind.isText = false) :
    (s.mark kind).Sound total extra where
  closed := h.closed
  ahead := h.ahead
  start := h.start
  prior := h.prior
  passed := by
    intro t ht other
    rw [Lexer.mark, Array.toList_push, List.mem_append, List.mem_singleton] at ht
    rcases ht with ht | rfl
    · exact h.passed t ht other
    · exact ⟨Nat.le_refl _, fun htext => by rw [hkind] at htext; cases htext⟩
  ordered := by
    rw [Lexer.mark, Array.toList_push]
    refine h.ordered.concat (fun t ht => h.passed t ht kind) ⟨h.start, h.prior, fun htext => ?_⟩
    rw [hkind] at htext
    cases htext

/-- Passing over a part of the text keeps the lexer sound if its newlines are counted. -/
theorem Sound.skip (h : s.Sound total extra) (read : List Char) (hahead : s.ahead = read ++ t.ahead)
    (hline : t.line = s.line + read.count '\n') (hend : t.lastEnd = s.lastEnd)
    (hdone : t.done = s.done) : t.Sound total extra where
  closed := (hahead ▸ h.closed).of_append
  ahead := by
    have hsum := h.ahead
    rw [hahead, List.count_append] at hsum
    omega
  start := by
    have hstart := h.start
    omega
  prior := hend ▸ h.prior
  passed u hu kind := by
    rw [hdone] at hu
    have hpassed := h.passed u hu kind
    exact ⟨hline ▸ Nat.le_add_right_of_le hpassed.line, hend ▸ hpassed.text⟩
  ordered := hdone ▸ h.ordered

/-- A token whose text does not end in a newline is read within the lines, since the newlines at the
end of the text are still ahead. -/
theorem Sound.emit (h : s.Sound total extra) (hhead : ∃ c ∈ s.ahead.head?, c ≠ '\n')
    {lexeme rest : List Char} (hahead : s.ahead = lexeme ++ rest)
    (hlast : lexeme.getLast? ≠ some '\n') {breaks : Nat} (hbreaks : breaks ≤ lexeme.count '\n')
    (kind : TokenKind) : (s.emit kind breaks rest).Sound total extra := by
  have hmore : extra < rest.count '\n' := by
    rcases List.eq_nil_or_concat lexeme with rfl | ⟨front, c, rfl⟩
    · obtain ⟨c, hc, hplain⟩ := hhead
      obtain ⟨cs, hcs⟩ := List.head?_eq_some_iff.1 hc
      have hrest : rest = c :: cs := hahead.symm.trans hcs
      rw [hrest, List.count_cons_of_ne hplain]
      exact h.closed [] c cs hcs hplain
    · exact h.closed front c rest (by simpa using hahead) fun hc => hlast (by simp [hc])
  have hsum := h.ahead
  rw [hahead, List.count_append] at hsum
  have hend : s.line + breaks ≤ total := by omega
  exact
    { closed := (hahead ▸ h.closed).of_append
      ahead := by
        show s.line + breaks + rest.count '\n' ≤ total + extra + 1
        omega
      start := Nat.le_add_right_of_le h.start
      prior := hend
      passed := by
        intro t ht other
        rw [Lexer.emit, Array.toList_push, List.mem_append, List.mem_singleton] at ht
        have hline : t.line ≤ s.line := by
          rcases ht with ht | rfl
          · exact (h.passed t ht other).line
          · exact Nat.le_refl _
        exact ⟨Nat.le_add_right_of_le hline, fun _ => Nat.le_add_right_of_le hline⟩
      ordered := by
        rw [Lexer.emit, Array.toList_push]
        refine h.ordered.concat (fun t ht => h.passed t ht kind) ⟨h.start, h.prior, fun _ => ?_⟩
        exact Nat.le_of_add_right_le hend }

/-- **What the lexer does, step after step:** it passes a part of the text and counts its newlines,
adds a token without a text, or reads a token at the head of the text, of which it counts the
newlines as well. The text of a keyword is the keyword. -/
inductive Moves (s : Lexer) : Lexer → Prop
  | refl : Moves s s
  | pass {t u : Lexer} (h : Moves s t) (read : List Char) (hahead : t.ahead = read ++ u.ahead)
      (hline : u.line = t.line + read.count '\n') (hend : u.lastEnd = t.lastEnd)
      (hdone : u.done = t.done) : Moves s u
  | mark {t : Lexer} (h : Moves s t) (kind : TokenKind) (hkind : kind.isText = false) :
      Moves s (t.mark kind)
  | emit {t : Lexer} (h : Moves s t) (hhead : ∃ c ∈ t.ahead.head?, c ≠ '\n')
      {lexeme rest : List Char} (hahead : t.ahead = lexeme ++ rest)
      (hlast : lexeme.getLast? ≠ some '\n') {kind : TokenKind}
      (hword : ∀ word, kind = .keyword word → lexeme = word.toList) :
      Moves s (t.emit kind (lexeme.count '\n') rest)

theorem Moves.trans {u : Lexer} (h : s.Moves t) (h' : t.Moves u) : s.Moves u := by
  induction h' with
  | refl => exact h
  | pass _ read hahead hline hend hdone ih => exact ih.pass read hahead hline hend hdone
  | mark _ kind hkind ih => exact ih.mark kind hkind
  | emit _ hhead hahead hlast hword ih => exact ih.emit hhead hahead hlast hword

theorem Moves.closes (h : s.Moves t) (hs : Closes extra s.ahead) : Closes extra t.ahead := by
  induction h with
  | refl => exact hs
  | pass _ read hahead _ _ _ ih => exact (hahead ▸ ih).of_append
  | mark _ kind _ ih => exact ih
  | emit _ _ hahead _ _ ih => exact (hahead ▸ ih).of_append

/-- **Moves keep the lexer sound.** -/
theorem Moves.sound (h : s.Moves t) (hs : s.Sound total extra) : t.Sound total extra := by
  induction h with
  | refl => exact hs
  | pass _ read hahead hline hend hdone ih => exact ih.skip read hahead hline hend hdone
  | mark _ kind hkind ih => exact ih.mark kind hkind
  | emit _ hhead hahead hlast _ ih => exact ih.emit hhead hahead hlast (Nat.le_refl _) _

/-- A token other than a keyword is read without passing a newline. -/
theorem Moves.emit_of_sameLine (h : s.Moves t) (hhead : ∃ c ∈ t.ahead.head?, c ≠ '\n')
    {rest : List Char} (hrest : SameLine t.ahead rest) {kind : TokenKind}
    (hkind : ∀ word, kind ≠ .keyword word) : s.Moves (t.emit kind 0 rest) := by
  obtain ⟨lexeme, hahead, hnone⟩ := hrest
  rw [← List.count_eq_zero.2 hnone]
  exact h.emit hhead hahead (fun hlast => hnone (List.mem_of_getLast? hlast))
    fun word hword => absurd hword (hkind word)

/-! ## Tokens with a text -/

variable {cs text rest : List Char}

/-- What is put in front of a text that ends with a quote leaves it so. -/
theorem quoted_of_map (front : List Char) {found : Option (List Char × List Char)}
    (h : (found.map fun r => (front ++ r.1, r.2)) = some (text, rest))
    (hfound : ∀ {more after}, found = some (more, after) →
      cs = more ++ after ∧ more.getLast? = some quote) :
    front ++ cs = text ++ rest ∧ text.getLast? = some quote := by
  obtain ⟨⟨more, after⟩, hmore, heq⟩ := Option.map_eq_some_iff.1 h
  obtain ⟨hcs, hlast⟩ := hfound hmore
  cases heq
  rw [hcs, List.append_assoc, List.getLast?_append, hlast]
  exact ⟨rfl, rfl⟩

theorem shortString?_spec (h : shortString? quote cs = some (text, rest)) :
    cs = text ++ rest ∧ text.getLast? = some quote := by
  fun_induction shortString? quote cs generalizing text rest with
  | case1 => cases h
  | case2 => cases h
  | case3 => cases h
  | case4 c cs ih => exact quoted_of_map ['\\', c] h ih
  | case5 c cs _ _ _ hc =>
    cases h
    exact ⟨rfl, by rw [beq_iff_eq.1 hc]; rfl⟩
  | case6 c cs _ _ _ _ ih => exact quoted_of_map [c] h ih

theorem longString?_spec (h : longString? quote cs = some (text, rest)) :
    cs = text ++ rest ∧ text.getLast? = some quote := by
  fun_induction longString? quote cs generalizing text rest with
  | case1 => cases h
  | case2 => cases h
  | case3 c cs ih => exact quoted_of_map ['\\', c] h ih
  | case4 c d e after hall =>
    cases h
    simp only [Bool.and_eq_true, beq_iff_eq] at hall
    exact ⟨rfl, by rw [hall.2]; rfl⟩
  | case5 c d e after _ _ _ ih => exact quoted_of_map [c] h ih
  | case6 => cases h

/-- A string ends with the quote it begins with. -/
theorem string?_spec (h : string? (quote :: cs) = some (text, rest)) :
    quote :: cs = text ++ rest ∧ text.getLast? = some quote := by
  unfold string? at h
  split at h
  · rename_i q a b more heq
    cases heq
    split at h
    · exact quoted_of_map [quote, a, b] h longString?_spec
    · split at h
      · rename_i ha
        cases h
        exact ⟨rfl, by rw [beq_iff_eq.1 ha]; rfl⟩
      · exact quoted_of_map [quote] h shortString?_spec
  · rename_i q a heq
    cases heq
    split at h
    · rename_i ha
      cases h
      exact ⟨rfl, by rw [beq_iff_eq.1 ha]; rfl⟩
    · cases h
  · cases h

/-- Letters in front of a string are followed by a quote. -/
theorem stringLetters?_spec {b r u f : Bool} {cs letters : List Char}
    (h : stringLetters? b r u f cs = some letters) :
    ∃ quote rest, cs = letters ++ quote :: rest ∧ quote ≠ '\n' ∧ '\n' ∉ letters := by
  induction cs generalizing b r u f letters with
  | nil => cases h
  | cons c cs ih =>
    unfold stringLetters? at h
    dsimp only at h
    split at h
    · rename_i hletter
      have hc : '\n' ≠ c := by
        rintro rfl
        simp at hletter
      split at h
      · rename_i q cs
        split at h
        · rename_i hq
          cases h
          exact ⟨q, cs, rfl, fun hn => by simp [hn] at hq, by simpa using hc⟩
        · obtain ⟨more, hmore, rfl⟩ := Option.map_eq_some_iff.1 h
          obtain ⟨quote, rest, hcs, hquote, hplain⟩ := ih hmore
          exact ⟨quote, rest, by rw [hcs]; rfl, hquote, by simp [hc, hplain]⟩
      · cases h
    · cases h

theorem sameLine_operator? {cs : List Char} {op : String} (h : operator? cs = some op) :
    SameLine cs (cs.drop op.length) := by
  have hplain : ∀ o ∈ operators, '\n' ∉ o.toList := by decide
  unfold operator? at h
  have hfound := List.find?_some h
  obtain ⟨rest, rfl⟩ := List.isPrefixOf_iff_prefix.1 hfound
  refine ⟨op.toList, ?_, hplain op (List.mem_of_find?_eq_some h)⟩
  rw [← String.length_toList, List.drop_left]

/-- Brackets are no part of what is read and where. -/
theorem moves_bracket? {op : String} (h : s.bracket? op = some t) :
    s.Moves t ∧ t.ahead = s.ahead := by
  have hkept : t.ahead = s.ahead ∧ t.line = s.line ∧ t.lastEnd = s.lastEnd ∧ t.done = s.done := by
    unfold Lexer.bracket? at h
    split at h
    · split at h
      · split at h
        · cases h
        · cases h
          exact ⟨rfl, rfl, rfl, rfl⟩
      · split at h
        · cases h
          exact ⟨rfl, rfl, rfl, rfl⟩
        · split at h
          · split at h
            · cases h
              exact ⟨rfl, rfl, rfl, rfl⟩
            · cases h
          · cases h
    · cases h
      exact ⟨rfl, rfl, rfl, rfl⟩
  obtain ⟨hahead, hline, hend, hdone⟩ := hkept
  exact ⟨Moves.refl.pass [] hahead.symm hline hend hdone, hahead⟩

/-- A name that is a keyword is spelled as the keyword is. -/
theorem eq_toList_of_nameKind? {text : List Char} {kind : TokenKind}
    (h : nameKind? text = some kind) {word : String} (hword : kind = .keyword word) :
    text = word.toList := by
  subst hword
  unfold nameKind? at h
  dsimp only at h
  split at h
  · split at h
    · cases h
      exact String.toList_ofList.symm
    · cases h
  · split at h <;> cases h

/-- A token with a text is read. -/
theorem moves_token? (hhead : s.ahead.head? ≠ some '\n') (ht : s.token? = some t) : s.Moves t := by
  unfold Lexer.token? at ht
  split at ht
  · cases ht
  · rename_i c cs hahead
    have hfirst : ∃ c ∈ s.ahead.head?, c ≠ '\n' :=
      ⟨c, by rw [hahead]; rfl, fun hc => hhead (by rw [hahead, hc]; rfl)⟩
    dsimp only at ht
    split at ht
    · rename_i letters hletters
      obtain ⟨⟨text, rest⟩, hstring, heq⟩ := Option.bind_eq_some_iff.1 ht
      cases heq
      obtain ⟨quote, after, hquote, hplain, hnone⟩ :
          ∃ quote after, s.ahead = letters ++ quote :: after ∧ quote ≠ '\n' ∧ '\n' ∉ letters := by
        split at hletters
        · rename_i hc
          cases hletters
          exact ⟨c, cs, hahead, fun hn => by simp [hn] at hc, List.not_mem_nil⟩
        · exact stringLetters?_spec hletters
      rw [hquote, List.drop_left] at hstring
      obtain ⟨hcs, hlast⟩ := string?_spec hstring
      have hlexeme : s.ahead = letters ++ text ++ rest := by rw [hquote, hcs, List.append_assoc]
      -- Of all tokens only a string can hold newlines, and none is among its letters.
      have hcount : text.count '\n' = (letters ++ text).count '\n' := by
        rw [List.count_append, List.count_eq_zero.2 hnone, Nat.zero_add]
      dsimp only
      rw [hcount]
      refine Moves.refl.emit hfirst hlexeme ?_ fun word hword => by cases hword
      simpa [List.getLast?_append, hlast] using hplain
    · split at ht
      · obtain ⟨kind, hkind, heq⟩ := Option.bind_eq_some_iff.1 ht
        cases heq
        have hnone : '\n' ∉ s.ahead.takeWhile isNameChar := fun hmem =>
          absurd (List.mem_takeWhile_imp hmem) (by decide)
        rw [← List.count_eq_zero.2 hnone]
        exact Moves.refl.emit hfirst List.takeWhile_append_dropWhile.symm
          (fun hlast => hnone (List.mem_of_getLast? hlast))
          fun word hword => eq_toList_of_nameKind? hkind hword
      · split at ht
        · obtain ⟨⟨text, rest⟩, hnumber, heq⟩ := Option.bind_eq_some_iff.1 ht
          cases heq
          exact Moves.refl.emit_of_sameLine hfirst (Numeral.sameLine_read? hnumber hhead) (by simp)
        · obtain ⟨op, hop, hrest⟩ := Option.bind_eq_some_iff.1 ht
          obtain ⟨u, hu, heq⟩ := Option.bind_eq_some_iff.1 hrest
          cases heq
          obtain ⟨hmoves, hsame⟩ := moves_bracket? hu
          rw [← hsame] at hfirst hop ⊢
          exact hmoves.emit_of_sameLine hfirst (sameLine_operator? hop) (by simp)

/-! ## Steps and runs -/

theorem lineDepth_spec {col alt held breaks : Nat} {cs : List Char} {depth : Depth}
    {held' breaks' : Nat} {rest : List Char}
    (h : lineDepth col alt held breaks cs = some (depth, held', breaks', rest)) :
    ∃ read, cs = read ++ rest ∧ breaks' = breaks + read.count '\n' := by
  fun_induction lineDepth col alt held breaks cs with
  | case1 col alt held breaks cs ih =>
    obtain ⟨read, hcs, hcount⟩ := ih h
    exact ⟨' ' :: read, by rw [hcs]; rfl, by simpa using hcount⟩
  | case2 col alt held breaks cs ih =>
    obtain ⟨read, hcs, hcount⟩ := ih h
    exact ⟨'\t' :: read, by rw [hcs]; rfl, by simpa using hcount⟩
  | case3 col alt held breaks cs ih =>
    obtain ⟨read, hcs, hcount⟩ := ih h
    exact ⟨'\x0c' :: read, by rw [hcs]; rfl, by simpa using hcount⟩
  | case4 col alt held breaks c cs ih =>
    obtain ⟨read, hcs, hcount⟩ := ih h
    refine ⟨'\\' :: '\n' :: read, by rw [hcs]; rfl, ?_⟩
    rw [hcount, List.count_cons_of_ne (by decide), List.count_cons_self]
    omega
  | case5 => cases h
  | case6 =>
    cases h
    exact ⟨[], rfl, rfl⟩

theorem moves_close (col : Nat) (blocks : List Depth) (s : Lexer) :
    s.Moves (close col blocks s).2 := by
  induction blocks generalizing s with
  | nil => exact .refl
  | cons depth outer ih =>
    obtain ⟨c, a⟩ := depth
    rw [Lexer.close]
    split
    · exact (Moves.refl.mark .dedent rfl).trans (ih _)
    · exact .refl

theorem moves_enter? {depth : Depth} (ht : s.enter? depth = some t) : s.Moves t := by
  unfold Lexer.enter? at ht
  dsimp only at ht
  split at ht
  · split at ht
    · cases ht
      exact .refl
    · cases ht
  · split at ht
    · split at ht
      · cases ht
      · cases ht
        exact (Moves.refl.mark .indent rfl).pass [] rfl rfl rfl rfl
    · split at ht
      · cases ht
        exact (moves_close depth.1 s.blocks s).pass [] rfl rfl rfl rfl
      · cases ht

/-- A step at the start of a line goes over the depth of the line. -/
theorem moves_step?_of_fresh (hclosed : Closes extra s.ahead) (hfresh : s.fresh = true)
    (ht : s.step? = some t) : s.Moves t := by
  rw [Lexer.step?, if_pos hfresh] at ht
  obtain ⟨⟨depth, held, breaks, rest⟩, hdepth, hnext⟩ := Option.bind_eq_some_iff.1 ht
  obtain ⟨read, hahead, hbreaks⟩ := lineDepth_spec hdepth
  rw [Nat.zero_add] at hbreaks
  dsimp only at hnext
  have hline : s.Moves { s with ahead := rest, line := s.line + breaks, fresh := false } :=
    Moves.refl.pass read hahead (by rw [hbreaks]) rfl rfl
  split at hnext
  · cases hnext
    -- A comment goes up to the newline, which the text ahead has for sure.
    have hcount := hline.closes hclosed [] _ _ rfl (by decide)
    obtain ⟨comment, after, hrest, hplain, hdrop⟩ :=
      dropWhile_newline (List.mem_cons_of_mem '#' (List.count_pos_iff.1 (Nat.zero_lt_of_lt hcount)))
    refine hline.pass (comment ++ ['\n']) ?_ ?_ rfl rfl
    · rw [hdrop, List.append_assoc]
      exact hrest
    · simp [List.count_eq_zero.2 hplain]
  · cases hnext
    exact hline.pass ['\n'] rfl rfl rfl rfl
  · split at hnext
    · exact hline.trans (moves_enter? hnext)
    · cases hnext
      exact hline

/-- A step within a line. -/
theorem moves_step?_of_not_fresh (hfresh : ¬ s.fresh = true) (ht : s.step? = some t) :
    s.Moves t := by
  -- In the order of the definition: blanks, comments, newlines, joined lines, tokens.
  rw [Lexer.step?, if_neg hfresh] at ht
  split at ht
  · cases ht
  rename_i c cs hahead
  split at ht
  · rename_i hblank
    cases ht
    have hc : c ≠ '\n' := fun hn => by simp [hn] at hblank
    exact Moves.refl.pass [c] hahead (by simp [hc]) rfl rfl
  split at ht
  · rename_i hcomment
    cases ht
    have hc : c ≠ '\n' := fun hn => by simp [hn] at hcomment
    obtain ⟨read, hcs, hplain⟩ := (sameLine_dropWhile (p := (· != '\n')) rfl cs).cons hc
    exact Moves.refl.pass read (hahead.trans hcs) (by simp [List.count_eq_zero.2 hplain]) rfl rfl
  split at ht
  · rename_i hnewline
    cases ht
    rw [beq_iff_eq.1 hnewline] at hahead
    split
    · exact (Moves.refl.mark .newline rfl).pass ['\n'] hahead rfl rfl rfl
    · exact Moves.refl.pass ['\n'] hahead rfl rfl rfl
  split at ht
  · rename_i hjoin
    obtain ⟨next, hnext, rfl⟩ := Option.map_eq_some_iff.1 ht
    unfold joined? at hnext
    split at hnext
    · cases hnext
      rw [beq_iff_eq.1 hjoin] at hahead
      exact Moves.refl.pass ['\\', '\n'] hahead rfl rfl rfl
    · cases hnext
  · rename_i hnewline _
    exact moves_token? (by simpa [hahead] using hnewline) ht

/-- One step of the lexer is made of moves. -/
theorem moves_step? (hclosed : Closes extra s.ahead) (ht : s.step? = some t) : s.Moves t := by
  by_cases hfresh : s.fresh = true
  · exact moves_step?_of_fresh hclosed hfresh ht
  · exact moves_step?_of_not_fresh hfresh ht

/-- A run of the lexer is made of moves. -/
theorem moves_run? {fuel : Nat} (hclosed : Closes extra s.ahead) (ht : run? fuel s = some t) :
    s.Moves t := by
  induction fuel generalizing s with
  | zero => cases ht
  | succ fuel ih =>
    rw [Lexer.run?] at ht
    split at ht
    · cases ht
      exact .refl
    · obtain ⟨u, hu, hrest⟩ := Option.bind_eq_some_iff.1 ht
      have hstep := moves_step? hclosed hu
      exact hstep.trans (ih (hstep.closes hclosed) hrest)

/-- The lexer at the head of a text. -/
def atStart (text : List Char) : Lexer := ⟨text, 1, true, [], [], 0, #[]⟩

end Lexer

theorem getLast?_endLine (cs : List Char) : (endLine cs).getLast? = some '\n' := by
  unfold endLine
  split
  · assumption
  · exact List.getLast?_concat

/-- The lexer reads the lines of the source, and perhaps an empty one behind them. -/
theorem exists_lexed_eq (source : List Char) :
    ∃ extra, lexed source = endLine (unifyNewlines source) ++ List.replicate extra '\n' ∧
      Closes extra (lexed source) := by
  have hclosed := closes_of_getLast? (getLast?_endLine (unifyNewlines source))
  unfold lexed
  split
  · exact ⟨1, rfl, hclosed.concat⟩
  · rw [List.append_nil]
    exact ⟨0, (List.append_nil _).symm, hclosed⟩

/-- An empty source has no lines, and no token with a text. -/
theorem ordered_tokens?_nil (h : tokens? [] = some ts) : Ordered 0 ts := by
  have hfinish : tokens? [] = some [⟨.finish, 2, 0⟩] := by decide
  rw [hfinish] at h
  cases h
  refine ⟨List.pairwise_singleton _ _, fun t ht => ?_⟩
  rw [List.mem_singleton.1 ht]
  exact ⟨by decide, Nat.le_refl _, by decide⟩

/-- The tokens of a source are made by moves over the text that the lexer reads. -/
theorem exists_moves_of_tokens? (h : tokens? source = some ts) :
    ∃ t, (Lexer.atStart (lexed source)).Moves t ∧ t.done.toList = ts := by
  obtain ⟨extra, -, hclosed⟩ := exists_lexed_eq source
  unfold tokens? at h
  split at h
  · cases h
  · obtain ⟨s, hs, hrest⟩ := Option.bind_eq_some_iff.1 h
    dsimp only at hrest
    split at hrest
    · cases hrest
    · cases hrest
      have hrun := Lexer.moves_run? hclosed hs
      exact ⟨_, (hrun.trans (Lexer.moves_close 0 s.blocks s)).mark .finish rfl, rfl⟩

/-- The tokens of a source are in order within as many lines as it has newlines, with one behind its
last line. -/
theorem ordered_tokens?_of_count_le {total : Nat} (h : tokens? source = some ts)
    (htotal : (endLine (unifyNewlines source)).count '\n' ≤ total) :
    Ordered total ts := by
  obtain ⟨t, hmoves, rfl⟩ := exists_moves_of_tokens? h
  obtain ⟨extra, htext, hclosed⟩ := exists_lexed_eq source
  have hstart : (Lexer.atStart (lexed source)).Sound total extra :=
    { closed := hclosed
      ahead := by
        show 1 + (lexed source).count '\n' ≤ _
        rw [htext, List.count_append, List.count_replicate_self]
        omega
      start := Nat.le_refl _
      prior := Nat.zero_le _
      passed := by simp [Lexer.atStart]
      ordered := ⟨List.Pairwise.nil, by simp [Lexer.atStart]⟩ }
  exact (hmoves.sound hstart).ordered

/-- **The tokens of a source are in order within its lines.** -/
theorem ordered_tokens? (h : tokens? source = some ts) :
    Ordered (splitBreaks source).length ts := by
  by_cases hne : source = []
  · subst hne
    exact ordered_tokens?_nil h
  · exact ordered_tokens?_of_count_le h (count_endLine_le hne)

end Grammar

end SourceAtlas
