import SourceAtlas.Proofs.DeclaredNames
import SourceAtlas.Proofs.RawLiterals

/-!
# Visibilities and parameters

The parameters of a Rust function are read from the first group in parentheses on its line or
behind it, and a visibility may have parentheses of its own. `functions_published` compares a source
with the same source in which one function gets a visibility: the same functions are found, and only
parameters may differ. On the line itself `pub` leaves them alone, but any visibility with
parentheses puts what stands in these in their place.

The two runs go side by side. A visibility is read as code without meaning for literals, comments
and blocks (`scan_quiet`), so places of the two sources agree in all that the sweeps look at
(`Near`), and the findings agree up to parameters (`Twins`).
-/

set_option autoImplicit false

namespace SourceAtlas.Rust

open Place Text

variable {scope : List Char} {c : Char}

/-! ## Declarations and visibilities -/

/-- The signs of literals, comments and blocks, and of the ends of items. -/
def signs : List Char := ['"', '\'', '/', '*', '\x7b', '\x7d', ';']

/-- Characters other than these signs. -/
def isQuiet (c : Char) : Bool := !signs.contains c

/-- Characters of the paths in visibilities. -/
def isPathChar (c : Char) : Bool := isQuiet c && !(['(', ')', ',', '\n'].contains c)

/-- The visibilities of functions. -/
inductive Visibility where
  | everywhere
  | crate
  | super
  | within (path : List Char) (isPathChar : ∀ c ∈ path, isPathChar c = true)

/-- What stands in the parentheses of a visibility. -/
def Visibility.scope? : Visibility → Option (List Char)
  | everywhere => none
  | crate => some "crate".toList
  | super => some "super".toList
  | within path _ => some ("in ".toList ++ path)

/-- The text of a visibility. -/
def Visibility.render (v : Visibility) : List Char :=
  match v.scope? with
  | none => "pub ".toList
  | some scope => "pub(".toList ++ (scope ++ ") ".toList)

/-- The text of a visibility, or nothing. -/
def shown (v : Option Visibility) : List Char := v.elim [] Visibility.render

/-- A line that declares a function. -/
structure Declaration where
  indent : List Char
  space : List Char
  name : List Char
  tail : List Char
  indent_blank : ∀ c ∈ indent, isBlank c = true
  space_blank : ∀ c ∈ space, isBlank c = true
  name_ne_nil : name ≠ []
  name_word : ∀ c ∈ name, isWordChar c = true
  tail_apart : ∀ c ∈ tail.head?, isWordChar c = false

namespace Declaration

/-- The declaration from its keyword on. -/
def item (d : Declaration) : List Char := "fn ".toList ++ (d.space ++ (d.name ++ d.tail))

/-- The line of a declaration, with a visibility or without one. -/
def line (d : Declaration) (v : Option Visibility) : Line := d.indent ++ (shown v ++ d.item)

end Declaration

/-- A line, and the same line or its declaration with a visibility. -/
inductive Published (v : Visibility) : Line → Line → Prop
  | same (l : Line) : Published v l l
  | changed (d : Declaration) : Published v (d.line none) (d.line (some v))

theorem Published.eq_or {v : Visibility} {l l' : Line} (h : Published v l l') :
    l = l' ∨ ∃ d : Declaration, l = d.line none ∧ l' = d.line (some v) := by
  cases h with
  | same l => exact .inl rfl
  | changed d => exact .inr ⟨d, rfl, rfl⟩

/-! ## Blocks -/

theorem ne_of_quiet {d : Char} (h : isQuiet c = true) (hd : d ∈ signs) : c ≠ d := by
  rintro rfl
  rw [isQuiet, List.contains_iff_mem.2 hd] at h
  cases h

theorem quiet_of_isBlank (h : isBlank c = true) : isQuiet c = true := by
  have hsigns : ∀ d ∈ signs, isBlank d = false := by decide
  rw [isQuiet, Bool.not_eq_true', ← Bool.not_eq_true, List.contains_iff_mem]
  intro hmem
  rw [hsigns c hmem] at h
  cases h

theorem Visibility.quiet (v : Visibility) : ∀ c ∈ v.render, isQuiet c = true := by
  cases v with
  | everywhere => decide
  | crate => decide
  | super => decide
  | within path hpath =>
    intro c hc
    simp only [render, scope?, List.mem_append] at hc
    rcases hc with hc | (hc | hc) | hc
    · revert c
      decide
    · revert c
      decide
    · have hchar := hpath c hc
      rw [isPathChar, Bool.and_eq_true] at hchar
      exact hchar.1
    · revert c
      decide

/-- The modes in which a line is begun. -/
inductive AtStart : Mode → Prop
  | code : AtStart .code
  | comment (depth : Nat) : AtStart (.comment depth)
  | raw (hashes : Nat) : AtStart (.raw hashes)

section Scans

variable {m m' : Mode} {b : Balance} {u text : Line}

theorem atStart_of_carry (h : carry m' = some m) : AtStart m := by
  cases m' <;> cases h <;> constructor

theorem atStart_of_carry_none (h : carry m = none) : AtStart m := by
  cases m <;> cases h
  constructor

/-- A raw literal needs a quote behind its hash signs. -/
theorem rawHashes?_quiet (hu : ∀ c ∈ u, isQuiet c = true)
    (htext : ∀ c ∈ text.head?, c ≠ '#' ∧ c ≠ '"') : rawHashes? (u ++ text) = none := by
  have hhead : ∀ c ∈ ((u ++ text).dropWhile (· == '#')).head?, c ≠ '"' := by
    induction u with
    | nil =>
      intro c hc
      cases text with
      | nil => cases hc
      | cons d more =>
        obtain ⟨hhash, hquote⟩ := htext d rfl
        simp only [List.nil_append, List.dropWhile_cons, beq_eq_false_iff_ne.2 hhash,
          Bool.false_eq_true, if_false, List.head?_cons] at hc
        exact Option.some.inj hc ▸ hquote
    | cons d u ih =>
      intro c hc
      rw [List.cons_append, List.dropWhile_cons] at hc
      split at hc
      · exact ih (List.forall_mem_cons.1 hu).2 c hc
      · exact Option.some.inj hc ▸ ne_of_quiet (hu d List.mem_cons_self) (by decide)
  -- What stands behind the hash signs is what is left without them.
  have hbehind : (u ++ text)[((u ++ text).takeWhile (· == '#')).length]? =
      ((u ++ text).dropWhile (· == '#')).head? := by
    conv_lhs => arg 1; rw [← List.takeWhile_append_dropWhile (p := (· == '#')) (l := u ++ text)]
    rw [List.getElem?_append_right (Nat.le_refl _), Nat.sub_self, List.head?_eq_getElem?]
  rw [rawHashes?, if_neg]
  rw [hbehind, beq_iff_eq]
  exact fun hc => hhead _ hc rfl

/-- What has no meaning at the beginning of a line may be left out. -/
theorem scan_quiet (hm : AtStart m) (hu : ∀ c ∈ u, isQuiet c = true)
    (htext : ∀ c ∈ text.head?, c ≠ '#' ∧ c ≠ '"') :
    lexis.scan m b (u ++ text) = lexis.scan m b text := by
  induction u with
  | nil => rfl
  | cons c u ih =>
    have hraw : rawHashes? (u ++ text) = none :=
      rawHashes?_quiet (List.forall_mem_cons.1 hu).2 htext
    have hne : ∀ {d}, d ∈ signs → c ≠ d := ne_of_quiet (hu c List.mem_cons_self)
    have hquote : c ≠ '"' := hne (by decide)
    have hslash : c ≠ '/' := hne (by decide)
    have hstar : c ≠ '*' := hne (by decide)
    rw [List.cons_append, ← ih (List.forall_mem_cons.1 hu).2]
    cases hm with
    | code =>
      have happos : c ≠ '\'' := hne (by decide)
      have hread : lexis.read .code c (u ++ text) = .code .code := by
        simp [lexis, read, hslash, hquote, happos, hraw]
      have hstep : b.step c = some b := by
        have hopen : c ≠ '\x7b' := hne (by decide)
        have hclose : c ≠ '\x7d' := hne (by decide)
        simp [Balance.step, hopen, hclose]
      rw [Lexis.scan, hread]
      dsimp only
      rw [hstep]
    | comment depth => simp [Lexis.scan, lexis, read, hslash, hstar]
    | raw hashes => simp [Lexis.scan, lexis, read, hquote]

variable {v : Visibility} {l l' : Line} {lines lines' : List Line}

theorem Published.scan (h : Published v l l') (hm : AtStart m) :
    lexis.scan m b l = lexis.scan m b l' := by
  cases h with
  | same l => rfl
  | changed d =>
    have hitem : ∀ c ∈ d.item.head?, c ≠ '#' ∧ c ≠ '"' := by
      rintro c ⟨⟩
      decide
    have hline : ∀ o : Option Visibility, lexis.scan m b (d.line o) = lexis.scan m b d.item := by
      intro o
      rw [Declaration.line, ← List.append_assoc]
      apply scan_quiet hm _ hitem
      intro c hc
      rcases List.mem_append.1 hc with hc | hc
      · exact quiet_of_isBlank (d.indent_blank c hc)
      · cases o with
        | none => cases hc
        | some v => exact v.quiet c hc
    rw [hline, hline]

theorem Published.contains (h : Published v l l') (hc : c ∈ signs) :
    l.contains c = l'.contains c := by
  cases h with
  | same l => rfl
  | changed d =>
    have hrender : c ∉ v.render := fun hmem => ne_of_quiet (v.quiet c hmem) hc rfl
    rw [Bool.eq_iff_iff, List.contains_iff_mem, List.contains_iff_mem]
    simp [Declaration.line, shown, hrender]

theorem passage_published (h : List.Forall₂ (Published v) lines lines') (hm : AtStart m)
    (distance : Nat) : lexis.passage m b distance lines = lexis.passage m b distance lines' := by
  induction h generalizing m b distance with
  | nil => rfl
  | cons hline _ ih =>
    rw [Lexis.passage, Lexis.passage, hline.scan hm]
    split
    · rfl
    · split
      · rfl
      · rename_i hcarry
        exact ih (atStart_of_carry_none hcarry) _

/-- Blocks end on the same lines. -/
theorem closingFrom?_published (h : List.Forall₂ (Published v) lines lines') (hm : AtStart m) :
    lexis.closingFrom? m b lines = lexis.closingFrom? m b lines' := by
  induction h generalizing m b with
  | nil => rfl
  | cons hline hrest ih =>
    rw [Lexis.closingFrom?, Lexis.closingFrom?, passage_published (.cons hline hrest) hm]
    split
    · rfl
    · rfl
    · rename_i hpassage
      obtain ⟨m₀, hcarry⟩ := Lexis.carry_of_passage_next hpassage
      rw [ih (atStart_of_carry hcarry)]

end Scans

/-! ## Heads of lines -/

namespace Declaration

variable (d : Declaration)

theorem tail_trimRight_apart : ∀ c ∈ (trimRight d.tail).head?, isWordChar c = false := by
  have hcut : d.tail = trimRight d.tail ++ (d.tail.reverse.takeWhile isBlank).reverse := by
    rw [trimRight, dropEndWhile, ← List.reverse_append, List.takeWhile_append_dropWhile,
      List.reverse_reverse]
  intro c hc
  apply d.tail_apart
  rw [hcut, List.head?_append, Option.mem_def.1 hc]
  rfl

/-- The declaration without blanks at its ends. -/
def trimmed : Declaration :=
  { d with indent := [], tail := trimRight d.tail, indent_blank := by simp
           tail_apart := d.tail_trimRight_apart }

/-- A line without blanks at its ends: the indent goes, and blanks behind the name. -/
theorem trim_append (shown : List Char) (hshown : ∀ c ∈ shown.head?, isBlank c = false) :
    trim (d.indent ++ (shown ++ d.item)) = shown ++ d.trimmed.item := by
  have hhead : ∃ c ∈ (shown ++ d.item).head?, isBlank c = false := by
    cases shown with
    | nil => exact ⟨'f', rfl, by decide⟩
    | cons c shown => exact ⟨c, rfl, hshown c rfl⟩
  have hindent : trimLeft d.indent = [] := List.dropWhile_eq_nil_iff.2 d.indent_blank
  have hlast : ∃ c ∈ (shown ++ "fn ".toList ++ d.space ++ d.name).getLast?,
      isBlank c = false := by
    refine ⟨d.name.getLast d.name_ne_nil, ?_, not_isBlank_of_isWordChar
      (d.name_word _ (List.getLast_mem d.name_ne_nil))⟩
    rw [List.getLast?_append, List.getLast?_eq_some_getLast d.name_ne_nil]
    rfl
  have hitem : shown ++ d.item = shown ++ "fn ".toList ++ d.space ++ d.name ++ d.tail := by
    simp [item]
  rw [trim, trimLeft_append_of_head hhead, hindent, List.nil_append, hitem,
    trimRight_append_of_last hlast]
  simp [item, trimmed]

end Declaration

theorem not_mem_path {path : List Char} (h : ∀ c ∈ path, isPathChar c = true)
    (hc : isPathChar c = false) : c ∉ path := by
  intro hmem
  rw [h c hmem] at hc
  cases hc

theorem Visibility.scope_apart (v : Visibility) (h : v.scope? = some scope) :
    ')' ∉ scope ∧ '(' ∉ scope := by
  cases v with
  | everywhere => cases h
  | crate | super =>
    cases h
    decide
  | within path hpath =>
    cases h
    simp only [List.mem_append, not_or]
    exact ⟨⟨by decide, not_mem_path hpath (by decide)⟩, by decide, not_mem_path hpath (by decide)⟩

/-- What a visibility looks like. -/
theorem Visibility.render_or (v : Visibility) :
    v.render = "pub ".toList ∨
      ∃ scope, ')' ∉ scope ∧ v.render = "pub(".toList ++ (scope ++ ") ".toList) := by
  rw [render]
  cases hscope : v.scope? with
  | none => exact .inl rfl
  | some scope => exact .inr ⟨scope, (v.scope_apart hscope).1, rfl⟩

theorem head?_shown_append (v : Option Visibility) {text : List Char}
    (htext : text.head? = some 'f') :
    (shown v ++ text).head? = some 'f' ∨ (shown v ++ text).head? = some 'p' := by
  cases v with
  | none => exact .inl htext
  | some v =>
    right
    rcases v.render_or with h | ⟨scope, -, h⟩ <;> rw [shown, Option.elim_some, h] <;> rfl

theorem Visibility.newline_not_mem (v : Visibility) : '\n' ∉ v.render := by
  cases v with
  | everywhere => decide
  | crate => decide
  | super => decide
  | within path hpath =>
    simp only [render, scope?, List.mem_append, not_or]
    exact ⟨by decide, ⟨by decide, not_mem_path hpath (by decide)⟩, by decide⟩

/-- A line of a declaration without blanks at its ends. -/
theorem Declaration.trim_line (d : Declaration) (v : Option Visibility) :
    trim (d.line v) = shown v ++ d.trimmed.item := by
  apply d.trim_append
  cases v with
  | none => simp [shown]
  | some v =>
    rcases v.render_or with h | ⟨scope, -, h⟩ <;> rw [shown, Option.elim_some, h] <;>
      rintro c ⟨⟩ <;> decide

section Patterns

open Pattern

variable {q : Pattern} {text : List Char} {v : Option Visibility}

theorem takesOnly_space (htext : text.head? = some 'f') : gap.TakesOnly [' '] text := by
  apply takesOnly_gap_single (by decide)
  rw [htext]
  rintro c ⟨⟩
  decide

/-- The word `pub` without parentheses. -/
theorem takesOnly_pub (htext : text.head? = some 'f') :
    (exactly "pub" ++ maybe (exactly "(" ++ many (noneOf ")") ++ exactly ")") ++ gap).TakesOnly
      ("pub".toList ++ [] ++ [' ']) text := by
  have hopen : (exactly "(" ++ many (noneOf ")") ++ exactly ")").Fails ([' '] ++ text) := by
    apply Fails.seq
    apply Fails.seq
    exact fails_exactly (c := '(') rfl (by simp)
  exact ((takesOnly_exactly "pub" _).seq (v := []) (takesOnly_maybe hopen)).seq
    (takesOnly_space htext)

theorem takes_scoped (hscope : ')' ∉ scope) (htext : text.head? = some 'f') :
    (exactly "pub" ++ maybe (exactly "(" ++ many (noneOf ")") ++ exactly ")") ++ gap).Takes
      ("pub".toList ++ ("(".toList ++ scope ++ ")".toList) ++ [' ']) text [] := by
  have hlist : (exactly "(" ++ many (noneOf ")") ++ exactly ")").Takes
      ("(".toList ++ scope ++ ")".toList) ([' '] ++ text) [] :=
    ((takesOnly_exactly "(" _).takes.seq (takes_upTo rfl hscope)).seq
      (takesOnly_exactly ")" _).takes
  exact ((takesOnly_exactly "pub" _).takes.seq hlist.maybe).seq
    (takesOnly_space htext).takes

theorem takes_visibility (htext : text.head? = some 'f') :
    visibility.Takes (shown v) text [] := by
  cases v with
  | none =>
    apply (takesOnly_maybe _).takes
    apply Fails.seq
    apply Fails.seq
    exact fails_exactly (c := 'p') rfl (by simp [htext])
  | some v =>
    rcases v.render_or with hrender | ⟨scope, hscope, hrender⟩
    · rw [shown, Option.elim_some, hrender]
      exact (takesOnly_pub htext).takes.maybe
    · have hpieces : "pub(".toList ++ (scope ++ ") ".toList) =
          "pub".toList ++ ("(".toList ++ scope ++ ")".toList) ++ [' '] := by simp
      rw [shown, Option.elim_some, hrender, hpieces]
      exact (takes_scoped hscope htext).maybe

/-- Behind parentheses, and without them, what fails at the keyword fails. -/
theorem fails_scoped (hscope : ')' ∉ scope) (htext : text.head? = some 'f') (hq : q.Fails text) :
    (exactly "pub" ++ maybe (exactly "(" ++ many (noneOf ")") ++ exactly ")") ++ gap ++ q).Fails
      ("pub".toList ++ ("(".toList ++ (scope ++ (")".toList ++ ([' '] ++ text))))) := by
  have hclose : (exactly ")" ++ (gap ++ q)).Fails (")".toList ++ ([' '] ++ text)) :=
    (takesOnly_exactly ")" _).fails_seq ((takesOnly_space htext).fails_seq hq)
  have hmany : (many (noneOf ")") ++ (exactly ")" ++ (gap ++ q))).Fails
      (scope ++ (")".toList ++ ([' '] ++ text))) := by
    -- Wherever the run stops, it stops inside the parentheses or at their end.
    apply fails_many_seq
    intro u t hcut hu
    have hfree : ')' ∉ u := by
      intro hmem
      have hin := hu _ hmem
      revert hin
      decide
    rcases List.append_eq_append_iff.1 hcut with ⟨more, rfl, hmore⟩ | ⟨more, rfl, rfl⟩
    · cases more with
      | nil =>
        rw [List.nil_append] at hmore
        rwa [← hmore]
      | cons c more =>
        have hc : ')' = c := (List.cons.inj hmore).1
        simp [← hc] at hfree
    · cases more with
      | nil => exact hclose
      | cons c more =>
        apply Fails.seq
        apply fails_exactly (c := ')') rfl
        rintro ⟨⟩
        simp at hscope
  have hwith : (exactly "(" ++ (many (noneOf ")") ++ (exactly ")" ++ (gap ++ q)))).Fails
      ("(".toList ++ (scope ++ (")".toList ++ ([' '] ++ text)))) :=
    (takesOnly_exactly "(" _).fails_seq hmany
  -- Without the parentheses there would have to be a gap behind `pub`.
  have hwithout : (gap ++ q).Fails ("(".toList ++ (scope ++ (")".toList ++ ([' '] ++ text)))) := by
    apply Fails.seq
    apply fails_gap
    rintro c ⟨⟩
    decide
  have hmaybe : (maybe (exactly "(" ++ many (noneOf ")") ++ exactly ")") ++ (gap ++ q)).Fails
      ("(".toList ++ (scope ++ (")".toList ++ ([' '] ++ text)))) :=
    fails_maybe_seq hwith.assoc.assoc hwithout
  exact ((takesOnly_exactly "pub" _).fails_seq hmaybe).assoc.assoc

/-- Behind a visibility or without one, what fails at the keyword fails. -/
theorem fails_visibility (htext : text.head? = some 'f') (hq : ∀ {t : List Char},
    t.head? = some 'f' ∨ t.head? = some 'p' → q.Fails t) :
    (blanks ++ visibility ++ q).Fails (shown v ++ text) := by
  have hhead := head?_shown_append v htext
  have hblanks : blanks.TakesOnly [] (shown v ++ text) := by
    apply takesOnly_blanks_nil
    rcases hhead with hhead | hhead <;> rw [hhead] <;> rintro c ⟨⟩ <;> decide
  apply Fails.assoc
  apply hblanks.fails_seq
  apply fails_maybe_seq _ (hq hhead)
  cases v with
  | none =>
    iterate 3 apply Fails.seq
    exact fails_exactly (c := 'p') rfl (by simp [shown, htext])
  | some v =>
    rcases v.render_or with hrender | ⟨scope, hscope, hrender⟩
    · rw [shown, Option.elim_some, hrender]
      exact (takesOnly_pub htext).fails_seq (hq (.inl htext))
    · have hpieces : "pub(".toList ++ (scope ++ ") ".toList) ++ text =
          "pub".toList ++ ("(".toList ++ (scope ++ (")".toList ++ ([' '] ++ text)))) := by simp
      rw [shown, Option.elim_some, hrender, hpieces]
      exact fails_scoped hscope htext (hq (.inl htext))

theorem fails_keyword {t : String} {cs : List Char} (ht : t.toList = c :: cs) (hf : 'f' ≠ c)
    (hp : 'p' ≠ c) {text : List Char} (htext : text.head? = some 'f' ∨ text.head? = some 'p') :
    (exactly t).Fails text := by
  apply fails_exactly ht
  rcases htext with htext | htext <;> rw [htext]
  · exact fun h => hf (Option.some.inj h)
  · exact fun h => hp (Option.some.inj h)

/-- A function is no other item. -/
theorem fails_items (v : Option Visibility) (htext : text.head? = some 'f') :
    rulesPattern.atHead? (shown v ++ text) = none ∧
      structPattern.atHead? (shown v ++ text) = none ∧
      enumPattern.atHead? (shown v ++ text) = none ∧ trait? (shown v ++ text) = none := by
  have htrait : traitHead.Fails (shown v ++ text) := by
    apply Fails.seq
    apply Fails.seq
    apply Fails.assoc
    apply fails_visibility htext
    intro t ht
    have hunsafe : (maybe (exactly "unsafe" ++ gap)).TakesOnly [] t := by
      apply takesOnly_maybe
      apply Fails.seq
      exact fails_keyword (c := 'u') rfl (by decide) (by decide) ht
    exact hunsafe.fails_seq (fails_keyword (c := 't') rfl (by decide) (by decide) ht)
  refine ⟨Fails.atHead? ?_, Fails.atHead? ?_, Fails.atHead? ?_, ?_⟩
  · apply Fails.seq
    apply Fails.seq
    exact fails_visibility htext (fails_keyword (c := 'm') rfl (by decide) (by decide))
  · apply Fails.seq
    apply Fails.seq
    exact fails_visibility htext (fails_keyword (c := 's') rfl (by decide) (by decide))
  · apply Fails.seq
    apply Fails.seq
    exact fails_visibility htext (fails_keyword (c := 'e') rfl (by decide) (by decide))
  · have hfirst : traitPattern.Fails (shown v ++ text) := ((htrait.seq _).seq _).seq _
    have hsecond : looseTraitPattern.Fails (shown v ++ text) := ((htrait.seq _).seq _).seq _
    rw [trait?, hfirst.atHead?, hsecond.atHead?]
    rfl

/-- The name of a function is found behind a visibility as without one. -/
theorem functionPattern_item (v : Option Visibility) (d : Declaration) :
    ∃ m, functionPattern.atHead? (shown v ++ d.item) = some m ∧ m.groups = [(1, d.name)] := by
  have hhead : d.item.head? = some 'f' := rfl
  have hblanks : blanks.TakesOnly [] (shown v ++ d.item) := by
    apply takesOnly_blanks_nil
    rcases head?_shown_append v hhead with hhead | hhead <;> rw [hhead] <;> rintro c ⟨⟩ <;> decide
  have hword : (Pattern.group 1 word).Takes d.name d.tail [(1, d.name)] :=
    (takes_word d.name_ne_nil d.name_word d.tail_apart).group 1
  have hgap : gap.Takes (' ' :: d.space) (d.name ++ d.tail) [] := by
    apply takes_gap (by simp)
    · intro c hc
      rcases List.mem_cons.1 hc with rfl | hc
      · decide
      · exact d.space_blank c hc
    · intro c hc
      obtain ⟨e, name, hname⟩ := List.exists_cons_of_ne_nil d.name_ne_nil
      rw [hname] at hc
      cases hc
      exact not_isBlank_of_isWordChar (d.name_word c (by simp [hname]))
  -- An item starts with its keyword, so none of the optional words before it is read.
  have hfails : ∀ {t : String} {c : Char} {cs : List Char}, t.toList = c :: cs → 'f' ≠ c →
      'p' ≠ c → (exactly t).Fails d.item := fun ht hf hp => fails_keyword ht hf hp (.inl hhead)
  have hasync : (maybe (exactly "async" ++ gap)).TakesOnly [] d.item :=
    takesOnly_maybe ((hfails (c := 'a') rfl (by decide) (by decide)).seq _)
  have hconst : (maybe (exactly "const" ++ gap)).TakesOnly [] d.item :=
    takesOnly_maybe ((hfails (c := 'c') rfl (by decide) (by decide)).seq _)
  have hunsafe : (maybe (exactly "unsafe" ++ gap)).TakesOnly [] d.item :=
    takesOnly_maybe ((hfails (c := 'u') rfl (by decide) (by decide)).seq _)
  have hextern : (maybe (exactly "extern" ++ gap ++ exactly "\"" ++ many (noneOf "\"") ++
      exactly "\"" ++ gap)).TakesOnly [] d.item := by
    apply takesOnly_maybe
    iterate 5 apply Fails.seq
    exact hfails (c := 'e') rfl (by decide) (by decide)
  have hitem : d.item = "fn".toList ++ ((' ' :: d.space) ++ (d.name ++ d.tail)) := by
    simp [Declaration.item]
  rw [hitem] at hasync hconst hunsafe hextern
  have hvisible : visibility.Takes (shown v) ("fn".toList ++ ((' ' :: d.space) ++
      (d.name ++ d.tail))) [] := takes_visibility rfl
  rw [hitem] at hblanks ⊢
  have hfront := (((((hblanks.takes.seq hvisible).seq (v := []) hasync.takes).seq (v := [])
    hconst.takes).seq (v := []) hunsafe.takes).seq (v := []) hextern.takes)
  have hall := ((hfront.seq (takesOnly_exactly "fn" _).takes).seq hgap).seq hword
  exact Takes.atHead? hall (by simp)

/-- A function is no implementation block. -/
theorem not_startsBlock (v : Option Visibility) (d : Declaration) :
    implPattern.atHead? (withoutPub (shown v ++ d.item)) = none := by
  have hfails : ∀ {text : List Char}, text.head? = some 'f' ∨ text.head? = some 'p' →
      implPattern.Fails text := by
    intro text htext
    have hblanks : blanks.TakesOnly [] text := by
      apply takesOnly_blanks_nil
      rcases htext with htext | htext <;> rw [htext] <;> rintro c ⟨⟩ <;> decide
    iterate 4 apply Fails.seq
    exact hblanks.fails_seq (fails_keyword (c := 'i') rfl (by decide) (by decide) htext)
  apply Fails.atHead?
  apply hfails
  rw [withoutPub]
  cases hafter : after? "pub ".toList (shown v ++ d.item) with
  | none => exact head?_shown_append v rfl
  | some rest =>
    rw [after?_eq_some_iff] at hafter
    have htrim : (trim d.item).head? = some 'f' := by
      have htrimmed := { d with indent := [], indent_blank := by simp }.trim_append [] (by simp)
      rw [List.nil_append, List.nil_append, List.nil_append] at htrimmed
      exact congrArg List.head? htrimmed
    left
    cases v with
    | none => cases hafter
    | some v =>
      rcases v.render_or with hrender | ⟨scope, -, hrender⟩ <;>
        rw [shown, Option.elim_some, hrender] at hafter
      · rw [← List.append_cancel_left hafter]
        exact htrim
      · cases hafter

end Patterns

/-! ## Places in two sources -/

section Places

variable {v : Visibility} {lines lines' : List Line} {p p' : Place}

/-- Places of two sources that differ in visibilities. -/
structure Near (v : Visibility) (lines lines' : List Line) (p p' : Place) : Prop where
  lines_eq : p.before.reverse ++ p.onward = lines
  lines_eq' : p'.before.reverse ++ p'.onward = lines'
  index_eq : p.index = p.before.length
  index : p.index = p'.index
  before : List.Forall₂ (Published v) p.before p'.before
  line : Published v p.line p'.line
  after : List.Forall₂ (Published v) p.after p'.after

theorem near_allFrom (before before' : List Line) {ls ls' : List Line}
    (hlines : before.reverse ++ ls = lines) (hlines' : before'.reverse ++ ls' = lines')
    (hbefore : List.Forall₂ (Published v) before before')
    (h : List.Forall₂ (Published v) ls ls') :
    List.Forall₂ (Near v lines lines') (allFrom before.length before ls)
      (allFrom before.length before' ls') := by
  induction h generalizing before before' with
  | nil => exact .nil
  | cons hline hrest ih =>
    rename_i l l' ls ls'
    refine .cons ⟨hlines, hlines', rfl, rfl, hbefore, hline, hrest⟩ ?_
    exact ih (l :: before) (l' :: before') (by simpa using hlines) (by simpa using hlines')
      (.cons hline hbefore)

namespace Near

variable (h : Near v lines lines' p p')
include h

theorem following :
    List.Forall₂ (Near v lines lines') p.following p'.following := by
  rw [Place.following, Place.following, ← h.index, h.index_eq]
  have hlines := h.lines_eq
  have hlines' := h.lines_eq'
  exact near_allFrom (p.line :: p.before) (p'.line :: p'.before)
    (by simpa [onward] using hlines) (by simpa [onward] using hlines')
    (.cons h.line h.before) h.after

theorem opensSoon : p.opensSoon = p'.opensSoon := by
  have hnext : ∀ {ls ls' : List Line}, List.Forall₂ (Published v) ls ls' →
      ls.head?.any (·.contains '\x7b') = ls'.head?.any (·.contains '\x7b') := by
    intro ls ls' hls
    cases hls with
    | nil => rfl
    | cons hline _ => exact hline.contains (by decide)
  rw [Place.opensSoon, Place.opensSoon, Place.has, Place.has, h.line.contains (by decide),
    hnext h.after]

theorem extent : lexis.extent p = lexis.extent p' := by
  have hclosing : lexis.closingFrom? lexis.fresh .start p.onward =
      lexis.closingFrom? lexis.fresh .start p'.onward :=
    closingFrom?_published (.cons h.line h.after) .code
  rw [Lexis.extent, Lexis.extent, Lexis.closing?, Lexis.closing?, hclosing, h.after.length_eq]

theorem extentOr (otherwise : Nat) :
    extentOr p otherwise = extentOr p' otherwise := by
  rw [Rust.extentOr, Rust.extentOr, h.opensSoon, h.extent]

theorem distance? :
    p.distance? (·.contains ';') = p'.distance? (·.contains ';') := by
  have hfind : ∀ {ls ls' : List Line}, List.Forall₂ (Published v) ls ls' →
      ls.findIdx? (·.contains ';') = ls'.findIdx? (·.contains ';') := by
    intro ls ls' hls
    induction hls with
    | nil => rfl
    | cons hline _ ih => rw [List.findIdx?_cons, List.findIdx?_cons, hline.contains (by decide), ih]
  exact hfind (.cons h.line h.after)

theorem semicolonExtent :
    semicolonExtent p = semicolonExtent p' := by
  rw [Rust.semicolonExtent, Rust.semicolonExtent, h.distance?]

theorem useExtent : useExtent p = useExtent p' := by
  rw [Rust.useExtent, Rust.useExtent, Place.has, Place.has, h.line.contains (by decide),
    h.distance?, h.after.length_eq]

theorem spanOf (extent : Nat) :
    spanOf p extent = spanOf p' extent := by
  rw [SourceAtlas.spanOf, SourceAtlas.spanOf, h.index]

/-- A declaration of a function is no comment and no attribute. -/
theorem preamble :
    preamble isAttribute p = preamble isAttribute p' := by
  have hstop : ∀ (o : Option Visibility) (d : Declaration), (isDocumentation (shown o ++ d.item) ||
      isAttribute (shown o ++ d.item)) = false := by
    intro o d
    cases o with
    | none => rfl
    | some v =>
      rcases v.render_or with h | ⟨scope, -, h⟩ <;> rw [shown, Option.elim_some, h] <;> rfl
  have htake : ∀ {ls ls' : List Line}, List.Forall₂ (Published v) ls ls' →
      (ls.map trim).takeWhile (fun l => isDocumentation l || isAttribute l) =
        (ls'.map trim).takeWhile (fun l => isDocumentation l || isAttribute l) := by
    intro ls ls' hls
    induction hls with
    | nil => rfl
    | cons hline _ ih =>
      cases hline with
      | same l => rw [List.map_cons, List.map_cons, List.takeWhile_cons, List.takeWhile_cons, ih]
      -- Both runs stop at a declaration, so what stands above it does not matter.
      | changed d =>
        rw [List.map_cons, List.map_cons, d.trim_line, d.trim_line, List.takeWhile_cons,
          List.takeWhile_cons, hstop, hstop]
        rfl
  rw [SourceAtlas.preamble, SourceAtlas.preamble, htake h.before]

theorem attributes : attributes p = attributes p' := by
  rw [Rust.attributes, Rust.attributes, h.preamble]

theorem documentation? : documentation? p = documentation? p' := by
  rw [Rust.documentation?, Rust.documentation?, h.preamble]

/-- The lines are the same, or a declaration without a visibility and with one. -/
theorem line_or :
    p.line = p'.line ∨ ∃ d : Declaration, p.stripped = shown none ++ d.item ∧
      p'.stripped = shown (some v) ++ d.item := by
  rcases h.line.eq_or with hline | ⟨d, hline, hline'⟩
  · exact .inl hline
  · refine .inr ⟨d.trimmed, ?_, ?_⟩
    · rw [stripped, hline, d.trim_line]
    · rw [stripped, hline', d.trim_line]

end Near

end Places

/-! ## Sweeps over two sources -/

section Twins

variable {v : Visibility} {lines lines' : List Line} {p p' : Place} {found found' : Findings}

/-- Functions that are found on the same line and agree up to their parameters. Where the line is
changed, these are read from the two lines. -/
def Twin (v : Visibility) (lines lines' : List Line) (f g : Callable) : Prop :=
  g = { f with parameters := g.parameters } ∧
    ∃ p p', Near v lines lines' p p' ∧ f.span.first = p.index + 1 ∧
      (p.line = p'.line ∨ f.parameters = parametersAt p ∧ g.parameters = parametersAt p')

/-- Findings that agree up to parameters. -/
structure Twins (v : Visibility) (lines lines' : List Line) (found found' : Findings) : Prop where
  functions : List.Forall₂ (Twin v lines lines') found.functions found'.functions
  covered : found.covered = found'.covered

/-- The function on two lines that belong together. -/
theorem functionPattern_near (h : Near v lines lines' p p') :
    functionPattern.atHead? p.stripped = none ∧ functionPattern.atHead? p'.stripped = none ∨
      ∃ m m', functionPattern.atHead? p.stripped = some m ∧
        functionPattern.atHead? p'.stripped = some m' ∧ groupString m 1 = groupString m' 1 := by
  rcases h.line_or with hline | ⟨d, hd, hd'⟩
  · rw [stripped, stripped, ← hline]
    cases functionPattern.atHead? (trim p.line) with
    | none => exact .inl ⟨rfl, rfl⟩
    | some m => exact .inr ⟨m, m, rfl, rfl, rfl⟩
  · obtain ⟨m, hm, hgroups⟩ := functionPattern_item none d
    obtain ⟨m', hm', hgroups'⟩ := functionPattern_item (some v) d
    rw [hd, hd']
    refine .inr ⟨m, m', hm, hm', ?_⟩
    rw [groupString, groupString, groupText, groupText, Cursor.group?, Cursor.group?, hgroups,
      hgroups']

namespace Twins

variable (h : Twins v lines lines' found found')
include h

theorem addMethod {f g : Callable} (hfg : Twin v lines lines' f g) (range : Nat × Nat) :
    Twins v lines lines' (found.addMethod f range) (found'.addMethod g range) where
  functions := List.rel_append h.functions (.cons hfg .nil)
  covered := congrArg (range :: ·) h.covered

theorem addFunction {f g : Callable} (hfg : Twin v lines lines' f g) :
    Twins v lines lines' (found.addFunction f) (found'.addFunction g) where
  functions := List.rel_append h.functions (.cons hfg .nil)
  covered := h.covered

theorem addClass (name : String) (extent : Nat) (bases : List String) {own own' : List Callable}
    (hown : List.Forall₂ (Twin v lines lines') own own') :
    Twins v lines lines' (found.addClass p name extent bases own)
      (found'.addClass p' name extent bases own') where
  functions := List.rel_append h.functions hown
  covered := h.covered

theorem methodStep (hp : Near v lines lines' p p') (traitName : Option String) (typeName : String) :
    Twins v lines lines' (methodStep traitName typeName found p)
      (methodStep traitName typeName found' p') := by
  rw [Rust.methodStep, Rust.methodStep, ← h.covered, ← hp.index]
  split
  · exact h
  · rcases functionPattern_near hp with ⟨hnone, hnone'⟩ | ⟨m, m', hm, hm', hname⟩
    · rw [hnone, hnone']
      exact h
    · rw [hm, hm']
      dsimp only
      rw [← hp.extentOr, ← hp.attributes, ← hp.documentation?, ← hname, ← hp.spanOf]
      exact h.addMethod ⟨rfl, p, p', hp, rfl, .inr ⟨rfl, rfl⟩⟩ _

theorem foldl_methodStep {qs qs' : List Place} (hqs : List.Forall₂ (Near v lines lines') qs qs')
    (traitName : Option String) (typeName : String) :
    Twins v lines lines' (qs.foldl (Rust.methodStep traitName typeName) found)
      (qs'.foldl (Rust.methodStep traitName typeName) found') := by
  induction hqs generalizing found found' with
  | nil => exact h
  | cons hq _ ih => exact ih (h.methodStep hq traitName typeName)

end Twins

/-- Two visits find the same up to parameters, and cover the same lines. -/
def Match (v : Visibility) (lines lines' : List Line) (a b : Findings × Nat) : Prop :=
  Twins v lines lines' a.1 b.1 ∧ a.2 = b.2

/-- A declaration of a function starts no block, whatever it returns. -/
theorem implStep_declaration {o : Option Visibility} {d : Declaration}
    (h : p.stripped = shown o ++ d.item) (found : Findings) : implStep found p = (found, 0) := by
  rw [implStep, h, not_startsBlock]
  split <;> rfl

theorem implStep_near (h : Twins v lines lines' found found') (hp : Near v lines lines' p p') :
    Match v lines lines' (implStep found p) (implStep found' p') := by
  rcases hp.line_or with hline | ⟨d, hd, hd'⟩
  · have hstripped : p'.stripped = p.stripped := by rw [stripped, stripped, hline]
    rw [implStep, implStep, hstripped, ← hp.opensSoon, ← hp.extent]
    split
    · split
      · exact ⟨h, rfl⟩
      · rename_i m hm
        have hinside := List.forall₂_take (lexis.extent p - 1) hp.following
        have hafter := h.foldl_methodStep hinside ((m.group? 1).map String.ofList) (groupString m 2)
        rw [← hp.index]
        exact ⟨⟨hafter.functions, congrArg (_ :: ·) hafter.covered⟩, rfl⟩
    · exact ⟨h, rfl⟩
  · rw [implStep_declaration hd, implStep_declaration hd']
    exact ⟨h, rfl⟩

theorem filterMap_traitMethod? {qs qs' : List Place}
    (hqs : List.Forall₂ (Near v lines lines') qs qs') (traitName : String) :
    List.Forall₂ (Twin v lines lines') (qs.filterMap (traitMethod? traitName))
      (qs'.filterMap (traitMethod? traitName)) := by
  induction hqs with
  | nil => exact .nil
  | cons hq _ ih =>
    rw [List.filterMap_cons, List.filterMap_cons, traitMethod?, traitMethod?]
    rcases functionPattern_near hq with ⟨hnone, hnone'⟩ | ⟨m, m', hm, hm', hname⟩
    · rw [hnone, hnone']
      exact ih
    · rw [hm, hm', Option.map_some, Option.map_some, ← hq.semicolonExtent, ← hq.extentOr, ← hname,
        ← hq.spanOf]
      exact .cons ⟨rfl, _, _, hq, rfl, .inr ⟨rfl, rfl⟩⟩ ih

theorem itemAt_eq_functionAt (hrules : rulesPattern.atHead? p.stripped = none)
    (hstruct : structPattern.atHead? p.stripped = none)
    (henum : enumPattern.atHead? p.stripped = none) (htrait : trait? p.stripped = none) :
    itemAt found p = functionAt found p := by
  rw [itemAt, hrules, hstruct, henum, htrait]

section

variable (h : Twins v lines lines' found found')
include h

theorem functionAt_near (hp : Near v lines lines' p p') :
    Match v lines lines' (functionAt found p) (functionAt found' p') := by
  rw [functionAt, functionAt]
  rcases functionPattern_near hp with ⟨hnone, hnone'⟩ | ⟨m, m', hm, hm', hname⟩
  · rw [hnone, hnone']
    exact ⟨h, rfl⟩
  · rw [hm, hm']
    dsimp only
    rw [← hp.semicolonExtent, ← hp.extentOr, ← hp.attributes, ← hp.documentation?, ← hname,
      ← hp.spanOf]
    exact ⟨h.addFunction ⟨rfl, p, p', hp, rfl, .inr ⟨rfl, rfl⟩⟩, rfl⟩

/-- The items on two lines that are the same. -/
theorem itemAt_same (hp : Near v lines lines' p p') (hline : p.line = p'.line) :
    Match v lines lines' (itemAt found p) (itemAt found' p') := by
  have hstripped : p'.stripped = p.stripped := by rw [stripped, stripped, hline]
  -- The items are tried in the order of the definition, and functions come last.
  cases hrules : rulesPattern.atHead? p.stripped with
  | some m =>
    rw [itemAt, itemAt, hstripped, hrules]
    dsimp only
    rw [← hp.extentOr, ← hp.attributes, ← hp.documentation?, ← hp.spanOf]
    exact ⟨h.addFunction ⟨rfl, p, p', hp, rfl, .inl hline⟩, rfl⟩
  | none =>
  cases hstruct : structPattern.atHead? p.stripped with
  | some m =>
    rw [itemAt, itemAt, hstripped, hrules, hstruct]
    dsimp only
    rw [← hp.extentOr, ← hp.semicolonExtent, Place.has, Place.has, hline]
    exact ⟨h.addClass _ _ _ .nil, rfl⟩
  | none =>
  cases henum : enumPattern.atHead? p.stripped with
  | some m =>
    rw [itemAt, itemAt, hstripped, hrules, hstruct, henum]
    dsimp only
    rw [← hp.extentOr]
    exact ⟨h.addClass _ _ _ .nil, rfl⟩
  | none =>
  cases htrait : trait? p.stripped with
  | some m =>
    rw [itemAt, itemAt, hstripped, hrules, hstruct, henum, htrait]
    dsimp only
    rw [← hp.extentOr]
    exact ⟨h.addClass _ _ _ (filterMap_traitMethod? (List.forall₂_take _ hp.following) _), rfl⟩
  | none =>
    rw [itemAt_eq_functionAt hrules hstruct henum htrait]
    rw [← hstripped] at hrules hstruct henum htrait
    rw [itemAt_eq_functionAt hrules hstruct henum htrait]
    exact functionAt_near h hp

theorem itemAt_near (hp : Near v lines lines' p p') :
    Match v lines lines' (itemAt found p) (itemAt found' p') := by
  rcases hp.line_or with hline | ⟨d, hd, hd'⟩
  · exact itemAt_same h hp hline
  · have hitem : ∀ {o : Option Visibility} {q : Place} {found : Findings},
        q.stripped = shown o ++ d.item → itemAt found q = functionAt found q := by
      intro o q found hq
      have hhead : d.item.head? = some 'f' := rfl
      obtain ⟨hrules, hstruct, henum, htrait⟩ := fails_items o hhead
      rw [← hq] at hrules hstruct henum htrait
      exact itemAt_eq_functionAt hrules hstruct henum htrait
    rw [hitem hd, hitem hd']
    exact functionAt_near h hp

theorem itemStep_near (hp : Near v lines lines' p p') :
    Match v lines lines' (itemStep found p) (itemStep found' p') := by
  have hidle : isIdle p.stripped = isIdle p'.stripped ∧ isUse p.stripped = isUse p'.stripped := by
    rcases hp.line_or with hline | ⟨d, hd, hd'⟩
    · rw [stripped, stripped, hline]
      exact ⟨rfl, rfl⟩
    · rcases v.render_or with h | ⟨scope, -, h⟩ <;>
        rw [hd, hd', shown, shown, Option.elim_some, Option.elim_none, h] <;> exact ⟨rfl, rfl⟩
  rw [itemStep, itemStep, ← h.covered, ← hp.index, ← hidle.1, ← hidle.2, ← hp.useExtent]
  split
  · exact ⟨h, rfl⟩
  · split
    · exact ⟨h, rfl⟩
    · exact itemAt_near h hp

end

/-- Sweeps whose visits match find the same up to parameters. -/
theorem sweep_near {visit : Findings → Place → Findings × Nat}
    (hvisit : ∀ {found found' : Findings} {p p' : Place}, Twins v lines lines' found found' →
      Near v lines lines' p p' → Match v lines lines' (visit found p) (visit found' p'))
    {ps ps' : List Place} (hps : List.Forall₂ (Near v lines lines') ps ps')
    (h : Twins v lines lines' found found') (covered : Nat) :
    Twins v lines lines' (sweep visit covered found ps)
      (sweep visit covered found' ps') := by
  induction hps generalizing covered found found' with
  | nil => cases covered <;> exact h
  | cons hp _ ih =>
    cases covered with
    | zero =>
      obtain ⟨hnext, hcovered⟩ := hvisit h hp
      rw [sweep, sweep]
      dsimp only
      rw [← hcovered]
      exact ih hnext _
    | succ covered => exact ih h covered

end Twins

/-! ## Parameters -/

section Parameters

open Parens

/-- What has no parentheses is passed over in front of the group. -/
theorem line_start_append {u : List Char} (hopen : '(' ∉ u) (hclose : ')' ∉ u) (text : List Char) :
    State.start.line (u ++ text) = State.start.line text := by
  induction u with
  | nil => rfl
  | cons c u ih =>
    simp only [List.mem_cons, not_or] at hopen hclose
    have hstep : State.start.step c = .ok .start := by
      simp [State.step, State.keep, State.start, Ne.symm hopen.1, Ne.symm hclose.1]
    rw [List.cons_append, State.line, hstep]
    exact ih hopen.2 hclose.2

theorem line_inside (hopen : '(' ∉ scope) (hclose : ')' ∉ scope) (done text : List Char) :
    (State.mk 1 true done).line (scope ++ ')' :: text) = .error (done.reverse ++ scope) := by
  induction scope generalizing done with
  | nil => simp [State.line, State.step]
  | cons c scope ih =>
    simp only [List.mem_cons, not_or] at hopen hclose
    have hstep : (State.mk 1 true done).step c = .ok ⟨1, true, c :: done⟩ := by
      simp [State.step, State.keep, Ne.symm hopen.1, Ne.symm hclose.1]
    rw [List.cons_append, State.line, hstep]
    dsimp only
    rw [ih hopen.2 hclose.2]
    simp

theorem line_start_line (d : Declaration) (o : Option Visibility) :
    State.start.line (d.line o) = State.start.line (shown o ++ d.item) := by
  have hblank : ∀ {c : Char}, isBlank c = false → c ∉ d.indent := by
    intro c hc hmem
    rw [d.indent_blank c hmem] at hc
    cases hc
  exact line_start_append (hblank (by decide)) (hblank (by decide)) _

/-- The parameters that are read for a function with a visibility, from those without it. -/
def Visibility.names (v : Visibility) (own : List String) : List String :=
  match v with
  | everywhere => own
  | crate => []
  | super => []
  | within path _ => if (trimLeft path).head? = some ':' then ["in"] else []

theorem parameterName?_of_not_mem {piece : List Char} (h : ':' ∉ piece) :
    parameterName? piece = none := by
  rw [parameterName?, cutAt?_of_not_mem h]
  split <;> rfl

/-- The word `in` behind blanks or without them. -/
theorem trim_in (u : List Char) :
    trim ("in ".toList ++ u) =
      if trimLeft u = [] then "in".toList else "in ".toList ++ trimRight u := by
  have hlast : ∃ c ∈ "in".toList.getLast?, isBlank c = false := ⟨'n', rfl, by decide⟩
  have hblank : isBlank ' ' = true := by decide
  have hnil : trimRight u = [] ↔ trimLeft u = [] := by
    simp [trimRight, dropEndWhile, trimLeft, List.dropWhile_eq_nil_iff]
  have hright : trim ("in ".toList ++ u) = "in".toList ++ trimRight (' ' :: u) := by
    rw [← trimRight_append_of_last hlast]
    rfl
  rw [hright, trimRight_cons, if_pos hblank]
  by_cases hu : trimLeft u = []
  · rw [if_pos hu, if_pos (hnil.2 hu)]
    rfl
  · rw [if_neg hu, if_neg (mt hnil.1 hu)]
    rfl

theorem parameterName?_in {u : List Char} (hu : ':' ∉ u) (rest : List Char) :
    parameterName? ("in ".toList ++ u ++ ([':'] ++ rest)) =
      if trimLeft u = [] then some "in" else none := by
  have hfree : ':' ∉ "in ".toList ++ u := by
    rw [List.mem_append, not_or]
    exact ⟨by decide, hu⟩
  have hself : "in ".toList ++ u ≠ "self".toList := by
    intro heq
    cases (List.cons.inj heq).1
  have hspace : isIdentifierContinue ' ' = false := by decide
  rw [List.singleton_append, parameterName?_eq_of_cut rfl hfree, if_neg hself, trim_in]
  by_cases hblank : trimLeft u = []
  · rw [if_pos hblank, if_pos hblank]
    rfl
  · have hbare : dropWord ("in ".toList ++ trimRight u) "mut " = "in ".toList ++ trimRight u := rfl
    have hnot : isIdentifier ("in ".toList ++ trimRight u) = false := by
      simp [isIdentifier, hspace]
    rw [if_neg hblank, if_neg hblank, hbare, hnot]
    rfl

/-- A path in a visibility is read as one parameter if a colon comes first, and as none else. -/
theorem parameterNames_within {path : List Char} (hcomma : ',' ∉ path) :
    parameterNames ("in ".toList ++ path) =
      if (trimLeft path).head? = some ':' then ["in"] else [] := by
  have hpiece : splitOn ',' ("in ".toList ++ path) = ["in ".toList ++ path] := by
    apply splitOn_of_not_mem
    rw [List.mem_append, not_or]
    exact ⟨by decide, hcomma⟩
  rw [parameterNames, readPieces, hpiece, List.filterMap_cons, List.filterMap_nil]
  -- The first colon ends what may be a name; without one nothing is read.
  by_cases hcolon : ':' ∈ path
  · obtain ⟨u, w, rfl, hu⟩ := List.eq_append_cons_of_mem hcolon
    have hlast : ∃ c ∈ ("in ".toList ++ u ++ [':']).getLast?, isBlank c = false :=
      ⟨':', List.getLast?_concat, by decide⟩
    have htrim : trim ("in ".toList ++ (u ++ ':' :: w)) =
        "in ".toList ++ u ++ ([':'] ++ trimRight w) := by
      have hright : trimRight ("in ".toList ++ u ++ [':'] ++ w) =
          "in ".toList ++ u ++ [':'] ++ trimRight w := trimRight_append_of_last hlast
      rw [List.append_assoc, List.append_assoc, List.append_assoc] at hright
      exact hright
    have hstop : ∃ c ∈ (':' :: w).head?, isBlank c = false := ⟨':', rfl, by decide⟩
    rw [htrim, parameterName?_in hu, trimLeft_append_of_head hstop]
    cases hleft : trimLeft u with
    | nil => simp
    | cons c more =>
      have hc : c ∈ trimLeft u := by simp [hleft]
      have hne : c ≠ ':' := by
        rintro rfl
        exact hu ((List.dropWhile_suffix isBlank).subset hc)
      simp [hne]
  · have hfree : ':' ∉ trim ("in ".toList ++ path) := by
      intro hmem
      have hmem : ':' ∈ "in ".toList ++ path := subset_trimRight hmem
      rcases List.mem_append.1 hmem with hin | hin
      · revert hin
        decide
      · exact hcolon hin
    rw [parameterName?_of_not_mem hfree, if_neg]
    intro hhead
    exact hcolon ((List.dropWhile_suffix isBlank).subset (List.mem_of_head? hhead))

variable {v : Visibility} {p p' : Place} {d : Declaration}

/-- A visibility with parentheses is read as the parameters, and one without them is not read. -/
theorem parametersAt_published (hp : p.line = d.line none) (hp' : p'.line = d.line (some v))
    (hafter : p.after = p'.after) :
    parametersAt p' = (v.scope?.map parameterNames).getD (parametersAt p) := by
  have hpub : ∀ text, State.start.line ("pub ".toList ++ text) = State.start.line text :=
    line_start_append (by decide) (by decide)
  rw [parametersAt, parametersAt, textAt, textAt, onward, onward, hp, hp', hafter,
    groupFrom, groupFrom, line_start_line, line_start_line]
  cases hscope : v.scope? with
  | none =>
    have hshown : shown (some v) = "pub ".toList := by
      rw [shown, Option.elim_some, Visibility.render, hscope]
    rw [hshown, hpub]
    rfl
  | some scope =>
    obtain ⟨hclose, hopen⟩ := v.scope_apart hscope
    have hline : State.start.line (shown (some v) ++ d.item) = .error scope := by
      rw [shown, Option.elim_some, Visibility.render, hscope]
      have hinside := line_inside hopen hclose [] (' ' :: d.item)
      have htext : "pub(".toList ++ (scope ++ ") ".toList) ++ d.item =
          "pub".toList ++ ('(' :: (scope ++ ')' :: ' ' :: d.item)) := by simp
      dsimp only
      rw [htext, line_start_append (by decide) (by decide)]
      exact hinside
    rw [hline]
    rfl

theorem Visibility.names_eq (v : Visibility) (own : List String) :
    (v.scope?.map parameterNames).getD own = v.names own := by
  cases v with
  | everywhere => rfl
  | crate => rfl
  | super => rfl
  | within path hpath => exact parameterNames_within (not_mem_path hpath (by decide))

end Parameters

/-! ## Sources -/

/-- A source with a line that declares a function. -/
structure Site where
  before : List Line
  declaration : Declaration
  after : List Line
  unbroken : ∀ l ∈ before ++ declaration.line none :: after, '\n' ∉ l

namespace Site

variable (s : Site)

/-- The lines of the source, with a visibility of the function or without one. -/
def lines (v : Option Visibility) : List Line := s.before ++ s.declaration.line v :: s.after

/-- The text of the source. -/
def text (v : Option Visibility) : List Char := join ['\n'] (s.lines v)

/-- The line of the declaration. -/
def place (v : Option Visibility) : Place :=
  ⟨s.before.length, s.before.reverse, s.declaration.line v, s.after⟩

/-- The parameters that are read without a visibility. -/
def parameters : List String := parametersAt (s.place none)

theorem published (v : Visibility) :
    List.Forall₂ (Published v) (s.lines none) (s.lines (some v)) := by
  have hsame : ∀ ls : List Line, List.Forall₂ (Published v) ls ls := fun ls =>
    List.forall₂_same.2 fun l _ => .same l
  exact List.rel_append (hsame s.before) (.cons (.changed s.declaration) (hsame s.after))

theorem splitNewlines_text (v : Option Visibility) : splitNewlines (s.text v) = s.lines v := by
  apply splitOn_join (by simp [lines])
  intro l hl
  have hmem : l = s.declaration.line v ∨ l ∈ s.before ++ s.declaration.line none :: s.after := by
    simp only [lines, List.mem_append, List.mem_cons] at hl ⊢
    tauto
  rcases hmem with rfl | hmem
  · have hplain := s.unbroken (s.declaration.line none) (by simp)
    simp only [Declaration.line, List.mem_append, not_or] at hplain ⊢
    refine ⟨hplain.1, ?_, hplain.2.2⟩
    cases v with
    | none => exact hplain.2.1
    | some v => exact v.newline_not_mem
  · exact s.unbroken l hmem

theorem eq_place {v : Option Visibility} {p : Place}
    (hlines : p.before.reverse ++ p.onward = s.lines v) (hindex : p.index = p.before.length)
    (hat : p.index = s.before.length) : p = s.place v := by
  obtain ⟨index, before, line, after⟩ := p
  have hlength : before.reverse.length = s.before.length := by
    rw [List.length_reverse, ← hat, hindex]
  obtain ⟨hbefore, honward⟩ := List.append_inj hlines hlength
  obtain ⟨hline, hafter⟩ := List.cons.inj honward
  rw [place, ← hline, ← hafter, ← hat, ← hbefore, List.reverse_reverse]

/-- The places of the declaration in the two sources. -/
theorem place_of_near {v : Visibility} {p p' : Place}
    (h : Near v (s.lines none) (s.lines (some v)) p p') (hat : p.index = s.before.length) :
    p = s.place none ∧ p' = s.place (some v) := by
  have hindex : p'.index = p'.before.length := by
    rw [← h.index, h.index_eq, h.before.length_eq]
  exact ⟨s.eq_place h.lines_eq h.index_eq hat, s.eq_place h.lines_eq' hindex (h.index ▸ hat)⟩

theorem line_ne (v : Visibility) : s.declaration.line none ≠ s.declaration.line (some v) := by
  intro heq
  have hshown : shown none = shown (some v) :=
    List.append_cancel_right (List.append_cancel_left heq)
  rcases v.render_or with h | ⟨scope, -, h⟩ <;>
    rw [shown, shown, Option.elim_none, Option.elim_some, h] at hshown <;> cases hshown

/-- The two sources are swept side by side. -/
theorem twins (v : Visibility) (sourceName : String) :
    List.Forall₂ (Twin v (s.lines none) (s.lines (some v)))
      (outline sourceName (s.text none)).functions
      (outline sourceName (s.text (some v))).functions := by
  have hplaces : List.Forall₂ (Near v (s.lines none) (s.lines (some v)))
      (Place.all (s.lines none)) (Place.all (s.lines (some v))) :=
    near_allFrom [] [] rfl rfl .nil (s.published v)
  have himpl := sweep_near implStep_near hplaces
    (⟨.nil, rfl⟩ : Twins v _ _ ⟨[], [], [], []⟩ ⟨[], [], [], []⟩) 0
  have hall := (sweep_near itemStep_near hplaces himpl 0).functions
  rw [outline, outline, s.splitNewlines_text, s.splitNewlines_text]
  exact hall

end Site

/-- A visibility leaves all functions as they are but for parameters, and those of the function
itself are `Visibility.names` of what they were. -/
theorem functions_published (s : Site) (v : Visibility) (sourceName : String) :
    List.Forall₂
      (fun f g => g = { f with parameters := g.parameters } ∧
        (f.span.first = (s.before.length : Int) + 1 →
          f.parameters = s.parameters ∧ g.parameters = v.names s.parameters))
      (outline sourceName (s.text none)).functions
      (outline sourceName (s.text (some v))).functions := by
  apply (s.twins v sourceName).imp
  rintro f g ⟨hsame, p, p', hp, hfirst, hline⟩
  refine ⟨hsame, fun hat => ?_⟩
  obtain ⟨rfl, rfl⟩ := s.place_of_near hp (by omega)
  -- The line of the declaration is changed, so its parameters are read from the two lines.
  rcases hline with hline | ⟨hf, hg⟩
  · exact absurd hline (s.line_ne v)
  · have hread : parametersAt (s.place (some v)) =
        (v.scope?.map parameterNames).getD s.parameters := parametersAt_published rfl rfl rfl
    rw [hg, hread, v.names_eq]
    exact ⟨hf, rfl⟩

/-- A function with one parameter, behind a comment. -/
def oneParameter : Site where
  before := ["// one".toList]
  declaration :=
    { indent := "  ".toList, space := [], name := "f".toList, tail := "(a: i32) \x7b\x7d".toList
      indent_blank := by decide, space_blank := by decide, name_ne_nil := by decide
      name_word := by decide, tail_apart := by decide }
  after := []
  unbroken := by decide

theorem published_within_module :
    ∃ v : Visibility,
      oneParameter.text (some v) =
        "// one\n  pub(in crate::r#mod) fn f(a: i32) \x7b\x7d".toList ∧
      List.Forall₂
        (fun f g => g = { f with parameters := g.parameters } ∧
          (f.span.first = 2 → f.parameters = ["a"] ∧ g.parameters = []))
        (outline "a.rs" (oneParameter.text none)).functions
        (outline "a.rs" (oneParameter.text (some v))).functions := by
  let v : Visibility := .within "crate::r#mod".toList (by decide)
  have hown : oneParameter.parameters = ["a"] := by decide +kernel
  have hnames : v.names ["a"] = [] := by decide +kernel
  have hfunctions := functions_published oneParameter v "a.rs"
  rw [hown, hnames] at hfunctions
  exact ⟨v, rfl, hfunctions⟩

/-- The parameters of a function are lost behind `pub(crate)`. -/
theorem parameters_lost :
    (outline "a.rs" "fn f(a: i32) \x7b\n\x7d\n".toList).functions.map (·.parameters) = [["a"]] ∧
      (outline "a.rs" "pub(crate) fn f(a: i32) \x7b\n\x7d\n".toList).functions.map
        (·.parameters) = [[]] := by
  decide +kernel

end SourceAtlas.Rust
