import SourceAtlas.Proofs.Cutting
import SourceAtlas.Proofs.PatternRuns
import SourceAtlas.Outline.Rust

/-!
# Groups of names in use statements

A use statement may take a group of names from a module, some of them under aliases, as in
`m::{a, b as c}`. It is to give one import with the module and the names in order, the aliases left
out.

`importOfPath_group` says what it gives. Without an alias that is the import; but a path with an
alias anywhere is taken for one name with that alias, so the first alias of a group makes everything
in front of it, from the brace on, the only name.

Both forms begin with a lazy repetition, which stops at the first place where the rest matches.
`Passes q text rest` says that `q` matches nowhere in a text, and is shown part by part.
-/

set_option autoImplicit false

namespace SourceAtlas.Rust

open Text

/-! ## Groups -/

/-- A character of a name: neither blank nor a sign that separates names. -/
def isUseChar (c : Char) : Bool :=
  !isBlank c && !(c == ',' || c == ':' || c == '\x7b' || c == '\x7d')

/-- A name in a use statement; `as` is no name. -/
structure UseName where
  text : List Char
  head_isWordChar : ∃ c ∈ text.head?, isWordChar c = true
  isUseChar : ∀ c ∈ text, isUseChar c = true
  ne_as : text ≠ "as".toList

/-- A name of a group, and its alias. -/
structure UseItem where
  name : UseName
  newName : Option UseName

/-- The text of an item. -/
def UseItem.render (item : UseItem) : List Char :=
  match item.newName with
  | none => item.name.text
  | some a => item.name.text ++ (" as ".toList ++ a.text)

/-- The text of a module: names with double colons between them. -/
def moduleText (path : List UseName) : List Char := join [':', ':'] (path.map (·.text))

/-- The text of names with commas between them. -/
def listed (names : List (List Char)) : List Char := join [',', ' '] names

/-- A group of names from a module. -/
structure UseGroup where
  path : List UseName
  items : List UseItem
  path_ne_nil : path ≠ []
  items_ne_nil : items ≠ []

/-- The path of a use statement that takes a group from a module. -/
def UseGroup.render (g : UseGroup) : List Char :=
  moduleText g.path ++ ("::\x7b".toList ++ (listed (g.items.map UseItem.render) ++ ['\x7d']))

/-- The names of a group, without the aliases. -/
def UseGroup.names (g : UseGroup) : List String := g.items.map (String.ofList ·.name.text)

/-- The names of a group up to the first one with an alias, and that alias. -/
def firstAlias? : List UseItem → Option (List UseName × UseName)
  | [] => none
  | item :: rest =>
    match item.newName with
    | some a => some ([item.name], a)
    | none => (firstAlias? rest).map fun found => (item.name :: found.1, found.2)

variable {names path : List UseName} {g : UseGroup} {items : List UseItem} {text : List Char}
  {gs : List (Nat × List Char)} {a : UseName}

namespace UseName

variable (n : UseName) {c d : Char} {tail : List Char}

theorem ne_nil : n.text ≠ [] := by
  obtain ⟨c, hc, -⟩ := n.head_isWordChar
  intro hnil
  rw [hnil] at hc
  cases hc

variable {n}

theorem not_isBlank (h : c ∈ n.text) : isBlank c = false := by
  have huse := n.isUseChar c h
  rw [Rust.isUseChar, Bool.and_eq_true, Bool.not_eq_true'] at huse
  exact huse.1

theorem not_mem (hd : Rust.isUseChar d = false) : d ∉ n.text := by
  intro hmem
  rw [n.isUseChar d hmem] at hd
  cases hd

theorem mem_of_head? (h : c ∈ (n.text ++ tail).head?) : c ∈ n.text := by
  obtain ⟨d, text, htext⟩ := List.exists_cons_of_ne_nil n.ne_nil
  rw [htext] at h ⊢
  cases h
  exact List.mem_cons_self

theorem trimmed : Trimmed n.text := Trimmed.of_forall n.ne_nil fun _ => n.not_isBlank

theorem trimmed_join (sep : List Char) (hne : names ≠ []) :
    Trimmed (join sep (names.map (·.text))) := by
  apply Trimmed.join sep (by simpa using hne)
  intro w hw
  obtain ⟨n, -, rfl⟩ := List.mem_map.1 hw
  exact n.trimmed

theorem not_mem_join (hd : Rust.isUseChar d = false) {sep : List Char} (hsep : d ∉ sep)
    (names : List UseName) : d ∉ join sep (names.map (·.text)) := by
  apply Text.not_mem_join hsep
  intro w hw
  obtain ⟨n, -, rfl⟩ := List.mem_map.1 hw
  exact n.not_mem hd

end UseName

theorem moduleText_cons (n : UseName) (h : path ≠ []) :
    moduleText (n :: path) = n.text ++ ([':', ':'] ++ moduleText path) := by
  rw [moduleText, List.map_cons, join_cons_of_ne_nil _ _ (by simpa using h), List.append_assoc]
  rfl

theorem listed_cons (name : List Char) {names : List (List Char)} (h : names ≠ []) :
    listed (name :: names) = name ++ (',' :: ' ' :: listed names) := by
  rw [listed, join_cons_of_ne_nil _ _ h, List.append_assoc]
  rfl

/-- Without aliases the items of a group are its names. -/
theorem map_render_of_firstAlias? (h : firstAlias? items = none) :
    items.map UseItem.render = (items.map (·.name)).map (·.text) := by
  induction items with
  | nil => rfl
  | cons item rest ih =>
    rw [firstAlias?] at h
    split at h
    · cases h
    · rename_i hname
      rw [List.map_cons, ih (Option.map_eq_none_iff.1 h), UseItem.render, hname]
      rfl

theorem firstAlias?_eq_none_iff :
    firstAlias? items = none ↔ ∀ item ∈ items, item.newName = none := by
  induction items with
  | nil => simp [firstAlias?]
  | cons item rest ih =>
    rw [firstAlias?]
    cases hname : item.newName with
    | none => simp [hname, ih]
    | some a => simp [hname]

/-- The first alias stands behind the names up to it, and a comma or the end follows it. -/
theorem listed_of_firstAlias? (h : firstAlias? items = some (names, a)) :
    names ≠ [] ∧ ∃ c tail, (c = ',' ∨ c = '\x7d') ∧
      listed (items.map UseItem.render) ++ ['\x7d'] =
        listed (names.map (·.text)) ++ (" as ".toList ++ (a.text ++ c :: tail)) := by
  induction items generalizing names with
  | nil => cases h
  | cons item rest ih =>
    rw [firstAlias?] at h
    cases hname : item.newName with
    | none =>
      rw [hname] at h
      obtain ⟨⟨found, a⟩, hfound, hpair⟩ := Option.map_eq_some_iff.1 h
      cases hpair
      obtain ⟨hne, c, tail, hc, htext⟩ := ih hfound
      refine ⟨by simp, c, tail, hc, ?_⟩
      have hrest : rest.map UseItem.render ≠ [] := by
        rintro hnil
        rw [List.map_eq_nil_iff.1 hnil] at hfound
        cases hfound
      rw [List.map_cons, listed_cons _ hrest, List.map_cons, listed_cons _ (by simpa using hne),
        UseItem.render, hname]
      simpa using htext
    | some b =>
      rw [hname] at h
      cases h
      refine ⟨by simp, ?_⟩
      cases rest with
      | nil => exact ⟨'\x7d', [], .inr rfl, by simp [listed, UseItem.render, hname]⟩
      | cons next rest =>
        refine ⟨',', ' ' :: (listed ((next :: rest).map UseItem.render) ++ ['\x7d']), .inl rfl, ?_⟩
        rw [List.map_cons, listed_cons _ (by simp), UseItem.render, hname]
        simp [listed]

/-! ## Places where a pattern fails -/

section Passes

open Pattern

variable {q : Pattern} {s t rest : List Char}

/-- The pattern matches at no place of the text, with `rest` behind it. -/
def Passes (q : Pattern) (text rest : List Char) : Prop :=
  ∀ u v, text = u ++ v → v ≠ [] → q.Fails (v ++ rest)

theorem Passes.append (hs : Passes q s (t ++ rest)) (ht : Passes q t rest) :
    Passes q (s ++ t) rest := by
  intro u v hcut hv
  rcases List.append_eq_append_iff.1 hcut with ⟨more, rfl, rfl⟩ | ⟨more, rfl, rfl⟩
  · exact ht more v rfl hv
  · cases more with
    | nil => exact ht [] t rfl hv
    | cons c more =>
      rw [List.append_assoc]
      exact hs u (c :: more) rfl (by simp)

theorem Passes.cons {c : Char} (hc : q.Fails (c :: (s ++ rest))) (hs : Passes q s rest) :
    Passes q (c :: s) rest := by
  intro u v hcut hv
  cases u with
  | nil =>
    cases hcut
    exact hc
  | cons d u =>
    cases hcut
    exact hs u v rfl hv

theorem passes_nil : Passes q [] rest := by
  intro u v hcut hv
  exact absurd (List.append_eq_nil_iff.1 hcut.symm).2 hv

theorem passes_of_forall (h : ∀ c ∈ s, ∀ more, q.Fails (c :: more)) : Passes q s rest := by
  induction s with
  | nil => exact passes_nil
  | cons c s ih =>
    apply Passes.cons (h c List.mem_cons_self _)
    exact ih (List.forall_mem_cons.1 h).2

end Passes

/-! ## Aliases -/

section Aliases

open Pattern

variable {rest : List Char}

/-- An alias with the blanks and the keyword in front of it. -/
def aliasTail : Pattern := gap ++ (exactly "as" ++ (gap ++ .group 2 word))

theorem passes_aliasTail {s : List Char} (h : ∀ c ∈ s, isBlank c = false) :
    Passes aliasTail s rest := by
  apply passes_of_forall
  intro c hc more
  apply Fails.seq
  apply fails_gap
  rintro d ⟨⟩
  exact h c hc

/-- A name behind a blank is not taken for the keyword. -/
theorem fails_aliasTail_name (n : UseName) (h : ∀ c ∈ rest.head?, isUseChar c = false) :
    aliasTail.Fails (' ' :: (n.text ++ rest)) := by
  have hgap : gap.TakesOnly [' '] (n.text ++ rest) := by
    apply takesOnly_gap_single (by decide)
    intro c hc
    exact n.not_isBlank (UseName.mem_of_head? hc)
  apply hgap.fails_seq
  by_cases has : "as".toList <+: n.text
  · -- The name goes on behind these letters, so no blank follows them.
    obtain ⟨more, hmore⟩ := has
    have hne : more ≠ [] := by
      rintro rfl
      exact n.ne_as (by simpa using hmore.symm)
    obtain ⟨c, more, rfl⟩ := List.exists_cons_of_ne_nil hne
    rw [← hmore, List.append_assoc]
    apply (takesOnly_exactly "as" _).fails_seq
    apply Fails.seq
    apply fails_gap
    rintro d ⟨⟩
    exact n.not_isBlank (by simp [← hmore])
  · apply Fails.seq
    apply fails_chars
    intro hprefix
    have hletters : "as".toList = ['a', 's'] := rfl
    rw [hletters] at has hprefix
    -- A name of one letter could only be completed by what follows, which is no letter.
    match htext : n.text with
    | [] => exact n.ne_nil htext
    | [c] =>
      rw [htext] at hprefix
      cases rest with
      | nil => simp at hprefix
      | cons d rest =>
        have hs : 's' = d := by simpa using (List.cons_prefix_cons.1 hprefix).2
        have huse := h d rfl
        rw [← hs] at huse
        revert huse
        decide
    | c :: d :: more =>
      rw [htext] at has hprefix
      simp at has hprefix
      exact has hprefix.1 hprefix.2

/-- There is no alias between the names of a list. -/
theorem passes_aliasTail_listed (hne : names ≠ []) (h : ∀ c ∈ rest.head?, isUseChar c = false) :
    Passes aliasTail (listed (names.map (·.text))) rest ∧
      aliasTail.Fails (' ' :: (listed (names.map (·.text)) ++ rest)) := by
  induction names with
  | nil => exact absurd rfl hne
  | cons n names ih =>
    have hname : ∀ {rest}, Passes aliasTail n.text rest :=
      passes_aliasTail fun _ => n.not_isBlank
    cases names with
    | nil => simpa [listed] using And.intro hname (fails_aliasTail_name n h)
    | cons m names =>
      obtain ⟨hpasses, hfails⟩ := ih (by simp)
      rw [List.map_cons, listed_cons _ (by simp)]
      constructor
      · apply hname.append
        apply Passes.cons _ (Passes.cons hfails hpasses)
        apply Fails.seq
        apply fails_gap
        rintro d ⟨⟩
        decide
      · rw [List.append_assoc]
        apply fails_aliasTail_name
        rintro d ⟨⟩
        decide

theorem passes_aliasTail_module (path : List UseName) :
    Passes aliasTail (moduleText path ++ "::\x7b".toList) rest := by
  apply passes_aliasTail
  intro c hc
  by_contra hblank
  rw [Bool.not_eq_false] at hblank
  have huse : isUseChar c = false := by simp [isUseChar, hblank]
  rw [List.mem_append] at hc
  rcases hc with hc | hc
  · apply UseName.not_mem_join huse _ path hc
    rintro hcolon
    simp at hcolon
    subst hcolon
    revert hblank
    decide
  · simp at hc
    rcases hc with rfl | rfl <;> revert hblank <;> decide

theorem aliasPattern_takes {w v : List Char}
    (h : (Pattern.group 1 (fewest anyChar) ++ aliasTail).Takes (w ++ v) rest gs) :
    aliasPattern.Takes (w ++ v) rest gs := by
  intro s k r hahead hk
  exact h hahead hk

theorem aliasPattern_fails (h : (Pattern.group 1 (fewest anyChar) ++ aliasTail).Fails text) :
    aliasPattern.Fails text := by
  intro s k hahead
  exact h hahead

/-- An alias is read as far as its word goes. -/
theorem takes_aliasTail (a : UseName) {c : Char} {tail : List Char}
    (hc : isWordChar c = false) :
    aliasTail.Takes (" as ".toList ++ a.text.takeWhile isWordChar)
      (a.text.dropWhile isWordChar ++ c :: tail) [(2, a.text.takeWhile isWordChar)] := by
  have hword : word.Takes (a.text.takeWhile isWordChar)
      (a.text.dropWhile isWordChar ++ c :: tail) [] := by
    apply takes_word
    · obtain ⟨d, hd, hdword⟩ := a.head_isWordChar
      obtain ⟨more, hmore⟩ := List.head?_eq_some_iff.1 hd
      rw [hmore, List.takeWhile_cons_of_pos hdword]
      simp
    · intro d hd
      exact List.mem_takeWhile_imp hd
    · intro d hd
      cases hdrop : a.text.dropWhile isWordChar with
      | nil =>
        rw [hdrop] at hd
        cases hd
        exact hc
      | cons e more =>
        rw [hdrop] at hd
        cases hd
        have hhead := List.head?_dropWhile_not isWordChar a.text
        simpa [hdrop] using hhead
  have hhead : ∀ d ∈ (a.text.takeWhile isWordChar ++
      (a.text.dropWhile isWordChar ++ c :: tail)).head?, isBlank d = false := by
    intro d hd
    rw [← List.append_assoc, List.takeWhile_append_dropWhile] at hd
    exact a.not_isBlank (UseName.mem_of_head? hd)
  have hgap := (takesOnly_gap_single (c := ' ') (by decide) hhead).takes
  have hkeyword := (takesOnly_exactly "as" _).takes.seq (hgap.seq (hword.group 2))
  exact (takesOnly_gap_single (c := ' ') (by decide) (by rintro d ⟨⟩; decide)).takes.seq hkeyword

/-- The text of a group up to a name. -/
def front (path names : List UseName) : List Char :=
  moduleText path ++ ("::\x7b".toList ++ listed (names.map (·.text)))

theorem newline_not_mem_front (path names : List UseName) : '\n' ∉ front path names := by
  rw [front, List.mem_append, List.mem_append]
  rintro (h | h | h)
  · exact UseName.not_mem_join (by decide) (by decide) path h
  · revert h
    decide
  · exact UseName.not_mem_join (by decide) (by decide) names h

theorem anyChar_of_newline_not_mem (h : '\n' ∉ text) :
    ∀ c ∈ text, (⟨"\n".toList.map item, true, .exact, false⟩ : CharSet).mem c = true := by
  intro c hc
  have hletters : "\n".toList = ['\n'] := rfl
  rw [hletters, mem_noneOf, bne_iff_ne]
  rintro rfl
  exact h hc

theorem passes_aliasTail_front (hne : names ≠ []) (h : ∀ c ∈ rest.head?, isUseChar c = false) :
    Passes aliasTail (front path names) rest := by
  rw [front, ← List.append_assoc]
  exact (passes_aliasTail_module path).append (passes_aliasTail_listed hne h).1

/-- A group with an alias is one name with that alias. -/
theorem atHead?_aliasPattern_of_some (h : firstAlias? g.items = some (names, a)) :
    ∃ m, aliasPattern.atHead? g.render = some m ∧
      m.groups = [(2, a.text.takeWhile isWordChar), (1, front g.path names)] := by
  obtain ⟨hne, c, tail, hc, htext⟩ := listed_of_firstAlias? h
  have hword : isWordChar c = false := by
    rcases hc with rfl | rfl <;> decide
  have htakes : (Pattern.group 1 (fewest anyChar) ++ aliasTail).Takes
      (front g.path names ++ (" as ".toList ++ a.text.takeWhile isWordChar))
      (a.text.dropWhile isWordChar ++ c :: tail)
      [(2, a.text.takeWhile isWordChar), (1, front g.path names)] := by
    apply takes_fewest_seq (by simp [front])
      (anyChar_of_newline_not_mem (newline_not_mem_front g.path names)) _ (takes_aliasTail a hword)
    intro u t hcut hu ht
    apply passes_aliasTail_front hne _ u t hcut ht
    rintro d ⟨⟩
    decide
  apply (aliasPattern_takes htakes).atHead?
  rw [UseGroup.render, htext, front]
  simp only [List.append_assoc]
  rw [← List.append_assoc (a.text.takeWhile isWordChar), List.takeWhile_append_dropWhile]

/-- A group without an alias. -/
theorem render_of_firstAlias? (h : firstAlias? g.items = none) :
    g.render = front g.path (g.items.map (·.name)) ++ ['\x7d'] := by
  rw [UseGroup.render, map_render_of_firstAlias? h, front]
  simp only [List.append_assoc]

theorem atHead?_aliasPattern_of_none (h : firstAlias? g.items = none) :
    aliasPattern.atHead? g.render = none := by
  apply Fails.atHead?
  apply aliasPattern_fails
  apply fails_fewest_seq
  intro u v hcut hu
  have hpasses : Passes aliasTail (front g.path (g.items.map (·.name)) ++ ['\x7d']) [] := by
    apply Passes.append
    · apply passes_aliasTail_front (by simpa using g.items_ne_nil)
      rintro d ⟨⟩
      decide
    · exact passes_aliasTail (by decide)
  cases v with
  | nil => exact (fails_gap (by simp)).seq _
  | cons c v =>
    rw [render_of_firstAlias? h] at hcut
    simpa using hpasses u (c :: v) hcut (by simp)

end Aliases

/-! ## Groups without aliases -/

section Groups

open Pattern

/-- The names of a group with the signs around them. -/
def groupTail : Pattern := exactly "::\x7b" ++ (.group 2 (oneOrMore anyChar) ++ exactly "\x7d")

/-- The names of a module are not taken for a group. -/
theorem passes_groupTail_module (path : List UseName) {rest : List Char} :
    Passes groupTail (moduleText path) rest := by
  induction path with
  | nil => exact passes_nil
  | cons n path ih =>
    have hname : ∀ {rest}, Passes groupTail n.text rest := by
      intro rest
      apply passes_of_forall
      intro c hc more
      apply Fails.seq
      apply fails_exactly (c := ':') rfl
      rintro ⟨⟩
      exact n.not_mem (by decide) hc
    cases path with
    | nil => simpa [moduleText] using hname
    | cons m path =>
      have hhead : ∀ c ∈ (moduleText (m :: path) ++ rest).head?, isUseChar c = true := by
        intro c hc
        apply m.isUseChar
        cases path with
        | nil =>
          rw [moduleText, List.map_cons, List.map_nil, join_singleton] at hc
          exact UseName.mem_of_head? hc
        | cons next path =>
          rw [moduleText_cons m (by simp), List.append_assoc] at hc
          exact UseName.mem_of_head? hc
      have hnext : ∀ {c more}, c :: more <+: moduleText (m :: path) ++ rest →
          isUseChar c = true := by
        rintro c more ⟨text, htext⟩
        exact hhead c (by simp [← htext])
      rw [moduleText_cons n (by simp)]
      apply hname.append
      -- Neither colon opens a group, for a character of the next name stands behind.
      apply Passes.cons _ (Passes.cons _ ih)
      · apply Fails.seq
        apply fails_chars
        intro hstart
        have hsign := hnext (List.cons_prefix_cons.1 (List.cons_prefix_cons.1 hstart).2).2
        revert hsign
        decide
      · apply Fails.seq
        apply fails_chars
        intro hstart
        have hsign := hnext (List.cons_prefix_cons.1 hstart).2
        revert hsign
        decide

theorem groupPattern_takes {rest : List Char}
    (h : (Pattern.group 1 (fewest anyChar) ++ groupTail).Takes text rest gs) :
    groupPattern.Takes text rest gs := by
  intro s k r hahead hk
  exact h hahead hk

/-- A group without an alias is read as its module and its names. -/
theorem atHead?_groupPattern (h : firstAlias? g.items = none) :
    ∃ m, groupPattern.atHead? g.render = some m ∧
      m.groups = [(2, listed ((g.items.map (·.name)).map (·.text))), (1, moduleText g.path)] := by
  have hnewline := newline_not_mem_front g.path (g.items.map (·.name))
  rw [front, List.mem_append, List.mem_append, not_or, not_or] at hnewline
  have hnames : (Pattern.group 2 (oneOrMore anyChar) ++ exactly "\x7d").Takes
      (listed ((g.items.map (·.name)).map (·.text)) ++ "\x7d".toList) []
      [(2, listed ((g.items.map (·.name)).map (·.text)))] := by
    have hne : g.items.map (·.name) ≠ [] := by simpa using g.items_ne_nil
    apply takes_longest_seq (UseName.trimmed_join [',', ' '] hne).ne_nil
      (anyChar_of_newline_not_mem hnewline.2.2) _
      (takesOnly_exactly "\x7d" []).takes
    intro u t hcut hu _
    cases u with
    | nil => exact absurd rfl hu
    | cons c u =>
      have hnil : [] = u ++ t := (List.cons.inj hcut).2
      rw [(List.append_eq_nil_iff.1 hnil.symm).2]
      exact fails_exactly rfl (by simp)
  have htakes : (Pattern.group 1 (fewest anyChar) ++ groupTail).Takes
      (moduleText g.path ++ ("::\x7b".toList ++
        (listed ((g.items.map (·.name)).map (·.text)) ++ "\x7d".toList))) []
      [(2, listed ((g.items.map (·.name)).map (·.text))), (1, moduleText g.path)] := by
    apply takes_fewest_seq (UseName.trimmed_join [':', ':'] g.path_ne_nil).ne_nil
      (anyChar_of_newline_not_mem hnewline.1) _ ((takesOnly_exactly "::\x7b" _).takes.seq hnames)
    intro u t hcut _ ht
    exact passes_groupTail_module g.path u t hcut ht
  apply (groupPattern_takes htakes).atHead?
  rw [UseGroup.render, map_render_of_firstAlias? h, List.append_nil]
  rfl

/-- The names of a list, cut at its commas. -/
theorem splitOn_listed (n : UseName) (names : List UseName) :
    splitOn ',' (listed ((n :: names).map (·.text))) = n.text :: names.map (' ' :: ·.text) := by
  induction names generalizing n with
  | nil => simpa [listed] using splitOn_of_not_mem (n.not_mem (by decide))
  | cons m names ih =>
    have hblank : splitOn ',' ([' '] ++ listed ((m :: names).map (·.text))) =
        ([' '] ++ m.text) :: names.map (' ' :: ·.text) :=
      splitWhere_append_of_forall_not (by decide) (ih m)
    rw [List.map_cons, listed_cons _ (by simp), splitOn_append_sep,
      splitOn_of_not_mem (n.not_mem (by decide))]
    exact congrArg (n.text :: ·) hblank

theorem fails_namePattern (n : UseName) : namePattern.Fails n.text := by
  have hfails :
      (Pattern.group 1 word ++ (gap ++ (exactly "as" ++ (gap ++ word)))).Fails n.text := by
    apply fails_oneOrMore_seq
    intro u v hcut _ _
    apply Fails.seq
    apply fails_gap
    intro c hc
    apply n.not_isBlank
    rw [hcut]
    exact List.mem_append_right u (List.mem_of_mem_head? hc)
  intro s k hahead
  exact hfails hahead

theorem groupedNames_listed (hne : names ≠ []) :
    groupedNames (listed (names.map (·.text))) = names.map (String.ofList ·.text) := by
  obtain ⟨n, names, rfl⟩ := List.exists_cons_of_ne_nil hne
  have htrim : (splitOn ',' (listed ((n :: names).map (·.text)))).map trim =
      (n :: names).map (·.text) := by
    rw [splitOn_listed, List.map_cons, n.trimmed.trim_eq, List.map_map]
    congr 1
    apply List.map_congr_left
    intro m _
    exact (trim_cons_blank (by decide) m.text).trans m.trimmed.trim_eq
  have hfilter : ((n :: names).map (·.text)).filter (!·.isEmpty) = (n :: names).map (·.text) := by
    rw [List.filter_eq_self]
    intro w hw
    obtain ⟨m, -, rfl⟩ := List.mem_map.1 hw
    simpa using m.ne_nil
  rw [groupedNames, htrim, hfilter, List.map_map]
  apply List.map_congr_left
  intro m _
  rw [Function.comp, (fails_namePattern m).atHead?]

end Groups

/-! ## The import of a group -/

theorem not_endsWith_star (g : UseGroup) : endsWith "::*".toList g.render = false := by
  rw [Bool.eq_false_iff, endsWith, Ne, List.isSuffixOf_iff_suffix]
  rintro ⟨head, htext⟩
  have hlast := congrArg List.getLast? htext
  rw [UseGroup.render, ← List.append_assoc, ← List.append_assoc, List.getLast?_concat] at hlast
  simp at hlast

/-- The last colons in front of a list of names are those behind the module. -/
theorem cutLastColons?_front (path names : List UseName) :
    cutLastColons? (front path names) =
      some (moduleText path, '\x7b' :: listed (names.map (·.text))) := by
  have hreverse : (front path names).reverse = ('\x7b' :: listed (names.map (·.text))).reverse ++
      ([':', ':'] ++ (moduleText path).reverse) := by
    simp [front]
  have hcolon : ':' ∉ ('\x7b' :: listed (names.map (·.text))).reverse := by
    rw [List.mem_reverse, List.mem_cons, not_or]
    exact ⟨by decide, UseName.not_mem_join (by decide) (by decide) names⟩
  rw [cutLastColons?, hreverse, cutAt?_append hcolon]
  simp

theorem trimmed_front (hpath : path ≠ []) (hnames : names ≠ []) :
    Trimmed (front path names) :=
  (UseName.trimmed_join _ hpath).around (UseName.trimmed_join _ hnames) _

theorem groupText_of_groups {m : Cursor} {u v : List Char} (h : m.groups = [(2, v), (1, u)]) :
    groupText m 1 = u ∧ groupText m 2 = v := by
  rw [groupText, groupText, Cursor.group?, Cursor.group?, h]
  exact ⟨rfl, rfl⟩

theorem importOfPath_of_none (h : firstAlias? g.items = none) (line : Int) :
    importOfPath g.render line =
      ⟨String.ofList (moduleText g.path), g.names, none, line, true⟩ := by
  obtain ⟨m, hm, hgroups⟩ := atHead?_groupPattern h
  obtain ⟨hmodule, hnames⟩ := groupText_of_groups hgroups
  have hne : g.items.map (·.name) ≠ [] := by simpa using g.items_ne_nil
  have hlist : Trimmed (listed ((g.items.map (·.name)).map (·.text))) :=
    UseName.trimmed_join _ hne
  have hpath : Trimmed (moduleText g.path) := UseName.trimmed_join _ g.path_ne_nil
  rw [importOfPath, not_endsWith_star, if_neg (by simp), atHead?_aliasPattern_of_none h]
  dsimp only
  rw [hm]
  dsimp only
  rw [hmodule, hnames, hpath.trim_eq, hlist.trim_eq, groupedNames_listed hne, List.map_map]
  rfl

theorem importOfPath_of_some (h : firstAlias? g.items = some (names, a)) (line : Int) :
    importOfPath g.render line =
      ⟨String.ofList (moduleText g.path), [String.ofList ('\x7b' :: listed (names.map (·.text)))],
        some (String.ofList (a.text.takeWhile isWordChar)), line, true⟩ := by
  obtain ⟨m, hm, hgroups⟩ := atHead?_aliasPattern_of_some h
  obtain ⟨hfront, halias⟩ := groupText_of_groups hgroups
  have htrimmed := trimmed_front g.path_ne_nil (listed_of_firstAlias? h).1
  rw [importOfPath, not_endsWith_star, if_neg (by simp), hm]
  dsimp only
  rw [groupString, hfront, halias, htrimmed.trim_eq, namedImport, cutLastColons?_front]

/-- No group has a brace in the first of its names. -/
theorem names_ne_of_brace (g : UseGroup) (text : List Char) (more : List String) :
    String.ofList ('\x7b' :: text) :: more ≠ g.names := by
  obtain ⟨item, rest, hitems⟩ := List.exists_cons_of_ne_nil g.items_ne_nil
  rw [UseGroup.names, hitems, List.map_cons]
  intro hnames
  have hname := String.ofList_inj.1 (List.cons.inj hnames).1
  apply item.name.not_mem (show isUseChar '\x7b' = false by decide)
  rw [← hname]
  exact List.mem_cons_self

/-- A group gives one import from its module. The names are those of the group exactly if none of
them has an alias: otherwise the import has the first alias, and the text from the brace to it as
its only name. -/
theorem importOfPath_group (g : UseGroup) (line : Int) :
    (importOfPath g.render line =
      match firstAlias? g.items with
      | none => ⟨String.ofList (moduleText g.path), g.names, none, line, true⟩
      | some (names, a) =>
        ⟨String.ofList (moduleText g.path),
          [String.ofList ('\x7b' :: listed (names.map (·.text)))],
          some (String.ofList (a.text.takeWhile isWordChar)), line, true⟩) ∧
    ((importOfPath g.render line).names = g.names ↔ ∀ item ∈ g.items, item.newName = none) := by
  rw [← firstAlias?_eq_none_iff]
  cases h : firstAlias? g.items with
  | none =>
    rw [importOfPath_of_none h]
    exact ⟨rfl, iff_of_true rfl rfl⟩
  | some found =>
    rw [importOfPath_of_some h]
    exact ⟨rfl, iff_of_false (names_ne_of_brace g _ []) (by simp)⟩

theorem importOfPath_aliased_group :
    ∃ g : UseGroup, g.render = "std::io::\x7bself, Result as IoResult, Read\x7d".toList ∧
      g.names = ["self", "Result", "Read"] ∧
      importOfPath g.render 1 = ⟨"std::io", ["\x7bself, Result"], some "IoResult", 1, true⟩ ∧
      (importOfPath g.render 1).names ≠ g.names := by
  let name := fun (text : String) (h : (∃ c ∈ text.toList.head?, isWordChar c = true) ∧
      (∀ c ∈ text.toList, isUseChar c = true) ∧ text.toList ≠ "as".toList) =>
    (⟨text.toList, h.1, h.2.1, h.2.2⟩ : UseName)
  let g : UseGroup :=
    ⟨[name "std" (by decide), name "io" (by decide)],
      [⟨name "self" (by decide), none⟩,
        ⟨name "Result" (by decide), some (name "IoResult" (by decide))⟩,
        ⟨name "Read" (by decide), none⟩], by simp, by simp⟩
  obtain ⟨himport, hnames⟩ := importOfPath_group g 1
  refine ⟨g, rfl, rfl, himport.trans (by decide +kernel), fun heq => ?_⟩
  exact absurd (hnames.1 heq) (by simp [g])

/-- A name with an alias hides the other names. -/
theorem aliased_group_lost :
    (importOfPath "std::io::\x7bself, Result as IoResult, Read\x7d".toList 1).names ≠
      ["self", "Result", "Read"] := by
  decide +kernel

end SourceAtlas.Rust
