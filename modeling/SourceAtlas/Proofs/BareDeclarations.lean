import SourceAtlas.Proofs.FunctionBodies

/-!
# Declarations without semicolons

A script may bind arrow functions and name types on lines that end without a semicolon. Each such
declaration is to be found, with its own line for its range.

A declaration of this kind is taken to end on the first later line that does not go on with it, and
that line is counted in. In a run of declarations the next one is that line: it is covered, and the
sweep passes over it. `bareFound` is what is found of a run: every second declaration, with the line
of the next one, as long as the names are words. A name with a dollar sign or a combining mark is
not seen at all.

`Deals.collect_eq` is the sweep over a run, for any visit that deals with its lines in this way, and
`deals_arrows` and `deals_aliases` are the two visits.
-/

set_option autoImplicit false

namespace SourceAtlas.Script

open Place Text

variable {names : List Name}

/-! ## Runs of declarations -/

/-- An arrow function on a line of its own. -/
def arrowLine (n : Name) : Line := "const ".toList ++ (n.text ++ " = (x) => x".toList)

/-- A type alias on a line of its own. -/
def aliasLine (n : Name) : Line := "type ".toList ++ (n.text ++ " = string".toList)

theorem arrowLine_eq (n : Name) : arrowLine n =
    ([] ++ "const".toList ++ [' ']) ++ (n.text ++ ' ' :: "= (x) => x".toList) := rfl

theorem aliasLine_eq (n : Name) : aliasLine n =
    ([] ++ "type".toList ++ [' ']) ++ (n.text ++ ' ' :: "= string".toList) := rfl

/-- A source of these lines, with or without a newline at its end. -/
def sourceOf (lines : List Line) (final : Bool) : List Char :=
  join ['\n'] lines ++ (if final then ['\n'] else [])

/-- A declaration that is found, with the indexes of its first and last line. -/
structure Found where
  name : Name
  first : Nat
  last : Nat

/-- What is found of a run of declarations from a line on. One whose name is a word is found, and
covers the next line; on the last line it covers `last` more. Any other is passed over. -/
def bareFound (last : Nat) : Nat → List Name → List Found
  | _, [] => []
  | index, [n] => if n.isWord then [⟨n, index, index + last⟩] else []
  | index, n :: m :: rest =>
    if n.isWord then ⟨n, index, index + 1⟩ :: bareFound last (index + 2) rest
    else bareFound last (index + 1) (m :: rest)

/-- Each declaration of a run, with its own line. -/
def eachOnItsLine : Nat → List Name → List Found
  | _, [] => []
  | index, n :: rest => ⟨n, index, index⟩ :: eachOnItsLine (index + 1) rest

theorem length_eachOnItsLine (index : Nat) (names : List Name) :
    (eachOnItsLine index names).length = names.length := by
  induction names generalizing index with
  | nil => rfl
  | cons n rest ih => rw [eachOnItsLine, List.length_cons, List.length_cons, ih]

theorem length_bareFound_le (last index : Nat) (names : List Name) :
    (bareFound last index names).length ≤ names.length := by
  fun_induction bareFound last index names with
  | case1 => exact Nat.le_refl _
  | case2 => simp
  | case3 => simp
  | case4 index n m rest hn ih => simp only [List.length_cons]; omega
  | case5 index n m rest hn ih => simp only [List.length_cons] at ih ⊢; omega

/-- Of names that are words, every second one is found. -/
theorem length_bareFound (h : ∀ n ∈ names, n.isWord = true) (last index : Nat) :
    (bareFound last index names).length = (names.length + 1) / 2 := by
  fun_induction bareFound last index names with
  | case1 => rfl
  | case2 => simp
  | case3 index n hn => exact absurd (h n List.mem_cons_self) hn
  | case4 index n m rest hn ih =>
    have hrest := ih fun k hk => h k (List.mem_cons_of_mem n (List.mem_cons_of_mem m hk))
    simp only [List.length_cons, hrest]
    omega
  | case5 index n m rest hn => exact absurd (h n List.mem_cons_self) hn

/-- **A run is found whole only if it has one declaration at most.** -/
theorem bareFound_eq_iff {last : Nat} :
    bareFound last 0 names = eachOnItsLine 0 names ↔
      names = [] ∨ ∃ n, names = [n] ∧ n.isWord = true ∧ last = 0 := by
  cases names with
  | nil => exact iff_of_true rfl (.inl rfl)
  | cons n rest =>
    rw [or_iff_right (List.cons_ne_nil n rest)]
    cases rest with
    | nil =>
      cases hn : n.isWord <;> simp [bareFound, eachOnItsLine, hn]
    | cons m rest =>
      apply iff_of_false _ (by simp)
      intro heq
      cases hn : n.isWord with
      | true => simp [bareFound, eachOnItsLine, hn] at heq
      | false =>
        have hle := length_bareFound_le last (0 + 1) (m :: rest)
        have hlength := congrArg List.length heq
        rw [length_eachOnItsLine] at hlength
        simp only [bareFound, hn, Bool.false_eq_true, if_false, List.length_cons] at hlength hle
        omega

/-! ## The sweep over a run -/

/-- A visit deals with the lines of a run: nothing is found on an empty line or under a name that is
no word; any other declaration is found and covers the next one, or `last` of the empty lines behind
the run. -/
structure Deals {α : Type} (visit : Place → List α × Nat) (line : Name → Line) (item : Found → α)
    (blanks last : Nat) : Prop where
  empty : ∀ p : Place, p.line = [] → visit p = ([], 0)
  unseen : ∀ (n : Name) (p : Place), p.line = line n → n.isWord = false → visit p = ([], 0)
  next : ∀ (n m : Name) (p : Place) (rest : List Line), p.line = line n → n.isWord = true →
    p.after = line m :: rest → visit p = ([item ⟨n, p.index, p.index + 1⟩], 1)
  final : ∀ (n : Name) (p : Place), p.line = line n → n.isWord = true →
    p.after = List.replicate blanks [] → visit p = ([item ⟨n, p.index, p.index + last⟩], last)

namespace Deals

variable {α : Type} {visit : Place → List α × Nat} {line : Name → Line} {item : Found → α}
  {blanks last : Nat}

theorem collect_empty (h : Deals visit line item blanks last) (covered index count : Nat)
    (before : List Line) :
    collect visit covered (allFrom index before (List.replicate count [])) = [] := by
  induction count generalizing covered index before with
  | zero => cases covered <;> rfl
  | succ count ih =>
    rw [List.replicate_succ, allFrom]
    cases covered with
    | zero =>
      rw [collect, h.empty _ rfl]
      exact ih 0 _ _
    | succ covered => exact ih covered _ _

/-- The sweep finds of a run what `bareFound` says. -/
theorem collect_eq (h : Deals visit line item blanks last) (index : Nat) (before : List Line)
    (names : List Name) :
    collect visit 0
        (allFrom index before (names.map line ++ List.replicate blanks [])) =
      (bareFound last index names).map item := by
  -- Along `bareFound`: a declaration takes the next one with it, and the sweep goes on behind that.
  fun_induction bareFound last index names generalizing before with
  | case1 index => exact h.collect_empty 0 index blanks before
  | case2 index n hn =>
    rw [List.map_singleton, List.singleton_append, allFrom, collect,
      h.final n _ rfl hn rfl]
    dsimp only
    rw [h.collect_empty]
    rfl
  | case3 index n hn =>
    rw [List.map_singleton, List.singleton_append, allFrom, collect,
      h.unseen n _ rfl (by simpa using hn)]
    exact h.collect_empty 0 _ _ _
  | case4 index n m rest hn ih =>
    rw [List.map_cons, List.map_cons, List.cons_append, List.cons_append, allFrom,
      collect, h.next n m _ _ rfl hn rfl, List.map_cons]
    exact congrArg _ (ih _)
  | case5 index n m rest hn ih =>
    rw [List.map_cons, List.cons_append, allFrom, collect,
      h.unseen n _ rfl (by simpa using hn)]
    exact ih _

end Deals

/-- A sweep finds nothing if no visit does. -/
theorem collect_eq_nil {α : Type} {visit : Place → List α × Nat} {places : List Place}
    (h : ∀ p ∈ places, (visit p).1 = []) (covered : Nat) :
    collect visit covered places = [] := by
  rw [collect_eq_flatMap, List.flatMap_eq_nil_iff]
  intro p hp
  exact h p (visited_subset covered places hp)

/-! ## Patterns on the lines of a run -/

section Patterns

open Pattern

variable {n : Name} {text tail : List Char}
variable {d : Char}

theorem takes_name (hn : n.isWord = true) :
    (Pattern.group 1 word).Takes n.text (' ' :: tail) [(1, n.text)] := by
  apply Takes.group
  apply takes_word n.ne_nil (List.all_eq_true.1 hn)
  intro c hc
  cases hc
  decide

/-- A blank in front of something else. -/
theorem takes_blank (h : ∀ c ∈ text.head?, isBlank c = false) : blanks.Takes [' '] text [] :=
  takes_blanks (by decide) h

/-- Type parameters are left out in front of another sign. -/
theorem takesOnly_noTypes {c : Char} (h : c ≠ '<') :
    (maybe (exactly "<" ++ many (noneOf ">") ++ exactly ">")).TakesOnly [] (c :: tail) := by
  apply takesOnly_maybe
  apply Fails.seq
  apply Fails.seq
  apply fails_exactly (c := '<') rfl
  intro hc
  exact h (Option.some.inj hc)

/-- An arrow function up to its name. -/
theorem takesOnly_arrowHead :
    (exported ++ wordsOf ["const", "let", "var"] ++ gap).TakesOnly ([] ++ "const".toList ++ [' '])
      (n.text ++ tail) := by
  have hexported : exported.TakesOnly [] ("const".toList ++ ([' '] ++ (n.text ++ tail))) :=
    takesOnly_maybe_word (c := 'e') rfl (by decide) rfl
  have hword : (wordsOf ["const", "let", "var"]).TakesOnly "const".toList
      ([' '] ++ (n.text ++ tail)) := by
    apply (takesOnly_exactly "const" _).alt
    exact (fails_chars (by simp)).alt (fails_chars (by simp))
  exact (hexported.seq hword).seq takesOnly_gap_name

theorem takes_arrowPattern (hn : n.isWord = true) :
    arrowPattern.Takes ([] ++ "const".toList ++ [' '] ++ n.text ++ [' '] ++ "=".toList ++ [' '] ++
      [] ++ ("(".toList ++ "x".toList ++ ")".toList) ++ [' '] ++ [] ++ [] ++ "=>".toList)
      " x".toList [(2, "x".toList), (1, n.text)] := by
  have hequals : blanks.Takes [' '] "= (x) => x".toList [] := takes_blank (by decide)
  have hopen : blanks.Takes [' '] "(x) => x".toList [] := takes_blank (by decide)
  have harrow : blanks.Takes [' '] "=> x".toList [] := takes_blank (by decide)
  have hasync : (maybe (exactly "async" ++ gap)).Takes [] "(x) => x".toList [] :=
    (takesOnly_maybe_word (c := 'a') (d := '(') rfl (by decide) rfl).takes
  have hlist : parameterList.Takes ("(".toList ++ "x".toList ++ ")".toList) " => x".toList
      [(2, "x".toList)] :=
    ((takesOnly_exactly "(" _).takes.seq (takes_parameters (by decide))).seq
      (takesOnly_exactly ")" _).takes
  have hresult : (maybe (exactly ":" ++ blanks ++ fewest (noneOf "="))).Takes []
      "=> x".toList [] := by
    apply (takesOnly_maybe _).takes
    apply Fails.seq
    apply Fails.seq
    exact fails_exactly (c := ':') rfl (by decide)
  have hnone : blanks.Takes [] "=> x".toList [] := (takesOnly_blanks_nil (by decide)).takes
  have hname := (takesOnly_arrowHead.takes.seq (takes_name hn)).seq hequals
  have hleft := (hname.seq (takesOnly_exactly "=" _).takes).seq hopen
  have hright := ((hleft.seq (v := []) hasync).seq hlist).seq harrow
  exact ((hright.seq (v := []) hresult).seq (v := []) hnone).seq (takesOnly_exactly "=>" _).takes

theorem fails_arrowPattern (hn : n.isWord = false) : arrowPattern.Fails (arrowLine n) := by
  have hequals : ∀ c more, c ∈ n.text → (blanks ++ exactly "=").Fails (c :: more) := by
    intro c more hc
    apply (takesOnly_blanks_of_mem hc).fails_seq
    apply fails_exactly (c := '=') rfl
    rintro ⟨⟩
    exact n.ne_of_mem hc (by decide) rfl
  -- The pattern fails at the equals sign, whatever its last seven parts are.
  iterate 7 apply Fails.seq
  apply Fails.assoc
  apply Fails.assoc
  rw [arrowLine_eq]
  exact takesOnly_arrowHead.fails_seq (fails_name hn hequals)

/-- A type alias up to its name. -/
theorem takesOnly_aliasHead :
    (exported ++ exactly "type" ++ gap).TakesOnly ([] ++ "type".toList ++ [' '])
      (n.text ++ tail) := by
  have hexported : exported.TakesOnly [] ("type".toList ++ ([' '] ++ (n.text ++ tail))) :=
    takesOnly_maybe_word (c := 'e') rfl (by decide) rfl
  exact (hexported.seq (takesOnly_exactly "type" _)).seq takesOnly_gap_name

theorem takes_aliasPattern (hn : n.isWord = true) :
    aliasPattern.Takes ([] ++ "type".toList ++ [' '] ++ n.text ++ [' '] ++ [] ++ [] ++ "=".toList)
      " string".toList [(1, n.text)] := by
  have hequals : blanks.Takes [' '] "= string".toList [] := takes_blank (by decide)
  have htypes : (maybe (exactly "<" ++ many (noneOf ">") ++ exactly ">")).Takes []
      "= string".toList [] := (takesOnly_noTypes (by decide)).takes
  have hnone : blanks.Takes [] "= string".toList [] := (takesOnly_blanks_nil (by decide)).takes
  have hname := (takesOnly_aliasHead.takes.seq (takes_name hn)).seq hequals
  exact ((hname.seq (v := []) htypes).seq (v := []) hnone).seq (takesOnly_exactly "=" _).takes

theorem fails_aliasPattern (hn : n.isWord = false) : aliasPattern.Fails (aliasLine n) := by
  have hequals : ∀ c more, c ∈ n.text →
      (blanks ++ (maybe (exactly "<" ++ many (noneOf ">") ++ exactly ">") ++
        (blanks ++ exactly "="))).Fails (c :: more) := by
    intro c more hc
    have hblanks : blanks.TakesOnly [] (c :: more) := takesOnly_blanks_of_mem hc
    have htypes : (maybe (exactly "<" ++ many (noneOf ">") ++ exactly ">")).TakesOnly []
        (c :: more) := takesOnly_noTypes (n.ne_of_mem hc (by decide))
    apply hblanks.fails_seq
    apply htypes.fails_seq
    apply hblanks.fails_seq
    apply fails_exactly (c := '=') rfl
    rintro ⟨⟩
    exact n.ne_of_mem hc (by decide) rfl
  iterate 4 apply Fails.assoc
  rw [aliasLine_eq]
  exact takesOnly_aliasHead.fails_seq (fails_name hn hequals)

/-- A function begins with its keyword, or with one of the words in front of it. -/
theorem fails_functionPattern (h : text.head? = some d) (hd : d ∉ "eaf".toList) :
    functionPattern.Fails text := by
  have hne : 'e' ≠ d ∧ 'a' ≠ d ∧ 'f' ≠ d := by simpa [eq_comm] using hd
  have hexported : exported.TakesOnly [] text := takesOnly_maybe_word (c := 'e') rfl hne.1.symm h
  have hasync : (maybe (exactly "async" ++ gap)).TakesOnly [] text :=
    takesOnly_maybe_word (c := 'a') rfl hne.2.1.symm h
  have hkeyword : (exactly "function").Fails text := by
    apply fails_exactly (c := 'f') rfl
    rw [h]
    exact fun hc => hne.2.2 (Option.some.inj hc).symm
  iterate 4 apply Fails.seq
  exact (hexported.seq (v := []) hasync).fails_seq hkeyword

theorem fails_classPattern (h : text.head? = some d) (hd : d ∉ "ea".toList)
    (hclass : ¬ "class".toList <+: text) : classPattern.Fails text := by
  have hne : 'e' ≠ d ∧ 'a' ≠ d := by simpa [eq_comm] using hd
  have hexported : exported.TakesOnly [] text := takesOnly_maybe_word (c := 'e') rfl hne.1.symm h
  have habstract : (maybe (exactly "abstract" ++ gap)).TakesOnly [] text :=
    takesOnly_maybe_word (c := 'a') rfl hne.2.symm h
  iterate 4 apply Fails.seq
  exact (hexported.seq (v := []) habstract).fails_seq (fails_chars hclass)

theorem fails_interfacePattern (h : text.head? = some d) (hd : d ∉ "ei".toList) :
    interfacePattern.Fails text := by
  have hne : 'e' ≠ d ∧ 'i' ≠ d := by simpa [eq_comm] using hd
  have hexported : exported.TakesOnly [] text := takesOnly_maybe_word (c := 'e') rfl hne.1.symm h
  have hkeyword : (exactly "interface").Fails text := by
    apply fails_exactly (c := 'i') rfl
    rw [h]
    exact fun hc => hne.2 (Option.some.inj hc).symm
  iterate 3 apply Fails.seq
  exact hexported.fails_seq hkeyword

/-- Methods are indented. -/
theorem fails_methodPattern (h : ∀ c ∈ text.head?, isBlank c = false) :
    methodPattern.Fails text := by
  iterate 4 apply Fails.seq
  apply Fails.oneOrMore
  apply fails_one
  intro c hc
  rw [mem_blankItem]
  exact h c hc

end Patterns

/-- A sign that is not of a declaration does not stand on its line. -/
theorem has_sign {n : Name} {p : Place} {front back : Line} {c : Char}
    (h : p.line = front ++ (n.text ++ back)) (hc : isNameChar c = false)
    (hsign : c ∉ front ++ back) : p.has c = false := by
  rw [has, h, ← Bool.not_eq_true, List.contains_iff_mem, List.mem_append, List.mem_append]
  rintro (hmem | hmem | hmem)
  · exact hsign (List.mem_append_left _ hmem)
  · exact n.ne_of_mem hmem hc rfl
  · exact hsign (List.mem_append_right _ hmem)

/-! ## Arrow functions -/

/-- An arrow function as an outline has it. -/
def arrowItem (f : Found) : Callable :=
  .plain (String.ofList f.name.text) ⟨f.first + 1, f.last + 1⟩ ["x"] [] none

section Lines

variable {n : Name} {p : Place}

section

variable (h : p.line = arrowLine n)
include h

theorem stripped_arrow : p.stripped = arrowLine n := by
  rw [stripped, h]
  exact trim_eq_self (c := 'c') (d := 'x') rfl (by decide)
    (by simp [arrowLine_eq, List.getLast?_cons]) (by decide)

theorem type?_arrow : type? p = none := by
  have halias : aliasPattern.Fails (arrowLine n) := by
    have hexported : exported.TakesOnly [] (arrowLine n) :=
      takesOnly_maybe_word (c := 'e') (d := 'c') rfl (by decide) rfl
    iterate 6 apply Pattern.Fails.seq
    exact hexported.fails_seq (Pattern.fails_chars (by simp [arrowLine_eq]))
  rw [type?, stripped_arrow h,
    (fails_classPattern (d := 'c') rfl (by decide) (by simp [arrowLine_eq])).atHead?]
  dsimp only
  rw [(fails_interfacePattern (d := 'c') rfl (by decide)).atHead?]
  dsimp only
  rw [halias.atHead?, Option.map_none]

theorem arrowExtent_of_next {m : Name} {rest : List Line} (hafter : p.after = arrowLine m :: rest) :
    arrowExtent p = 1 := by
  have hsemicolon : p.has ';' = false := has_sign h (by decide) (by decide)
  have htrim : trim (arrowLine m) = arrowLine m := stripped_arrow (p := ⟨0, [], _, []⟩) rfl
  have hends : ((arrowLine m).contains ';' || (trim (arrowLine m)).getLast?.any (· != ',')) =
      true := by
    rw [htrim]
    simp [arrowLine_eq, List.getLast?_cons]
  rw [arrowExtent, hsemicolon, if_neg (by simp), hafter]
  dsimp only
  rw [List.findIdx?_cons, hends]
  rfl

theorem arrowExtent_of_empty {blanks : Nat} (hafter : p.after = List.replicate blanks []) :
    arrowExtent p = 0 := by
  have hsemicolon : p.has ';' = false := has_sign h (by decide) (by decide)
  rw [arrowExtent, hsemicolon, if_neg (by simp), hafter]
  dsimp only
  rw [List.findIdx?_eq_none_iff.2]
  intro line hline
  rw [List.eq_of_mem_replicate hline]
  rfl

theorem function?_arrow (hn : n.isWord = true) :
    function? p =
      some (arrowItem ⟨n, p.index, p.index + arrowExtent p⟩, arrowExtent p) := by
  obtain ⟨m, hm, hgroups⟩ := (takes_arrowPattern hn).atHead? ((arrowLine_eq n).trans (by simp))
  have hname : groupText m 1 = n.text := by
    rw [groupText, Cursor.group?, hgroups]
    rfl
  have hparameters : parameterNames (groupText m 2) = ["x"] := by
    rw [groupText, Cursor.group?, hgroups]
    rfl
  have hbrace : p.has '\x7b' = false := has_sign h (by decide) (by decide)
  have hfunction : functionPattern.atHead? (arrowLine n) = none :=
    (fails_functionPattern (d := 'c') rfl (by decide)).atHead?
  rw [function?, stripped_arrow h, hfunction, hm]
  dsimp only [Option.map_some]
  rw [hname, hparameters, hbrace, if_neg (by simp), arrowItem]
  simp

theorem function?_unseen (hn : n.isWord = false) :
    function? p = none := by
  have hfunction : functionPattern.atHead? (arrowLine n) = none :=
    (fails_functionPattern (d := 'c') rfl (by decide)).atHead?
  rw [function?, stripped_arrow h, hfunction]
  dsimp only
  rw [(fails_arrowPattern hn).atHead?, Option.map_none]

end

theorem function?_empty (h : p.line = []) : function? p = none := by
  rw [function?, stripped, h]
  rfl

theorem type?_empty (h : p.line = []) : type? p = none := by
  rw [type?, stripped, h]
  rfl

end Lines

/-- The sweep for functions deals with arrow functions. -/
theorem deals_arrows (blanks : Nat) :
    Deals (functionVisit []) arrowLine arrowItem blanks 0 where
  empty := by
    intro p h
    rw [functionVisit, function?_empty h]
    rfl
  unseen := by
    intro n p h hn
    rw [functionVisit, function?_unseen h hn]
    rfl
  next := by
    intro n m p rest h hn hafter
    apply functionVisit_of_function? rfl
    rw [function?_arrow h hn, arrowExtent_of_next h hafter]
  final := by
    intro n p h hn hafter
    apply functionVisit_of_function? rfl
    rw [function?_arrow h hn, arrowExtent_of_empty h hafter]

/-! ## Type aliases -/

/-- A type alias as an outline has it. -/
def aliasItem (f : Found) : ClassItem :=
  ⟨String.ofList f.name.text, ⟨f.first + 1, f.last + 1⟩, [], [], [], none⟩

/-- A type alias as the sweep for types has it. -/
def aliasRange (f : Found) : TypeRange := ⟨String.ofList f.name.text, f.first, f.last, []⟩

section AliasLines

variable {n : Name} {p : Place}

section

variable (h : p.line = aliasLine n)
include h

theorem stripped_alias : p.stripped = aliasLine n := by
  rw [stripped, h]
  exact trim_eq_self (c := 't') (d := 'g') rfl (by decide)
    (by simp [aliasLine_eq, List.getLast?_cons]) (by decide)

/-- The next line of a run does not go on with a union or an intersection. -/
theorem aliasExtent_of_next {m : Name} {rest : List Line} (hafter : p.after = aliasLine m :: rest) :
    aliasExtent p = 1 := by
  have hsemicolon : p.has ';' = false := has_sign h (by decide) (by decide)
  have htrim : trim (aliasLine m) = aliasLine m := stripped_alias (p := ⟨0, [], _, []⟩) rfl
  have hends : ((aliasLine m).contains ';' || !continuesType (aliasLine m)) = true := by
    rw [continuesType, htrim]
    exact Bool.or_true _
  rw [aliasExtent, hsemicolon, if_neg (by simp), hafter, List.findIdx?_cons, hends]
  rfl

/-- An empty line behind a run belongs to its last alias. -/
theorem aliasExtent_of_empty {blanks : Nat} (hafter : p.after = List.replicate blanks []) :
    aliasExtent p = min blanks 1 := by
  have hsemicolon : p.has ';' = false := has_sign h (by decide) (by decide)
  rw [aliasExtent, hsemicolon, if_neg (by simp), hafter]
  cases blanks with
  | zero => rfl
  | succ blanks =>
    rw [List.replicate_succ, List.findIdx?_cons, Nat.min_eq_right (by omega)]
    rfl

/-- The patterns for classes and interfaces fail on an alias. -/
theorem type?_alias :
    type? p = (aliasPattern.atHead? (aliasLine n)).map fun m =>
      ⟨String.ofList (groupText m 1), p.index, p.index + aliasExtent p, []⟩ := by
  have hbrace : p.has '\x7b' = false := has_sign h (by decide) (by decide)
  rw [type?, stripped_alias h,
    (fails_classPattern (d := 't') rfl (by decide) (by simp [aliasLine_eq])).atHead?]
  dsimp only
  rw [(fails_interfacePattern (d := 't') rfl (by decide)).atHead?]
  dsimp only
  rw [hbrace, if_neg (by simp)]

theorem typeVisit_alias (hn : n.isWord = true) :
    typeVisit p = ([aliasRange ⟨n, p.index, p.index + aliasExtent p⟩], aliasExtent p) := by
  obtain ⟨m, hm, hgroups⟩ := (takes_aliasPattern hn).atHead? ((aliasLine_eq n).trans (by simp))
  have hname : groupText m 1 = n.text := by
    rw [groupText, Cursor.group?, hgroups]
    rfl
  rw [typeVisit, type?_alias h, hm, Option.map_some, hname]
  dsimp only
  rw [Nat.add_sub_cancel_left]
  rfl

theorem typeVisit_unseen (hn : n.isWord = false) :
    typeVisit p = ([], 0) := by
  rw [typeVisit, type?_alias h, (fails_aliasPattern hn).atHead?]
  rfl

theorem function?_alias : function? p = none := by
  have hexported : exported.TakesOnly [] (aliasLine n) :=
    takesOnly_maybe_word (c := 'e') (d := 't') rfl (by decide) rfl
  have hkeyword : (Pattern.wordsOf ["const", "let", "var"]).Fails (aliasLine n) :=
    (Pattern.fails_chars (by simp [aliasLine_eq])).alt
      ((Pattern.fails_chars (by simp [aliasLine_eq])).alt
        (Pattern.fails_chars (by simp [aliasLine_eq])))
  have harrow : arrowPattern.Fails (aliasLine n) := by
    iterate 11 apply Pattern.Fails.seq
    exact hexported.fails_seq hkeyword
  rw [function?, stripped_alias h,
    (fails_functionPattern (d := 't') rfl (by decide)).atHead?]
  dsimp only
  rw [harrow.atHead?, Option.map_none]

end

end AliasLines

/-- The sweep for types deals with aliases. -/
theorem deals_aliases (blanks : Nat) :
    Deals typeVisit aliasLine aliasRange blanks (min blanks 1) where
  empty := by
    intro p h
    rw [typeVisit, type?_empty h]
  unseen := fun n p h hn => typeVisit_unseen h hn
  next := by
    intro n m p rest h hn hafter
    rw [typeVisit_alias h hn, aliasExtent_of_next h hafter]
  final := by
    intro n p h hn hafter
    rw [typeVisit_alias h hn, aliasExtent_of_empty h hafter]

/-! ## Outlines -/

/-- The outline of arrow functions, one on each line. -/
def arrowOutline (sourceName : String) (names : List Name) (final : Bool) : Outline :=
  outline sourceName (sourceOf (names.map arrowLine) final)

/-- The outline of type aliases, one on each line. -/
def aliasOutline (sourceName : String) (names : List Name) (final : Bool) : Outline :=
  outline sourceName (sourceOf (names.map aliasLine) final)

/-- A source has its lines, and behind them empty ones: one after a newline at the end. -/
theorem splitNewlines_sourceOf {lines : List Line} (h : ∀ line ∈ lines, '\n' ∉ line)
    (final : Bool) : ∃ blanks, splitNewlines (sourceOf lines final) =
      lines ++ List.replicate blanks [] ∧ (lines ≠ [] → blanks = final.toNat) := by
  by_cases hlines : lines = []
  · subst hlines
    cases final with
    | false => exact ⟨1, rfl, fun hne => absurd rfl hne⟩
    | true => exact ⟨2, rfl, fun hne => absurd rfl hne⟩
  · refine ⟨final.toNat, ?_, fun _ => rfl⟩
    have hsplit : splitNewlines (join ['\n'] lines) = lines := splitOn_join hlines h
    cases final with
    | false =>
      rw [sourceOf, if_neg (by simp), List.append_nil, hsplit]
      exact (List.append_nil lines).symm
    | true =>
      rw [sourceOf, if_pos rfl, splitNewlines, splitOn_append_sep, ← splitNewlines, hsplit]
      rfl

/-- A line of such a source declares something or is empty. -/
theorem line_cases {line : Name → Line} {blanks : Nat} {p : Place}
    (hp : p ∈ all (names.map line ++ List.replicate blanks [])) :
    (∃ n, p.line = line n) ∨ p.line = [] := by
  obtain ⟨passed, hlines, -⟩ := mem_allFrom_iff.1 hp
  have hmem : p.line ∈ names.map line ++ List.replicate blanks [] := by
    rw [hlines]
    exact List.mem_append_right _ List.mem_cons_self
  rcases List.mem_append.1 hmem with hmem | hmem
  · obtain ⟨n, -, hn⟩ := List.mem_map.1 hmem
    exact .inl ⟨n, hn.symm⟩
  · exact .inr (List.eq_of_mem_replicate hmem)

theorem newline_not_mem {n : Name} {front back : Line} (h : '\n' ∉ front ++ back) :
    '\n' ∉ front ++ (n.text ++ back) := by
  have hnone := has_sign (n := n) (p := ⟨0, [], _, []⟩) rfl (by decide : isNameChar '\n' = false) h
  simpa [has] using hnone

theorem arrowOutline_items (sourceName : String) (names : List Name) (final : Bool) :
    (arrowOutline sourceName names final).functions = (bareFound 0 0 names).map arrowItem ∧
      (arrowOutline sourceName names final).classes = [] := by
  have hnewline : ∀ line ∈ names.map arrowLine, '\n' ∉ line := by
    intro line hline
    obtain ⟨n, -, rfl⟩ := List.mem_map.1 hline
    exact newline_not_mem (by decide)
  obtain ⟨blanks, hsplit, -⟩ := splitNewlines_sourceOf hnewline final
  have htypes : types (names.map arrowLine ++ List.replicate blanks []) = [] := by
    apply collect_eq_nil
    intro p hp
    have hnone : type? p = none := by
      rcases line_cases hp with ⟨n, hn⟩ | hempty
      · exact type?_arrow hn
      · exact type?_empty hempty
    rw [typeVisit, hnone]
  have hfunctions := (deals_arrows blanks).collect_eq 0 [] names
  rw [arrowOutline, outline]
  dsimp only
  rw [hsplit, htypes, ← hfunctions]
  exact ⟨rfl, rfl⟩

/-- No line of a run of aliases is indented, so none of the types has a method. -/
theorem methodsOf_aliases (names : List Name) (blanks : Nat) (t : TypeRange) :
    methodsOf (all (names.map aliasLine ++ List.replicate blanks [])) t = [] := by
  rw [methodsOf, List.filterMap_eq_nil_iff]
  intro p hp
  have hfirst : ∀ c ∈ p.line.head?, isBlank c = false := by
    intro c hc
    rcases line_cases (List.mem_filter.1 hp).1 with ⟨n, hn⟩ | hempty
    · rw [hn] at hc
      cases hc
      decide
    · rw [hempty] at hc
      cases hc
  rw [method?, (fails_methodPattern hfirst).atHead?]

theorem aliasOutline_items (sourceName : String) (names : List Name) (final : Bool) :
    (aliasOutline sourceName names final).classes =
        (bareFound final.toNat 0 names).map aliasItem ∧
      (aliasOutline sourceName names final).functions = [] := by
  have hnewline : ∀ line ∈ names.map aliasLine, '\n' ∉ line := by
    intro line hline
    obtain ⟨n, -, rfl⟩ := List.mem_map.1 hline
    exact newline_not_mem (by decide)
  obtain ⟨blanks, hsplit, hblanks⟩ := splitNewlines_sourceOf hnewline final
  have hlast : bareFound (min blanks 1) 0 names = bareFound final.toNat 0 names := by
    cases names with
    | nil => rfl
    | cons n rest =>
      rw [hblanks (by simp)]
      cases final <;> rfl
  have htypes : types (names.map aliasLine ++ List.replicate blanks []) =
      (bareFound final.toNat 0 names).map aliasRange := by
    rw [← hlast]
    exact (deals_aliases blanks).collect_eq 0 [] names
  have hmethods : ∀ ranges : List TypeRange,
      ranges.flatMap (methodsOf (all (names.map aliasLine ++ List.replicate blanks []))) =
        [] := by
    intro ranges
    rw [List.flatMap_eq_nil_iff]
    exact fun t _ => methodsOf_aliases names blanks t
  have hfunctions : ∀ covered,
      functions covered (all (names.map aliasLine ++ List.replicate blanks [])) = [] := by
    intro covered
    rw [functions]
    apply collect_eq_nil
    intro p hp
    have hnone : function? p = none := by
      rcases line_cases hp with ⟨n, hn⟩ | hempty
      · exact function?_alias hn
      · exact function?_empty hempty
    rw [functionVisit, hnone]
    split <;> rfl
  rw [aliasOutline, outline]
  dsimp only
  rw [hsplit, hmethods, hfunctions, htypes, List.map_map]
  exact ⟨rfl, rfl⟩

/-- An item shows the name and the lines of what was found. -/
theorem Found.ext_of_item {f g : Found}
    (hname : String.ofList f.name.text = String.ofList g.name.text)
    (hspan : (⟨f.first + 1, f.last + 1⟩ : Span) = ⟨g.first + 1, g.last + 1⟩) : f = g := by
  obtain ⟨⟨name, _, _⟩, first, last⟩ := f
  obtain ⟨⟨name', _, _⟩, first', last'⟩ := g
  have htext : name = name' := by simpa using congrArg String.toList hname
  have hfirst := congrArg Span.first hspan
  have hlast := congrArg Span.last hspan
  dsimp only at hfirst hlast
  subst htext
  obtain rfl : first = first' := by omega
  obtain rfl : last = last' := by omega
  rfl

theorem arrowItem_injective : Function.Injective arrowItem := by
  intro f g h
  exact Found.ext_of_item (congrArg Callable.name h) (congrArg Callable.span h)

theorem aliasItem_injective : Function.Injective aliasItem := by
  intro f g h
  exact Found.ext_of_item (congrArg ClassItem.name h) (congrArg ClassItem.span h)

/-- **Of a run of declarations without semicolons every second one is found.** A declaration whose
name is a word covers the next one, and has both lines for its range. Each one is found with its own
line exactly if there is at most one, its name is a word, and, for an alias, no newline ends the
source. -/
theorem bare_declarations (sourceName : String) (names : List Name) (final : Bool) :
    ((arrowOutline sourceName names final).functions = (bareFound 0 0 names).map arrowItem ∧
      (arrowOutline sourceName names final).classes = []) ∧
    ((aliasOutline sourceName names final).classes =
        (bareFound final.toNat 0 names).map aliasItem ∧
      (aliasOutline sourceName names final).functions = []) ∧
    ((arrowOutline sourceName names final).functions = (eachOnItsLine 0 names).map arrowItem ↔
      names = [] ∨ ∃ n, names = [n] ∧ n.isWord = true) ∧
    ((aliasOutline sourceName names final).classes = (eachOnItsLine 0 names).map aliasItem ↔
      names = [] ∨ ∃ n, names = [n] ∧ n.isWord = true ∧ final = false) ∧
    ((∀ n ∈ names, n.isWord = true) →
      (arrowOutline sourceName names final).functions.length = (names.length + 1) / 2 ∧
        (aliasOutline sourceName names final).classes.length = (names.length + 1) / 2) := by
  have harrows := arrowOutline_items sourceName names final
  have haliases := aliasOutline_items sourceName names final
  refine ⟨harrows, haliases, ?_, ?_, ?_⟩
  · rw [harrows.1, (List.map_injective_iff.2 arrowItem_injective).eq_iff, bareFound_eq_iff]
    simp
  · rw [haliases.1, (List.map_injective_iff.2 aliasItem_injective).eq_iff, bareFound_eq_iff]
    simp
  · intro hwords
    rw [harrows.1, haliases.1, List.length_map, List.length_map, length_bareFound hwords,
      length_bareFound hwords]
    exact ⟨rfl, rfl⟩

theorem bare_declarations_of_three :
    ∃ names : List Name, names.map (String.ofList ·.text) = ["a", "$b", "c"] ∧
      (arrowOutline "a.ts" names true).functions.map (fun f => (f.name, f.span)) =
        [("a", ⟨1, 2⟩), ("c", ⟨3, 3⟩)] ∧
      (arrowOutline "a.ts" names true).functions ≠ (eachOnItsLine 0 names).map arrowItem := by
  let names : List Name :=
    [⟨"a".toList, by decide, by decide⟩, ⟨"$b".toList, by decide, by decide⟩,
      ⟨"c".toList, by decide, by decide⟩]
  obtain ⟨⟨hfunctions, -⟩, -, heach, -, -⟩ := bare_declarations "a.ts" names true
  refine ⟨names, rfl, ?_, fun heq => ?_⟩
  · rw [hfunctions]
    decide +kernel
  · simpa [names] using heach.1 heq

/-- Of two arrow functions, and of two aliases, the second is lost and its line belongs to the
first. -/
theorem second_declaration_lost :
    ((outline "a.ts" "const a = (x) => x\nconst b = (x) => x".toList).functions.map
        fun f => (f.name, f.span)) = [("a", ⟨1, 2⟩)] ∧
      ((outline "a.ts" "type A = string\ntype B = string".toList).classes.map
        fun c => (c.name, c.span)) = [("A", ⟨1, 2⟩)] := by
  decide +kernel

end SourceAtlas.Script
