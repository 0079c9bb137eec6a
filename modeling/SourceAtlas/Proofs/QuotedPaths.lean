import Mathlib.Data.Finset.Max
import SourceAtlas.Proofs.ChangeReports

/-!
# Paths that git quotes

Git writes a path into a status report as it is, unless the path has an unusual character: then it
writes the path between quotes and the unusual bytes as escapes (`shownPath`). Whoever reads the
report is to undo that. `reportChanges` does not: it takes what stands between tabs and newlines for
the path. And since blanks are taken off the report as a whole, a path that ends in a space loses it
at the end of a report.

`Git.recovered_iff` says for every list of records what is read from git's report of them, and when
that is what was written. Each record is read as it is shown, and only the last one may be clipped
(`reportChanges_rendered`). A path that is shown otherwise than it is cannot be made good by another
record, because quoting makes a path longer and leaves it unusual (`length_lt_shownPath`).
-/

set_option autoImplicit false

namespace SourceAtlas

variable {cs : List Char}

/-- The change for another path. -/
def Change.withPath : Change → String → Change
  | .modified _, path => .modified path
  | .added _, path => .added path
  | .deleted _, path => .deleted path

@[simp] theorem Change.path_withPath (change : Change) (path : String) :
    (change.withPath path).path = path := by
  cases change <;> rfl

@[simp] theorem Change.withPath_path (change : Change) : change.withPath change.path = change := by
  cases change <;> rfl

namespace Text

/-! ## Blanks at the end -/

/-- What stands in front of other characters than blanks is kept. -/
theorem trimRight_append (h : trimRight cs ≠ []) (front : List Char) :
    trimRight (front ++ cs) = front ++ trimRight cs := by
  induction front with
  | nil => rfl
  | cons c front ih =>
    have hne : trimRight (front ++ cs) ≠ [] := by
      rw [ih]
      simp [h]
    rw [List.cons_append, trimRight_cons, if_neg hne, ih, List.cons_append]

theorem trimRight_concat_of_blank {c : Char} (h : isBlank c = true) (cs : List Char) :
    trimRight (cs ++ [c]) = trimRight cs := by
  rw [trimRight, dropEndWhile, List.reverse_append, List.reverse_singleton, List.singleton_append,
    List.dropWhile_cons_of_pos h]
  rfl

end Text

namespace Git

open SourceAtlas.Text

variable {changes : List Change} {path : String}

/-! ## What git shows for a path -/

/-- Characters for which git quotes a path: control characters, those beyond ASCII, double quotes
and backslashes. -/
def isUnusual (c : Char) : Bool := c.toNat < 32 || 127 ≤ c.toNat || c == '"' || c == '\\'

/-- One of the characters of the path is unusual. -/
def IsQuoted (path : String) : Prop := ∃ c ∈ path.toList, isUnusual c = true

instance (path : String) : Decidable (IsQuoted path) :=
  List.decidableBEx (fun c => isUnusual c = true) path.toList

/-- An octal digit. -/
def octalDigit (n : Nat) : Char := Char.ofNat (48 + n % 8)

/-- A byte between quotes: a backslash goes before quotes and backslashes, control characters have
the letters of C if it has one for them, and all else that is unusual is written as three octal
digits. -/
def escapedByte (b : UInt8) : List Char :=
  let n := b.toNat
  if n = 34 ∨ n = 92 then ['\\', Char.ofNat n]
  else if 7 ≤ n ∧ n ≤ 13 then ['\\', ['a', 'b', 't', 'n', 'v', 'f', 'r'].getD (n - 7) 'a']
  else if n < 32 ∨ 127 ≤ n then ['\\', octalDigit (n / 64), octalDigit (n / 8), octalDigit n]
  else [Char.ofNat n]

/-- A character between quotes, byte by byte. -/
def escaped (c : Char) : List Char := (String.utf8EncodeChar c).flatMap escapedByte

/-- A path as git writes it. -/
def shownPath (path : String) : List Char :=
  if IsQuoted path then '"' :: (path.toList.flatMap escaped ++ ['"']) else path.toList

/-- A record with the path as git writes it. -/
def shown (change : Change) : Change := change.withPath (String.ofList (shownPath change.path))

/-- Git's report of a list of records: for each of them a line with its status, a tab and its path
as git writes it. -/
def rendered (changes : List Change) : List Char := written ((changes.map shown).map line)

/-- The characters from the space on, without the last of ASCII. -/
def IsPrintable (cs : List Char) : Prop := ∀ c ∈ cs, 32 ≤ c.toNat ∧ c.toNat < 127

theorem isPrintable_escapedByte (b : UInt8) : IsPrintable (escapedByte b) := by
  have hall : ∀ n < 256, ((escapedByte (UInt8.ofNat n)).all fun c =>
      decide (32 ≤ c.toNat ∧ c.toNat < 127)) = true := by
    decide +kernel
  intro c hc
  have hbyte := hall b.toNat b.toNat_lt
  rw [UInt8.ofNat_toNat, List.all_eq_true] at hbyte
  exact of_decide_eq_true (hbyte c hc)

theorem escapedByte_ne_nil (b : UInt8) : escapedByte b ≠ [] := by
  unfold escapedByte
  dsimp only
  split_ifs <;> simp

theorem escaped_ne_nil (c : Char) : escaped c ≠ [] := by
  rw [escaped, ne_eq, List.flatMap_eq_nil_iff]
  intro hnone
  obtain ⟨b, rest, hbytes⟩ := List.exists_cons_of_ne_nil (String.utf8EncodeChar_ne_nil (c := c))
  exact escapedByte_ne_nil b (hnone b (by simp [hbytes]))

theorem shownPath_of_not_isQuoted (h : ¬ IsQuoted path) :
    shownPath path = path.toList := if_neg h

theorem shownPath_of_isQuoted (h : IsQuoted path) :
    shownPath path = '"' :: (path.toList.flatMap escaped ++ ['"']) := if_pos h

/-- Whatever the path, its written form has printable characters only. -/
theorem isPrintable_shownPath (path : String) : IsPrintable (shownPath path) := by
  intro c hc
  by_cases hquoted : IsQuoted path
  · rw [shownPath_of_isQuoted hquoted] at hc
    have hquote : 32 ≤ '"'.toNat ∧ '"'.toNat < 127 := by decide
    rcases List.mem_cons.1 hc with rfl | hc
    · exact hquote
    rcases List.mem_append.1 hc with hc | hc
    · obtain ⟨d, -, hd⟩ := List.mem_flatMap.1 hc
      obtain ⟨b, -, hb⟩ := List.mem_flatMap.1 hd
      exact isPrintable_escapedByte b c hb
    · rw [List.mem_singleton.1 hc]
      exact hquote
  · rw [shownPath_of_not_isQuoted hquoted] at hc
    have husual : isUnusual c = false := by
      rw [← Bool.not_eq_true]
      exact fun hunusual => hquoted ⟨c, hc, hunusual⟩
    simp only [isUnusual, Bool.or_eq_false_iff, decide_eq_false_iff_not, Nat.not_lt,
      Nat.not_le] at husual
    exact ⟨husual.1.1.1, husual.1.1.2⟩

theorem IsPrintable.not_break (h : IsPrintable cs) :
    ∀ c ∈ cs, isBreak c = false := by
  intro c hc
  obtain ⟨hlow, hhigh⟩ := h c hc
  simp only [isBreak, Bool.or_eq_false_iff, Bool.and_eq_false_iff, decide_eq_false_iff_not,
    beq_eq_false_iff_ne]
  omega

theorem IsPrintable.not_tab (h : IsPrintable cs) : '\t' ∉ cs := by
  intro hc
  exact absurd (h _ hc).1 (by decide)

/-- A quoted path grows, and its written form would be quoted again. -/
theorem length_lt_shownPath (h : IsQuoted path) :
    path.toList.length < (shownPath path).length ∧ IsQuoted (String.ofList (shownPath path)) := by
  rw [shownPath_of_isQuoted h]
  constructor
  · have hgrows := length_le_flatMap escaped_ne_nil path.toList
    rw [List.length_cons, List.length_append]
    omega
  · exact ⟨'"', by simp, rfl⟩

@[simp] theorem path_shown (change : Change) :
    (shown change).path = String.ofList (shownPath change.path) := Change.path_withPath _ _

variable {change : Change}

theorem shown_of_not_isQuoted (h : ¬ IsQuoted change.path) : shown change = change := by
  rw [shown, shownPath_of_not_isQuoted h, String.ofList_toList, Change.withPath_path]

theorem map_shown (h : ∀ change ∈ changes, ¬ IsQuoted change.path) :
    changes.map shown = changes := by
  rw [List.map_congr_left fun change hchange => shown_of_not_isQuoted (h change hchange)]
  exact List.map_id' changes

/-! ## What is read at the end of a report -/

/-- The path ends in another character than a blank. -/
def EndsVisibly (path : String) : Prop :=
  ∃ c, path.toList.getLast? = some c ∧ isBlank c = false

/-- What is left of a record without the blanks at its end: nothing, if the path has only blanks. -/
def clipped (change : Change) : List Change :=
  if trimRight change.path.toList = [] then []
  else [change.withPath (String.ofList (trimRight change.path.toList))]

/-- The records with the last of them clipped. -/
def clipLast : List Change → List Change
  | [] => []
  | [last] => clipped last
  | change :: next :: rest => change :: clipLast (next :: rest)

theorem clipLast_concat (front : List Change) (last : Change) :
    clipLast (front ++ [last]) = front ++ clipped last := by
  induction front with
  | nil => rfl
  | cons change front ih =>
    cases front with
    | nil => rfl
    | cons next front =>
      rw [List.cons_append, List.cons_append, clipLast, ← List.cons_append, ih]
      rfl

theorem clipped_of_endsVisibly (h : EndsVisibly change.path) : clipped change = [change] := by
  obtain ⟨c, hlast, hblank⟩ := h
  have hne : change.path.toList ≠ [] := by
    intro hnil
    simp [hnil] at hlast
  rw [clipped, trimRight_eq_self hlast hblank, if_neg hne, String.ofList_toList,
    Change.withPath_path]

/-- What is left of a record that ends in a blank is another record. -/
theorem not_mem_clipped (h : ¬ EndsVisibly change.path) : change ∉ clipped change := by
  intro hmem
  unfold clipped at hmem
  split at hmem
  · cases hmem
  · rename_i hne
    have hpath := congrArg Change.path (List.mem_singleton.1 hmem)
    rw [Change.path_withPath] at hpath
    have hsame : change.path.toList = trimRight change.path.toList := by
      conv_lhs => rw [hpath, String.toList_ofList]
    obtain ⟨c, hc⟩ : ∃ c, (trimRight change.path.toList).getLast? = some c :=
      ⟨_, List.getLast?_eq_some_getLast hne⟩
    exact h ⟨c, hsame ▸ hc, getLast?_trimRight hc⟩

theorem mem_clipLast_of_endsVisibly (hmem : change ∈ changes) (hends : EndsVisibly change.path) :
    change ∈ clipLast changes := by
  induction changes using List.reverseRecOn with
  | nil => cases hmem
  | append_singleton front last =>
    rw [clipLast_concat, List.mem_append]
    rcases List.mem_append.1 hmem with hmem | hmem
    · exact Or.inl hmem
    · rw [List.mem_singleton] at hmem
      subst hmem
      rw [clipped_of_endsVisibly hends]
      exact Or.inr (List.mem_singleton_self _)

/-- A quoted path ends in its closing quote. -/
theorem endsVisibly_shown (h : IsQuoted change.path) : EndsVisibly (shown change).path := by
  refine ⟨'"', ?_, by decide⟩
  rw [path_shown, String.toList_ofList, shownPath_of_isQuoted h, ← List.cons_append]
  exact List.getLast?_concat

/-- The last line, without the blanks at the end of a report, tells of the clipped record. -/
theorem statusChanges_trimRight_line (h : IsPrintable change.path.toList) :
    statusChanges (trimRight (line change)) = clipped change := by
  have hletter := (letter_spec change).1
  rw [line, trimRight_cons, trimRight_cons, clipped]
  split
  -- The tab goes as well, and a status alone is no record.
  · simp only [hletter, Bool.false_eq_true, if_false]
    cases change <;> rfl
  · rw [if_neg (by simp)]
    have hline : letter change :: '\t' :: trimRight change.path.toList =
        line (change.withPath (String.ofList (trimRight change.path.toList))) := by
      cases change <;> simp [line, letter, Change.withPath, Change.path]
    rw [hline, statusChanges_line]
    rw [Change.path_withPath, String.toList_ofList]
    exact fun hmem => h.not_tab (subset_trimRight hmem)

theorem join_concat (lines : List (List Char)) (last : List Char) :
    join ['\n'] (lines ++ [last]) = written lines ++ last := by
  have hwritten : written (lines ++ [last]) = join ['\n'] (lines ++ [last]) ++ ['\n'] :=
    written_eq_join (by simp)
  have hparts : written (lines ++ [last]) = written lines ++ last ++ ['\n'] := by simp [written]
  rw [hparts] at hwritten
  exact (List.append_cancel_right hwritten).symm

/-- Records with printable paths are read as they are written, but for blanks behind the last. -/
theorem reportChanges_written_concat {front : List Change} {last : Change}
    (h : ∀ change ∈ front ++ [last], IsPrintable change.path.toList) :
    reportChanges (written ((front ++ [last]).map line)) = front ++ clipped last := by
  have hbreak : ∀ change ∈ front ++ [last], ∀ c ∈ line change, isBreak c = false := by
    intro change hchange c hc
    rcases List.mem_cons.1 hc with rfl | hc
    · exact (letter_spec change).2.1
    rcases List.mem_cons.1 hc with rfl | hc
    · decide
    · exact (h change hchange).not_break c hc
  have hkept : trimRight (line last) ≠ [] := by
    rw [line, trimRight_cons]
    split
    · simp [(letter_spec last).1]
    · simp
  -- Only the end of the last line is lost.
  have htrim : trim (written ((front ++ [last]).map line)) =
      join ['\n'] (front.map line ++ [trimRight (line last)]) := by
    have hleft : trimLeft (written ((front ++ [last]).map line)) =
        written ((front ++ [last]).map line) := by
      cases front with
      | nil => exact List.dropWhile_cons_of_neg (by simp [(letter_spec last).1])
      | cons first front => exact List.dropWhile_cons_of_neg (by simp [(letter_spec first).1])
    have hparts : written ((front ++ [last]).map line) =
        written (front.map line) ++ (line last ++ ['\n']) := by simp [written]
    have hend : trimRight (line last ++ ['\n']) = trimRight (line last) :=
      trimRight_concat_of_blank (by decide) _
    rw [trim, hleft, hparts, trimRight_append (hend ▸ hkept), hend, join_concat]
  have hlines : ∀ l ∈ front.map line ++ [trimRight (line last)], ∀ c ∈ l, isBreak c = false := by
    intro l hl
    rcases List.mem_append.1 hl with hl | hl
    · obtain ⟨change, hchange, rfl⟩ := List.mem_map.1 hl
      exact hbreak change (List.mem_append_left _ hchange)
    · rw [List.mem_singleton.1 hl]
      exact fun c hc => hbreak last (by simp) c (subset_trimRight hc)
  have hfront : (front.map line).flatMap statusChanges = front := by
    rw [List.flatMap_map, List.flatMap_congr fun change hchange =>
      statusChanges_line (h change (List.mem_append_left _ hchange)).not_tab]
    exact List.flatMap_singleton' front
  rw [reportChanges, outputLines, htrim, splitBreaks_join hlines rfl hkept, List.flatMap_append,
    hfront, List.flatMap_singleton, statusChanges_trimRight_line (h last (by simp))]

/-- Git's report of records is read as the records are shown, but for blanks at its end. -/
theorem reportChanges_rendered (changes : List Change) :
    reportChanges (rendered changes) = clipLast (changes.map shown) := by
  induction changes using List.reverseRecOn with
  | nil => rfl
  | append_singleton front last _ =>
    rw [rendered, List.map_append, List.map_singleton, clipLast_concat]
    apply reportChanges_written_concat
    intro change hchange
    have hshown : change ∈ (front ++ [last]).map shown := by simpa using hchange
    obtain ⟨record, -, rfl⟩ := List.mem_map.1 hshown
    rw [path_shown, String.toList_ofList]
    exact isPrintable_shownPath record.path

/-! ## When paths are recovered -/

/-- If all records are recovered, no path is quoted: the longest of the quoted ones is read as a
longer one, which is no record. -/
theorem not_isQuoted_of_recovered
    (h : ∀ change, change ∈ clipLast (changes.map shown) ↔ change ∈ changes) :
    ∀ change ∈ changes, ¬ IsQuoted change.path := by
  intro change hchange hquoted
  obtain ⟨longest, hlongest, hmax⟩ :=
    (changes.toFinset.filter fun c => IsQuoted c.path).exists_max_image
      (fun c => c.path.toList.length) ⟨change, by simp [hchange, hquoted]⟩
  rw [Finset.mem_filter, List.mem_toFinset] at hlongest
  obtain ⟨hmem, hlongestQuoted⟩ := hlongest
  obtain ⟨hgrows, hagain⟩ := length_lt_shownPath hlongestQuoted
  -- What is shown for it is read, so it is one of the records, and is quoted itself.
  have hread : shown longest ∈ changes :=
    (h _).1 (mem_clipLast_of_endsVisibly (List.mem_map_of_mem hmem)
      (endsVisibly_shown hlongestQuoted))
  have hle := hmax (shown longest) (by simp [hread, hagain])
  rw [path_shown, String.toList_ofList] at hle
  omega

/-- With the paths as they are, all records are recovered if and only if nothing is lost at the end
of the report that does not stand in it elsewhere. -/
theorem clipLast_recovers_iff (front : List Change) (last : Change) :
    (∀ change, change ∈ clipLast (front ++ [last]) ↔ change ∈ front ++ [last]) ↔
      EndsVisibly last.path ∨ last ∈ front ∧ ∀ change ∈ clipped last, change ∈ front := by
  rw [clipLast_concat]
  constructor
  · intro h
    by_cases hends : EndsVisibly last.path
    · exact Or.inl hends
    · have hnot := not_mem_clipped hends
      refine Or.inr ⟨?_, ?_⟩
      · exact (List.mem_append.1 ((h last).2 (by simp))).resolve_right hnot
      · intro change hchange
        rcases List.mem_append.1 ((h change).1 (List.mem_append_right _ hchange)) with hmem | hmem
        · exact hmem
        · rw [List.mem_singleton] at hmem
          subst hmem
          exact absurd hchange hnot
  · rintro (hends | ⟨hlast, hclipped⟩)
    · rw [clipped_of_endsVisibly hends]
      exact fun _ => Iff.rfl
    · intro change
      rw [List.mem_append, List.mem_append, List.mem_singleton]
      constructor
      · rintro (hmem | hmem)
        · exact Or.inl hmem
        · exact Or.inl (hclipped change hmem)
      · rintro (hmem | rfl)
        · exact Or.inl hmem
        · exact Or.inl hlast

/-- **Which records are recovered from git's report of them.** From the report of any records that
files were modified, added or deleted, each record is read with its path as git writes it, and the
last without the blanks at its end. So exactly the records are recovered if and only if no path is
quoted, that is, has a control character, a quote, a backslash or a character beyond ASCII, and the
last path does not end in a blank (or the last record and what is left of it stand in the report
once more). -/
theorem recovered_iff (changes : List Change) :
    reportChanges (rendered changes) = clipLast (changes.map shown) ∧
      ((∀ change, change ∈ reportChanges (rendered changes) ↔ change ∈ changes) ↔
        (∀ change ∈ changes, ¬ IsQuoted change.path) ∧
          ∀ front last, changes = front ++ [last] →
            EndsVisibly last.path ∨ last ∈ front ∧ ∀ change ∈ clipped last, change ∈ front) := by
  have hread := reportChanges_rendered changes
  refine ⟨hread, ?_⟩
  rw [hread]
  constructor
  · intro h
    have hplain := not_isQuoted_of_recovered h
    refine ⟨hplain, ?_⟩
    rintro front last rfl
    rw [map_shown hplain] at h
    exact (clipLast_recovers_iff front last).1 h
  · rintro ⟨hplain, hend⟩
    rw [map_shown hplain]
    rcases List.eq_nil_or_concat' changes with rfl | ⟨front, last, rfl⟩
    · exact fun _ => Iff.rfl
    · exact (clipLast_recovers_iff front last).2 (hend front last rfl)

/-- A name with an accent is read as git quotes it, and a space at the end of a report is lost. -/
theorem accent_and_space_not_recovered :
    rendered [.modified "café.py", .added "a "] =
        "M\t\"caf\\303\\251.py\"\nA\ta \n".toList ∧
      reportChanges (rendered [.modified "café.py", .added "a "]) =
        [.modified "\"caf\\303\\251.py\"", .added "a"] := by
  decide +kernel

end Git

end SourceAtlas
