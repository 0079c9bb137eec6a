import Mathlib.Data.List.Sort
import SourceAtlas.Proofs.ChangeReports

/-!
# Change sets as functions of what is reported

The changes since a commit are put together from what four commands write. They depend on nothing
but the set of records: not on the order of the lines, not on the report in which a record stands,
and not on how often it is repeated.

* A line of a status report holds a record if its fields, with tabs between them, begin with a known
  status (`Tells`); a moved file has two changes in one record. Reading a line finds the changes
  that it tells of and no others (`mem_statusChanges_iff`).
* Blanks are taken off an output as a whole before it is cut into lines. If no line has blanks at
  its ends, only empty lines are lost by that (`filled_outputLines`).
* Three ascending lists are determined by what they hold, so equal sets of changes come to equal
  lists (`collectChanges_congr`).
-/

set_option autoImplicit false

namespace SourceAtlas

namespace Text

variable {cs : List Char} {ws : List (List Char)}

/-! ## Lines that are not empty -/

/-- The pieces that are not empty. -/
def filled (pieces : List (List Char)) : List (List Char) := pieces.filter fun w => !w.isEmpty

@[simp] theorem filled_nil_cons (ws : List (List Char)) : filled ([] :: ws) = filled ws := rfl

@[simp] theorem filled_cons_cons (c : Char) (w : List Char) (ws : List (List Char)) :
    filled ((c :: w) :: ws) = (c :: w) :: filled ws := rfl

theorem filled_append (us ws : List (List Char)) : filled (us ++ ws) = filled us ++ filled ws :=
  List.filter_append us ws

theorem mem_filled {w : List Char} : w ∈ filled ws ↔ w ∈ ws ∧ w ≠ [] := by
  simp [filled]

/-- Work on pieces that does nothing with an empty one needs only the others. -/
theorem flatMap_filled {α : Type} {f : List Char → List α} (hf : f [] = [])
    (ws : List (List Char)) : (filled ws).flatMap f = ws.flatMap f := by
  induction ws with
  | nil => rfl
  | cons w ws ih =>
    cases w with
    | nil => rw [filled_nil_cons, List.flatMap_cons, hf, ih, List.nil_append]
    | cons c w => rw [filled_cons_cons, List.flatMap_cons, List.flatMap_cons, ih]

theorem filled_of_cons {w : List Char} {us : List (List Char)}
    (h : filled (w :: us) = filled (w :: ws)) : filled us = filled ws := by
  cases w with
  | nil => exact h
  | cons c w => exact List.tail_eq_of_cons_eq h

/-- The text, which stands behind a character, without each newline that directly follows a carriage
return. -/
def mergeReturnsAfter (before : Char) (cs : List Char) : List Char :=
  (((before :: cs).zip cs).filter fun e => !(e.1 == '\r' && e.2 == '\n')).map Prod.snd

theorem mergeReturns_eq (cs : List Char) : mergeReturns cs = mergeReturnsAfter ' ' cs := rfl

theorem mergeReturnsAfter_cons (before c : Char) (cs : List Char) :
    mergeReturnsAfter before (c :: cs) =
      if before = '\r' ∧ c = '\n' then mergeReturnsAfter c cs
      else c :: mergeReturnsAfter c cs := by
  rw [mergeReturnsAfter, List.zip_cons_cons, List.filter_cons]
  by_cases hmerge : before = '\r' ∧ c = '\n'
  · rw [if_pos hmerge, if_neg (by simp [hmerge])]
    rfl
  · rw [if_neg hmerge, if_pos (by simpa using not_and_or.1 hmerge)]
    rfl

/-- Taking a newline behind a carriage return away removes an empty piece at most. The first piece
stays as it is, unless the carriage return stands in front of the text. -/
theorem filled_splitWhere_merged (before : Char) (cs : List Char) :
    filled (splitWhere isBreak (mergeReturnsAfter before cs)) = filled (splitWhere isBreak cs) ∧
      (before ≠ '\r' → (splitWhere isBreak (mergeReturnsAfter before cs)).head? =
        (splitWhere isBreak cs).head?) := by
  induction cs generalizing before with
  | nil => exact ⟨rfl, fun _ => rfl⟩
  | cons c cs ih =>
    obtain ⟨hfilled, hhead⟩ := ih c
    rw [mergeReturnsAfter_cons, splitWhere_cons]
    split
    · rename_i hmerge
      obtain ⟨rfl, rfl⟩ := hmerge
      refine ⟨?_, fun hne => absurd rfl hne⟩
      rw [splitStep_of_sep (by decide) (splitWhere_ne_nil _ _), filled_nil_cons, hfilled]
    rw [splitWhere_cons]
    cases hbreak : isBreak c with
    | true =>
      rw [splitStep_of_sep hbreak (splitWhere_ne_nil _ _),
        splitStep_of_sep hbreak (splitWhere_ne_nil _ _), filled_nil_cons, filled_nil_cons]
      exact ⟨hfilled, fun _ => rfl⟩
    -- The character joins the first piece on both sides, which is the same one.
    | false =>
      have hreturn : c ≠ '\r' := by
        rintro rfl
        exact absurd hbreak (by decide)
      have hsame := hhead hreturn
      cases hws : splitWhere isBreak cs with
      | nil => exact absurd hws (splitWhere_ne_nil _ _)
      | cons w ws =>
        rw [hws] at hfilled hsame
        obtain ⟨us, hus⟩ := List.head?_eq_some_iff.1 hsame
        rw [hus] at hfilled ⊢
        have hrest := filled_of_cons hfilled
        simp [splitStep, hbreak, hrest]

/-- The lines of a text that are not empty are the pieces between its breaks that are not empty. -/
theorem filled_splitBreaks (cs : List Char) :
    filled (splitBreaks cs) = filled (splitWhere isBreak cs) := by
  have hmerged := (filled_splitWhere_merged ' ' cs).1
  rw [← hmerged, ← mergeReturns_eq, splitBreaks]
  split
  · rename_i hlast
    obtain ⟨front, hfront⟩ := List.getLast?_eq_some_iff.1 hlast
    rw [hfront, List.dropLast_concat, filled_append]
    exact (List.append_nil _).symm
  · rfl

/-! ## Blanks around a text -/

/-- A text without blanks at its ends begins and ends with other characters. -/
theorem not_blank_of_trim (h : trim cs = cs) :
    (∀ c, cs.head? = some c → isBlank c = false) ∧
      ∀ c, cs.getLast? = some c → isBlank c = false := by
  constructor
  · intro c hc
    -- What begins the trimmed text begins the text without its leading blanks.
    have hfront : trim cs <+: trimLeft cs := by
      rw [trim, trimRight, dropEndWhile, ← List.reverse_suffix, List.reverse_reverse]
      exact List.dropWhile_suffix _
    rw [h] at hfront
    obtain ⟨rest, hrest⟩ := hfront
    have hfirst : (trimLeft cs).head? = some c := by
      rw [← hrest, List.head?_append, hc]
      rfl
    exact head?_trimLeft hfirst
  · intro c hc
    rw [← h, trim] at hc
    exact getLast?_trimRight hc

/-- If no line begins with a blank, taking leading blanks off a text takes empty lines off. -/
theorem filled_splitWhere_trimLeft
    (h : ∀ w ∈ filled (splitWhere isBreak cs), ∀ c, w.head? = some c → isBlank c = false) :
    filled (splitWhere isBreak (trimLeft cs)) = filled (splitWhere isBreak cs) := by
  induction cs with
  | nil => rfl
  | cons c cs ih =>
    unfold trimLeft at ih ⊢
    cases hblank : isBlank c with
    | false => rw [List.dropWhile_cons_of_neg (by simp [hblank])]
    | true =>
      rw [List.dropWhile_cons_of_pos hblank]
      rw [splitWhere_cons] at h ⊢
      cases hbreak : isBreak c with
      | true =>
        rw [splitStep_of_sep hbreak (splitWhere_ne_nil _ _), filled_nil_cons] at h ⊢
        exact ih h
      -- A blank that is no break would begin the first line.
      | false =>
        cases hws : splitWhere isBreak cs with
        | nil => exact absurd hws (splitWhere_ne_nil _ _)
        | cons w ws =>
          have hfirst := h (c :: w) (by simp [hws, splitStep, hbreak]) c rfl
          rw [hblank] at hfirst
          cases hfirst

/-- If no line ends with a blank, taking trailing blanks off a text takes empty lines off. -/
theorem filled_splitWhere_trimRight
    (h : ∀ w ∈ filled (splitWhere isBreak cs), ∀ c, w.getLast? = some c → isBlank c = false) :
    filled (splitWhere isBreak (trimRight cs)) = filled (splitWhere isBreak cs) := by
  induction cs using List.reverseRecOn with
  | nil => rfl
  | append_singleton cs c ih =>
    unfold trimRight dropEndWhile at ih ⊢
    rw [List.reverse_append, List.reverse_singleton, List.singleton_append]
    cases hblank : isBlank c with
    | false =>
      rw [List.dropWhile_cons_of_neg (by simp [hblank]), List.reverse_cons, List.reverse_reverse]
    | true =>
      rw [List.dropWhile_cons_of_pos hblank]
      cases hbreak : isBreak c with
      | true =>
        have hcut : filled (splitWhere isBreak (cs ++ [c])) = filled (splitWhere isBreak cs) := by
          rw [splitWhere_append_sep hbreak, filled_append]
          exact List.append_nil _
        rw [hcut] at h ⊢
        exact ih h
      -- A blank that is no break would end the last line.
      | false =>
        obtain ⟨ws, w, hcut⟩ := splitWhere_concat_of_not hbreak cs
        have hlast := h (w ++ [c]) (by simp [hcut, mem_filled]) c (by simp)
        rw [hblank] at hlast
        cases hlast

end Text

namespace Git

open SourceAtlas.Text

variable {output : List Char} {change : Change}
variable {more : List (List Char)} {status : List Char}

/-- No line of the output has blanks at its ends. -/
def TidyLines (output : List Char) : Prop := ∀ line ∈ splitBreaks output, trim line = line

/-- Of an output with tidy lines, all lines are read that are not empty. -/
theorem filled_outputLines (h : TidyLines output) :
    filled (outputLines output) = filled (splitBreaks output) := by
  have hends : ∀ w ∈ filled (splitWhere isBreak output),
      (∀ c, w.head? = some c → isBlank c = false) ∧
        ∀ c, w.getLast? = some c → isBlank c = false := by
    intro w hw
    rw [← filled_splitBreaks] at hw
    exact not_blank_of_trim (h w (mem_filled.1 hw).1)
  have hleft : filled (splitWhere isBreak (trimLeft output)) = filled (splitWhere isBreak output) :=
    filled_splitWhere_trimLeft fun w hw => (hends w hw).1
  have hright : filled (splitWhere isBreak (trimRight (trimLeft output))) =
      filled (splitWhere isBreak (trimLeft output)) := by
    apply filled_splitWhere_trimRight
    intro w hw
    rw [hleft] at hw
    exact (hends w hw).2
  rw [outputLines, filled_splitBreaks, filled_splitBreaks, trim, hright, hleft]

/-! ## Records -/

/-- What the fields of a record say of a file: the status, a path, and for a file that was moved the
path that it has now. -/
inductive Record : List (List Char) → Change → Prop where
  | modified (path : List Char) (more : List (List Char)) :
    Record (['M'] :: path :: more) (.modified (String.ofList path))
  | added (path : List Char) (more : List (List Char)) :
    Record (['A'] :: path :: more) (.added (String.ofList path))
  | deleted (path : List Char) (more : List (List Char)) :
    Record (['D'] :: path :: more) (.deleted (String.ofList path))
  | movedFrom (score path : List Char) (more : List (List Char)) :
    Record (('R' :: score) :: path :: more) (.deleted (String.ofList path))
  | movedTo (score path newPath : List Char) (more : List (List Char)) :
    Record (('R' :: score) :: path :: newPath :: more) (.added (String.ofList newPath))

/-- The line is a record, its fields with tabs between them, that says this of a file. -/
def Tells (line : List Char) (change : Change) : Prop :=
  ∃ fields, line = join ['\t'] fields ∧ (∀ field ∈ fields, '\t' ∉ field) ∧ Record fields change

/-- A line tells what the fields between its tabs say. -/
theorem tells_iff {line : List Char} : Tells line change ↔ Record (splitOn '\t' line) change := by
  constructor
  · rintro ⟨fields, rfl, hfields, hrecord⟩
    have hne : fields ≠ [] := by
      rintro rfl
      cases hrecord
    rwa [splitOn_join hne hfields]
  · intro hrecord
    exact ⟨_, (join_splitOn '\t' line).symm, fun _ hfield => not_mem_of_mem_splitOn hfield, hrecord⟩

/-- What a record with a status and a path says. -/
theorem record_iff {path : List Char} :
    Record (status :: path :: more) change ↔
      status = ['M'] ∧ change = .modified (String.ofList path) ∨
      status = ['A'] ∧ change = .added (String.ofList path) ∨
      status = ['D'] ∧ change = .deleted (String.ofList path) ∨
      status.head? = some 'R' ∧ (change = .deleted (String.ofList path) ∨
        ∃ newPath rest, more = newPath :: rest ∧ change = .added (String.ofList newPath)) := by
  constructor
  · intro hrecord
    cases hrecord with
    | modified => exact Or.inl ⟨rfl, rfl⟩
    | added => exact Or.inr (Or.inl ⟨rfl, rfl⟩)
    | deleted => exact Or.inr (Or.inr (Or.inl ⟨rfl, rfl⟩))
    | movedFrom => exact Or.inr (Or.inr (Or.inr ⟨rfl, Or.inl rfl⟩))
    | movedTo => exact Or.inr (Or.inr (Or.inr ⟨rfl, Or.inr ⟨_, _, rfl, rfl⟩⟩))
  · rintro (⟨rfl, rfl⟩ | ⟨rfl, rfl⟩ | ⟨rfl, rfl⟩ | ⟨hmoved, hsides⟩)
    · exact .modified path more
    · exact .added path more
    · exact .deleted path more
    · obtain ⟨score, rfl⟩ := List.head?_eq_some_iff.1 hmoved
      rcases hsides with rfl | ⟨newPath, rest, rfl, rfl⟩
      · exact .movedFrom score path more
      · exact .movedTo score path newPath rest

/-- What is read from a line by its fields: the statuses are looked for one after the other. -/
theorem statusChanges_of_fields {line path : List Char}
    (h : splitOn '\t' line = status :: path :: more) :
    statusChanges line =
      if status = ['M'] then [.modified (String.ofList path)]
      else if status = ['A'] then [.added (String.ofList path)]
      else if status = ['D'] then [.deleted (String.ofList path)]
      else if status.head? = some 'R' then
        .deleted (String.ofList path) :: ((more.map String.ofList).take 1).map .added
      else [] := by
  have hstatus : ∀ letter : Char,
      (String.ofList status == String.ofList [letter]) = true ↔ status = [letter] := by
    intro letter
    rw [beq_iff_eq, String.ofList_inj]
  have hmoved : startsWith ['R'] (String.ofList status).toList = true ↔
      status.head? = some 'R' := by
    rw [String.toList_ofList, startsWith, List.isPrefixOf_iff_prefix, List.cons_prefix_iff,
      List.head?_eq_some_iff]
    simp
  rw [statusChanges, h]
  simp only [List.map_cons, ← hstatus, ← hmoved]

/-- Reading a line finds what it tells. -/
theorem mem_statusChanges_iff {line : List Char} :
    change ∈ statusChanges line ↔ Tells line change := by
  rw [tells_iff]
  rcases hfields : splitOn '\t' line with _ | ⟨status, _ | ⟨path, more⟩⟩
  · exact absurd hfields (splitWhere_ne_nil _ _)
  -- A line without a tab is passed over.
  · rw [statusChanges, hfields]
    exact iff_of_false List.not_mem_nil (by rintro ⟨⟩)
  rw [statusChanges_of_fields hfields, record_iff]
  split_ifs with hM hA hD hR
  · simp [hM]
  · simp [hA]
  · simp [hD]
  · cases more <;> simp [hM, hA, hD, hR]
  · simp [hM, hA, hD, hR]

/-- What is read from a status report with tidy lines is what its lines tell. -/
theorem mem_reportChanges_iff (h : TidyLines output) :
    change ∈ reportChanges output ↔ ∃ line ∈ splitBreaks output, Tells line change := by
  have hempty : statusChanges [] = [] := rfl
  rw [reportChanges, ← flatMap_filled hempty, filled_outputLines h, flatMap_filled hempty,
    List.mem_flatMap]
  simp only [mem_statusChanges_iff]

/-- What is read from a line of a list of files. -/
def untrackedIn (line : List Char) : List Change :=
  if (trim line).isEmpty then [] else [.added (String.ofList (trim line))]

theorem untrackedChanges_eq (output : List Char) :
    untrackedChanges output = (outputLines output).flatMap untrackedIn := by
  rw [untrackedChanges, List.filterMap_map, List.filterMap_eq_flatMap_toList]
  apply List.flatMap_congr
  intro line _
  rw [untrackedIn, Function.comp_apply]
  split <;> rfl

/-- What is read from a list of files with tidy lines are the files on its lines. -/
theorem mem_untrackedChanges_iff (h : TidyLines output) :
    change ∈ untrackedChanges output ↔
      ∃ line ∈ splitBreaks output, line ≠ [] ∧ change = .added (String.ofList line) := by
  have hempty : untrackedIn [] = [] := rfl
  have hread : ∀ line ∈ splitBreaks output, line ≠ [] →
      untrackedIn line = [.added (String.ofList line)] := by
    intro line hline hne
    rw [untrackedIn, h line hline, if_neg (by simpa using hne)]
  rw [untrackedChanges_eq, ← flatMap_filled hempty, filled_outputLines h, List.mem_flatMap]
  constructor
  · rintro ⟨line, hline, hchange⟩
    obtain ⟨hmem, hne⟩ := mem_filled.1 hline
    rw [hread line hmem hne, List.mem_singleton] at hchange
    exact ⟨line, hmem, hne, hchange⟩
  · rintro ⟨line, hmem, hne, rfl⟩
    refine ⟨line, mem_filled.2 ⟨hmem, hne⟩, ?_⟩
    rw [hread line hmem hne]
    exact List.mem_singleton_self _

/-! ## Changes put together -/

/-- Each of the three lists is in order, with every path once. -/
theorem ascending_collectChanges (changes : List Change) :
    (collectChanges changes).modified.Pairwise (· < ·) ∧
      (collectChanges changes).added.Pairwise (· < ·) ∧
        (collectChanges changes).deleted.Pairwise (· < ·) :=
  ⟨Names.pairwise_lt_sorted (Names.nodup_ofList _), Names.pairwise_lt_sorted (Names.nodup_ofList _),
    Names.pairwise_lt_sorted (Names.nodup_ofList _)⟩

/-- Equal sets of changes come to the same. -/
theorem collectChanges_congr {found again : List Change}
    (h : ∀ change, change ∈ found ↔ change ∈ again) :
    collectChanges found = collectChanges again := by
  obtain ⟨hmodified, hadded, hdeleted⟩ := ascending_collectChanges found
  obtain ⟨hmodified', hadded', hdeleted'⟩ := ascending_collectChanges again
  rw [Changes.mk.injEq]
  refine ⟨hmodified.eq_of_mem_iff hmodified' fun path => ?_,
    hadded.eq_of_mem_iff hadded' fun path => ?_, hdeleted.eq_of_mem_iff hdeleted' fun path => ?_⟩
  · rw [(mem_collectChanges found path).1, (mem_collectChanges again path).1, h, h, h]
  · rw [(mem_collectChanges found path).2.1, (mem_collectChanges again path).2.1, h, h]
  · rw [(mem_collectChanges found path).2.2, (mem_collectChanges again path).2.2, h, h]

/-- A path is on one of the lists exactly if something is reported of it. -/
theorem mem_lists_iff {changes : List Change} {path : String} :
    path ∈ (collectChanges changes).modified ∨ path ∈ (collectChanges changes).added ∨
        path ∈ (collectChanges changes).deleted ↔ ∃ change ∈ changes, change.path = path := by
  simp only [mem_collectChanges]
  constructor
  · rintro ((h | ⟨h, -⟩) | ⟨h, -⟩ | ⟨h, -⟩)
    · exact ⟨_, h, rfl⟩
    · exact ⟨_, h, rfl⟩
    · exact ⟨_, h, rfl⟩
    · exact ⟨_, h, rfl⟩
  · rintro ⟨change, h, rfl⟩
    cases change with
    | modified path => exact Or.inl (Or.inl h)
    | added path =>
      by_cases hdeleted : .deleted path ∈ changes
      · exact Or.inl (Or.inr ⟨h, hdeleted⟩)
      · exact Or.inr (Or.inl ⟨h, hdeleted⟩)
    | deleted path =>
      by_cases hadded : .added path ∈ changes
      · exact Or.inl (Or.inr ⟨hadded, h⟩)
      · exact Or.inr (Or.inr ⟨h, hadded⟩)

/-! ## The four commands -/

/-- What the four commands write: three status reports and the list of files that are not
tracked. -/
structure Outputs where
  committed : String
  unstaged : String
  staged : String
  untracked : String

namespace Outputs

/-- The lines of the three status reports. -/
def statusLines (o : Outputs) : List (List Char) :=
  splitBreaks o.committed.toList ++ splitBreaks o.unstaged.toList ++ splitBreaks o.staged.toList

/-- The lines of the list of files that are not tracked. -/
def untrackedLines (o : Outputs) : List (List Char) := splitBreaks o.untracked.toList

/-- No line has blanks at its ends. -/
def Tidy (o : Outputs) : Prop := ∀ line ∈ o.statusLines ++ o.untrackedLines, trim line = line

/-- A record of a status report says this, or the file is in the list of those that are not
tracked. -/
def Reports (o : Outputs) (change : Change) : Prop :=
  (∃ line ∈ o.statusLines, Tells line change) ∨
    ∃ line ∈ o.untrackedLines, line ≠ [] ∧ change = .added (String.ofList line)

/-- The four commands succeed and write these outputs. -/
structure WrittenBy (o : Outputs) (git : List String → Outcome) (commit : String) : Prop where
  committed : git ["git", "diff", "--name-status", commit, "HEAD"] = .exited 0 o.committed
  unstaged : git ["git", "diff", "--name-status"] = .exited 0 o.unstaged
  staged : git ["git", "diff", "--name-status", "--cached"] = .exited 0 o.staged
  untracked : git ["git", "ls-files", "--others", "--exclude-standard"] = .exited 0 o.untracked

variable {o other : Outputs}

/-- With tidy lines, what the commands report is what the outputs say. -/
theorem WrittenBy.mem_reportedSince_iff {git : List String → Outcome} {commit : String}
    (hwritten : o.WrittenBy git commit) (h : o.Tidy) {change : Change} :
    change ∈ Id.run (reportedSince git commit) ↔ o.Reports change := by
  have hread : ∀ (read : List Char → List Change) {command : List String} {output : String},
      git command = .exited 0 output →
        Id.run (changesBy git read command) = read output.toList := by
    intro read command output houtput
    show ((git command).output?.map read).getD [] = read output.toList
    rw [houtput]
    rfl
  have hchanges : Id.run (reportedSince git commit) =
      reportChanges o.committed.toList ++ reportChanges o.unstaged.toList ++
        reportChanges o.staged.toList ++ untrackedChanges o.untracked.toList := by
    rw [← hread reportChanges hwritten.committed, ← hread reportChanges hwritten.unstaged,
      ← hread reportChanges hwritten.staged, ← hread untrackedChanges hwritten.untracked]
    rfl
  have hstatus : ∀ line ∈ o.statusLines, trim line = line := fun line hline =>
    h line (List.mem_append_left _ hline)
  have huntracked : TidyLines o.untracked.toList := fun line hline =>
    h line (List.mem_append_right _ hline)
  simp only [statusLines, List.mem_append, or_imp, forall_and] at hstatus
  obtain ⟨⟨hcommitted, hunstaged⟩, hstaged⟩ := hstatus
  simp only [hchanges, Reports, statusLines, untrackedLines, List.mem_append,
    mem_reportChanges_iff hcommitted, mem_reportChanges_iff hunstaged,
    mem_reportChanges_iff hstaged, mem_untrackedChanges_iff huntracked, or_and_right, exists_or]

/-- Outputs with the same lines, in whatever order and in whatever report, report the same. -/
theorem reports_congr (hstatus : other.statusLines.Perm o.statusLines)
    (huntracked : other.untrackedLines.Perm o.untrackedLines) (change : Change) :
    other.Reports change ↔ o.Reports change := by
  simp only [Reports, hstatus.mem_iff, huntracked.mem_iff]

theorem Tidy.of_perm (h : o.Tidy) (hstatus : other.statusLines.Perm o.statusLines)
    (huntracked : other.untrackedLines.Perm o.untrackedLines) : other.Tidy := by
  intro line hline
  exact h line ((hstatus.append huntracked).mem_iff.1 hline)

/-- A git whose four commands write these outputs. -/
def git (o : Outputs) : List String → Outcome
  | ["git", "diff", "--name-status", _, "HEAD"] => .exited 0 o.committed
  | ["git", "diff", "--name-status"] => .exited 0 o.unstaged
  | ["git", "diff", "--name-status", "--cached"] => .exited 0 o.staged
  | ["git", "ls-files", "--others", "--exclude-standard"] => .exited 0 o.untracked
  | _ => .notFound

theorem writtenBy_git (o : Outputs) (commit : String) : o.WrittenBy o.git commit where
  committed := by simp [git]
  unstaged := by simp [git]
  staged := by simp [git]
  untracked := by simp [git]

end Outputs

/-- **The changes since a commit are a function of the records.** Let the four commands succeed and
write lines without blanks at their ends. The three lists of changes are strictly ascending. A path
is on one of them if and only if a record or the list of untracked files names it. No path is both
among the added and among the deleted files, and one that is reported as added and as deleted is
among the modified ones; what is on each list is said exactly. Any other tidy outputs with the same
records come to the same changes, and so do outputs with the same lines in another order, within a
report or from one report to another. -/
theorem changes_of_records {git : List String → Outcome} {commit : String} {o : Outputs}
    (hwritten : o.WrittenBy git commit) (htidy : o.Tidy) :
    let changes := Id.run (changesSince git commit)
    (changes.modified.Pairwise (· < ·) ∧ changes.added.Pairwise (· < ·) ∧
        changes.deleted.Pairwise (· < ·)) ∧
      (∀ path, path ∈ changes.modified ∨ path ∈ changes.added ∨ path ∈ changes.deleted ↔
        ∃ change, o.Reports change ∧ change.path = path) ∧
      (∀ path, ¬ (path ∈ changes.added ∧ path ∈ changes.deleted)) ∧
      (∀ path, o.Reports (.added path) → o.Reports (.deleted path) → path ∈ changes.modified) ∧
      (∀ path, (path ∈ changes.modified ↔ o.Reports (.modified path) ∨
          o.Reports (.added path) ∧ o.Reports (.deleted path)) ∧
        (path ∈ changes.added ↔ o.Reports (.added path) ∧ ¬ o.Reports (.deleted path)) ∧
        (path ∈ changes.deleted ↔ o.Reports (.deleted path) ∧ ¬ o.Reports (.added path))) ∧
      ∀ (again : List String → Outcome) (since : String) (other : Outputs),
        other.WrittenBy again since →
          (other.Tidy → (∀ change, other.Reports change ↔ o.Reports change) →
            Id.run (changesSince again since) = changes) ∧
          (other.statusLines.Perm o.statusLines → other.untrackedLines.Perm o.untrackedLines →
            Id.run (changesSince again since) = changes) := by
  intro changes
  have hchanges : changes = collectChanges (Id.run (reportedSince git commit)) := rfl
  have hlists : ∀ path, (path ∈ changes.modified ↔ o.Reports (.modified path) ∨
      o.Reports (.added path) ∧ o.Reports (.deleted path)) ∧
      (path ∈ changes.added ↔ o.Reports (.added path) ∧ ¬ o.Reports (.deleted path)) ∧
      (path ∈ changes.deleted ↔ o.Reports (.deleted path) ∧ ¬ o.Reports (.added path)) := by
    intro path
    rw [hchanges]
    simp only [mem_collectChanges, hwritten.mem_reportedSince_iff htidy, true_and]
  -- Two outputs that report the same come to the same lists.
  have hsame : ∀ (again : List String → Outcome) (since : String) (other : Outputs),
      other.WrittenBy again since → other.Tidy →
        (∀ change, other.Reports change ↔ o.Reports change) →
          Id.run (changesSince again since) = changes := by
    intro again since other hother htidyOther hreports
    refine collectChanges_congr fun change => ?_
    exact (hother.mem_reportedSince_iff htidyOther).trans
      ((hreports change).trans (hwritten.mem_reportedSince_iff htidy).symm)
  refine ⟨?_, ?_, ?_, ?_, hlists, ?_⟩
  · rw [hchanges]
    exact ascending_collectChanges _
  · intro path
    rw [hchanges, mem_lists_iff]
    simp only [hwritten.mem_reportedSince_iff htidy]
  · rintro path ⟨hadded, hdeleted⟩
    exact ((hlists path).2.1.1 hadded).2 ((hlists path).2.2.1 hdeleted).1
  · intro path hadded hdeleted
    exact (hlists path).1.2 (Or.inr ⟨hadded, hdeleted⟩)
  · intro again since other hother
    refine ⟨hsame again since other hother, ?_⟩
    intro hstatus huntracked
    exact hsame again since other hother (htidy.of_perm hstatus huntracked)
      (Outputs.reports_congr hstatus huntracked)

/-- A file that was moved in a commit and is moved back, one that was modified, and a new one. -/
def movedBack : Outputs :=
  ⟨"R100\ta.py\tb.py\nM\tc.py\n", "R096\tb.py\ta.py\n", "", "d.py\n"⟩

/-- The same records in other reports. -/
def movedBackStaged : Outputs :=
  ⟨"", "M\tc.py\nR100\ta.py\tb.py\n", "R096\tb.py\ta.py\n", "d.py\n"⟩

/-- Both names of a file that was moved there and back are modified, wherever that is reported. -/
theorem movedBack_modified :
    movedBack.Tidy ∧ movedBackStaged.statusLines.Perm movedBack.statusLines ∧
      "a.py" ∈ (Id.run (changesSince movedBack.git "c0")).modified ∧
      "b.py" ∈ (Id.run (changesSince movedBack.git "c0")).modified ∧
      Id.run (changesSince movedBackStaged.git "c1") =
        Id.run (changesSince movedBack.git "c0") := by
  have htidy : movedBack.Tidy := by
    unfold Outputs.Tidy
    decide +kernel
  have hperm : movedBackStaged.statusLines.Perm movedBack.statusLines := by decide +kernel
  have hwritten := movedBack.writtenBy_git "c0"
  have hreports : ∀ change ∈ Id.run (reportedSince movedBack.git "c0"),
      movedBack.Reports change :=
    fun _ hchange => (hwritten.mem_reportedSince_iff htidy).1 hchange
  obtain ⟨-, -, -, hboth, -, hsame⟩ := changes_of_records hwritten htidy
  refine ⟨htidy, hperm, ?_, ?_, ?_⟩
  · apply hboth
    · exact hreports _ (by decide +kernel)
    · exact hreports _ (by decide +kernel)
  · apply hboth
    · exact hreports _ (by decide +kernel)
    · exact hreports _ (by decide +kernel)
  · exact (hsame _ _ _ (movedBackStaged.writtenBy_git "c1")).2 hperm (by decide +kernel)

end Git

end SourceAtlas
