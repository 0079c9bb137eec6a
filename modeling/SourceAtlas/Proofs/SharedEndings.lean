import SourceAtlas.Proofs.SymbolSearch

/-!
# The file that a path stands for

A question about one file names the file by a path. A path under which nothing is stored stands for
the first file whose path shares an ending with it: one of the two paths ends in the other,
character by character (`Path.ShareEnding`). That is more than that one of them is the other seen
from a folder further in (`Path.Related`), because the shared ending may begin in the middle of a
step of the longer path (`Path.SplitsStep`): a question about `main.py` is answered from
`domain.py`, and one about the empty path from the first file of all.

`Index.Serves` says which file answers for a path, and `serves_iff` that it is the one the search
comes to. All questions about one file get their answers through that search
(`answer_of_resolveFile?`, `answer_of_no_file`), and `file_question_answer` puts the two together:
whose answer it is, and when the file is one that the path has to do with.
-/

set_option autoImplicit false

namespace SourceAtlas

variable {o : Outline}

/-! ## Paths that end alike -/

namespace Path

/-- One of the paths ends in the other, character by character. -/
def ShareEnding (p q : List Char) : Prop := q <:+ p ∨ p <:+ q

/-- The paths are the same, or one of them ends in the other behind a slash. -/
def Related (p q : List Char) : Prop := p = q ∨ '/' :: q <:+ p ∨ '/' :: p <:+ q

/-- One of the paths ends in the other behind a character that is no slash. -/
def SplitsStep (p q : List Char) : Prop := ∃ c, c ≠ '/' ∧ (c :: q <:+ p ∨ c :: p <:+ q)

variable {p q : List Char}

theorem Related.symm (h : Related p q) : Related q p := by
  rcases h with rfl | hq | hp
  · exact .inl rfl
  · exact .inr (.inr hq)
  · exact .inr (.inl hp)

theorem SplitsStep.symm (h : SplitsStep p q) : SplitsStep q p := by
  obtain ⟨c, hc, hends⟩ := h
  exact ⟨c, hc, hends.symm⟩

/-- What stands before an ending is one character. -/
theorem eq_of_cons_suffix {c d : Char} (hc : c :: q <:+ p) (hd : d :: q <:+ p) : c = d := by
  have hends : c :: q <:+ d :: q := List.suffix_of_suffix_length_le hc hd (by simp)
  have heq := hends.eq_of_length (by simp)
  exact (List.cons.inj heq).1

theorem length_lt_of_cons_suffix {c : Char} (h : c :: q <:+ p) : q.length < p.length :=
  h.length_le

/-- A path that ends in another one is that path, or has a character before it. -/
theorem eq_or_cons_suffix (h : q <:+ p) : p = q ∨ ∃ c, c :: q <:+ p := by
  obtain ⟨front, rfl⟩ := h
  rcases List.eq_nil_or_concat front with rfl | ⟨first, c, rfl⟩
  · exact .inl rfl
  · exact .inr ⟨c, first, by simp⟩

theorem related_or_splitsStep (h : ShareEnding p q) : Related p q ∨ SplitsStep p q := by
  have hone : ∀ {a b : List Char}, b <:+ a → Related a b ∨ SplitsStep a b := by
    intro a b hends
    rcases eq_or_cons_suffix hends with rfl | ⟨c, hc⟩
    · exact .inl (.inl rfl)
    · by_cases hslash : c = '/'
      · exact .inl (.inr (.inl (hslash ▸ hc)))
      · exact .inr ⟨c, hslash, .inl hc⟩
  rcases h with hq | hp
  · exact hone hq
  · exact (hone hp).imp Related.symm SplitsStep.symm

theorem Related.not_splitsStep (h : Related p q) : ¬ SplitsStep p q := by
  -- The character before the shared ending is a slash; the other path is the shorter one.
  have hone : ∀ {a b : List Char}, Related a b → ∀ c, c ≠ '/' → ¬ c :: b <:+ a := by
    rintro a b (rfl | hb | ha) c hc hends
    · exact absurd (length_lt_of_cons_suffix hends) (Nat.lt_irrefl _)
    · exact hc (eq_of_cons_suffix hends hb)
    · exact absurd (length_lt_of_cons_suffix ha) (Nat.lt_asymm (length_lt_of_cons_suffix hends))
  rintro ⟨c, hc, hq | hp⟩
  · exact hone h c hc hq
  · exact hone h.symm c hc hp

/-- Of two paths that share an ending, one is the other seen from further in if and only if the
ending does not begin in the middle of a step. -/
theorem related_iff (h : ShareEnding p q) : Related p q ↔ ¬ SplitsStep p q :=
  ⟨Related.not_splitsStep, (related_or_splitsStep h).resolve_right⟩

end Path

/-! ## The file that answers -/

namespace Index

open SourceAtlas.Path (ShareEnding Related SplitsStep)

/-- The file that answers for a path: the one stored under it, or else the first whose path shares
an ending with it. -/
inductive Serves (index : Index) (path : String) : String → Outline → Prop
  | stored {o : Outline} (h : index.files.get? path = some o) : Serves index path path o
  | ending {before after : Assoc Outline} {stored : String} {o : Outline}
      (hkey : path ∉ index.files.keys) (hfiles : index.files = before ++ (stored, o) :: after)
      (hends : ShareEnding stored.toList path.toList)
      (hfirst : ∀ e ∈ before, ¬ ShareEnding e.1.toList path.toList) : Serves index path stored o

variable {index : Index} {path : String}

theorem Serves.shareEnding {stored : String} (h : index.Serves path stored o) :
    ShareEnding stored.toList path.toList := by
  cases h with
  | stored h => exact .inl List.suffix_rfl
  | ending hkey hfiles hends hfirst => exact hends

theorem endsWith_or_endsWith_iff {p q : List Char} :
    (Text.endsWith q p || Text.endsWith p q) = true ↔ ShareEnding p q := by
  rw [Bool.or_eq_true, Text.endsWith, Text.endsWith, List.isSuffixOf_iff_suffix,
    List.isSuffixOf_iff_suffix, ShareEnding]

theorem resolveFile?_of_no_key (h : index.files.get? path = none) :
    index.resolveFile? path =
      (index.files.find? fun e => Text.endsWith path.toList e.1.toList ||
        Text.endsWith e.1.toList path.toList).map Prod.snd := by
  rw [resolveFile?, h]

/-- The search comes to the file that answers for the path. -/
theorem serves_iff :
    index.resolveFile? path = some o ↔ ∃ stored, index.Serves path stored o := by
  cases hget : index.files.get? path with
  | some found =>
    rw [resolveFile?_of_get? hget, Option.some.injEq]
    constructor
    · rintro rfl
      exact ⟨path, .stored hget⟩
    · rintro ⟨stored, hserves⟩
      cases hserves with
      | stored h => exact Option.some.inj (hget.symm.trans h)
      | ending hkey => exact absurd (Assoc.mem_keys_iff.2 ⟨found, hget⟩) hkey
  | none =>
    have hkey := Assoc.get?_eq_none_iff.1 hget
    rw [resolveFile?_of_no_key hget, Option.map_eq_some_iff]
    constructor
    · rintro ⟨⟨stored, found⟩, hfound, rfl⟩
      obtain ⟨hends, before, after, hfiles, hbefore⟩ := List.find?_eq_some_iff_append.1 hfound
      refine ⟨stored, .ending hkey hfiles (endsWith_or_endsWith_iff.1 hends) fun e he hshare => ?_⟩
      have hmissed := hbefore e he
      rw [endsWith_or_endsWith_iff.2 hshare] at hmissed
      cases hmissed
    · rintro ⟨stored, hserves⟩
      cases hserves with
      | stored h => rw [hget] at h; cases h
      | ending _ hfiles hends hfirst =>
        refine
          ⟨(stored, o), List.find?_eq_some_iff_append.2 ⟨?_, _, _, hfiles, fun e he => ?_⟩, rfl⟩
        · exact endsWith_or_endsWith_iff.2 hends
        · rw [Bool.not_eq_true', Bool.eq_false_iff]
          exact fun hshare => hfirst e he (endsWith_or_endsWith_iff.1 hshare)

/-- The search finds nothing if and only if no path in the index shares an ending with the one that
is asked for. -/
theorem resolveFile?_eq_none_iff :
    index.resolveFile? path = none ↔
      ∀ stored ∈ index.files.keys, ¬ ShareEnding stored.toList path.toList := by
  constructor
  · intro hnone stored hstored hshare
    cases hget : index.files.get? path with
    | some found => rw [resolveFile?_of_get? hget] at hnone; cases hnone
    | none =>
      rw [resolveFile?_of_no_key hget, Option.map_eq_none_iff, List.find?_eq_none] at hnone
      obtain ⟨e, he, rfl⟩ := List.mem_map.1 hstored
      exact hnone e he (endsWith_or_endsWith_iff.2 hshare)
  · intro hall
    rw [Option.eq_none_iff_forall_ne_some]
    intro o ho
    obtain ⟨stored, hserves⟩ := serves_iff.1 ho
    refine hall stored ?_ hserves.shareEnding
    cases hserves with
    | stored h => exact Assoc.mem_keys_iff.2 ⟨o, h⟩
    | ending _ hfiles => simp [Assoc.keys, hfiles]

end Index

/-! ## Questions about one file -/

/-- The questions that name a file by its path, with the limits that they may set. -/
inductive FileQuestion where
  | summary
  | lines (start last : Int)
  | functions (limit : Int)
  | classes (limit : Int)
  | imports (limit : Int)
  | functionSource (name : String) (limit : Int)
  | classSource (name : String) (limit : Int)
  deriving DecidableEq, Repr

namespace FileQuestion

/-- The question, asked of an index. -/
def ask (path : String) : FileQuestion → IndexRequest
  | summary => .structureSummary (some path)
  | lines start last => .lines path start last
  | functions limit => .functions (some path) limit
  | classes limit => .classes (some path) limit
  | imports limit => .imports (some path) limit
  | functionSource name limit => .functionSource name (some path) limit
  | classSource name limit => .classSource name (some path) limit

/-- The question, asked of the file alone. -/
def alone : FileQuestion → OutlineRequest
  | summary => .structureSummary
  | lines start last => .lines start last
  | functions _ => .functions
  | classes _ => .classes
  | imports _ => .imports
  | functionSource name _ => .functionSource name
  | classSource name _ => .classSource name

/-- The most items or lines that the answer may have; a limit that is not positive is none. -/
def limit : FileQuestion → Int
  | summary | lines _ _ => 0
  | functions limit | classes limit | imports limit => limit
  | functionSource _ limit | classSource _ limit => limit

/-- The answer if there is no file for the path. -/
def noFile (path : String) : FileQuestion → Json
  | functions _ | classes _ | imports _ =>
    .array [.object [("error", .text ("file '" ++ path ++ "' not found in index"))]]
  | summary | lines _ _ | functionSource _ _ | classSource _ _ =>
    .text ("Error: file '" ++ path ++ "' not found in index")

end FileQuestion

open FileQuestion

/-- An answer cut to so many items, if it has items, or lines, if it is a text. -/
def Json.cut (limit : Int) : Json → Json
  | .array items => .array (limited limit items)
  | .text value => .text (Index.truncated limit value)
  | other => other

theorem Index.truncated_zero (text : String) : truncated 0 text = text := by simp [truncated]

theorem QueryError.message_noFile (path : String) :
    (QueryError.noFile path).message = "file '" ++ path ++ "' not found in index" := by
  have hopening : "file '" = "file " ++ "'" := by decide
  have hclosing : "' not found in index" = "'" ++ " not found in index" := by decide
  change "file " ++ ("'" ++ path ++ "'") ++ " not found in index" = _
  simp only [hopening, hclosing, String.append_assoc]

theorem QueryError.asText_noFile (path : String) :
    (QueryError.noFile path).asText = "Error: file '" ++ path ++ "' not found in index" := by
  have hopening : "Error: file '" = "Error: " ++ "file '" := by decide
  rw [asText, message_noFile, hopening]
  simp only [String.append_assoc]

namespace Index

open SourceAtlas.Path (ShareEnding Related SplitsStep)

variable {index : Index} {path : String}

theorem sourceByName_of_resolveFile? (h : index.resolveFile? path = some o)
    (source : Outline → String → Except QueryError String) (missing : QueryError) (name : String)
    (limit : Int) :
    Json.text (index.sourceByName source missing name (some path) limit) =
      (Render.text (source o name)).cut limit := by
  simp only [sourceByName, h]
  cases source o name with
  | ok text => rfl
  | error e => rfl

/-- Every question about a file is answered as the file alone would answer it, up to the limit. -/
theorem answer_of_resolveFile? (h : index.resolveFile? path = some o) (question : FileQuestion) :
    index.answer (question.ask path) = (o.answer question.alone).map (Json.cut question.limit) := by
  have htext : ∀ result : Except QueryError String,
      (Render.text result).cut 0 = Render.text result := by
    intro result
    cases result <;> simp [Render.text, Json.cut, truncated_zero]
  cases question with
  | summary =>
    simp [ask, alone, FileQuestion.limit, answer, Outline.answer,
      fileOutline, h, Except.map, Render.text, Json.cut, truncated_zero]
  | lines start last =>
    simp only [ask, alone, FileQuestion.limit, answer, Outline.answer,
      fileOutline, h, Except.map, Except.bind, htext]
  | functions limit | classes limit | imports limit =>
    simp only [ask, alone, FileQuestion.limit, answer, Outline.answer,
      listed, h, Except.map, Json.cut]
  | functionSource name limit =>
    simp only [ask, alone, FileQuestion.limit, answer, Outline.answer,
      functionSource, sourceByName_of_resolveFile? h, Except.map]
  | classSource name limit =>
    simp only [ask, alone, FileQuestion.limit, answer, Outline.answer,
      classSource, sourceByName_of_resolveFile? h, Except.map]

theorem answer_of_no_file (h : index.resolveFile? path = none) (question : FileQuestion) :
    index.answer (question.ask path) = .ok (question.noFile path) := by
  cases question <;>
    simp only [ask, noFile, answer, fileOutline, listed, functionSource,
      classSource, sourceByName, h, Except.map, Except.bind, Render.text, Render.cause,
      QueryError.message_noFile, QueryError.asText_noFile]

/-- **Questions about a file are answered from the first file whose path ends like the one asked
for.** If no path of the index shares an ending with it, every answer is that the file was not
found. Otherwise one file answers all questions as it would alone, up to the limit: the one stored
under the path, or else the first that shares an ending. That file is the one asked for, seen from
a folder further in or further out, if and only if the shared ending does not begin in the middle of
a step. -/
theorem file_question_answer (index : Index) (path : String) (question : FileQuestion) :
    (∀ stored o, index.Serves path stored o →
        index.resolveFile? path = some o ∧
          index.answer (question.ask path) =
            (o.answer question.alone).map (Json.cut question.limit) ∧
          (Related stored.toList path.toList ↔ ¬ SplitsStep stored.toList path.toList)) ∧
      ((∀ stored o, ¬ index.Serves path stored o) ↔
        ∀ stored ∈ index.files.keys, ¬ ShareEnding stored.toList path.toList) ∧
      ((∀ stored o, ¬ index.Serves path stored o) →
        index.answer (question.ask path) = .ok (question.noFile path)) := by
  have hnone : (∀ stored o, ¬ index.Serves path stored o) ↔ index.resolveFile? path = none := by
    rw [Option.eq_none_iff_forall_ne_some]
    constructor
    · intro hserves o ho
      obtain ⟨stored, hstored⟩ := serves_iff.1 ho
      exact hserves stored o hstored
    · intro hresolve stored o hserves
      exact hresolve o (serves_iff.2 ⟨stored, hserves⟩)
  refine ⟨fun stored o hserves => ?_, ?_, fun hserves => ?_⟩
  · have hresolve := serves_iff.2 ⟨stored, hserves⟩
    exact ⟨hresolve, answer_of_resolveFile? hresolve question, Path.related_iff hserves.shareEnding⟩
  · rw [hnone, resolveFile?_eq_none_iff]
  · exact answer_of_no_file (hnone.1 hserves) question

/-- An index of one file with one line. -/
def single (path line : String) : Index :=
  { empty "/project" with files := [(path, Outline.ofLines path line.toList [line.toList])] }

/-- A file in a folder answers for its name alone. -/
theorem name_alone_answered :
    (single "pkg/main.py" "x = 1").answer (.lines "main.py" 1 1) = .ok (.text "x = 1") ∧
      Related "pkg/main.py".toList "main.py".toList := by
  have hends : '/' :: "main.py".toList <:+ "pkg/main.py".toList := by decide
  have hserves : (single "pkg/main.py" "x = 1").Serves "main.py" "pkg/main.py"
      (Outline.ofLines "pkg/main.py" "x = 1".toList ["x = 1".toList]) :=
    .ending (by decide) (List.nil_append _).symm (.inl (by decide)) (by simp)
  obtain ⟨-, hanswer, hrelated⟩ :=
    (file_question_answer (single "pkg/main.py" "x = 1") "main.py" (.lines 1 1)).1 _ _ hserves
  refine ⟨hanswer.trans rfl, hrelated.2 ?_⟩
  exact Related.not_splitsStep (.inr (.inl hends))

/-- A question about `main.py` is answered from `domain.py`, which has nothing to do with it. -/
theorem main_answered_from_domain :
    (single "domain.py" "x = 1").resolveFile? "main.py" =
        some (Outline.ofLines "domain.py" "x = 1".toList ["x = 1".toList]) ∧
      (single "domain.py" "x = 1").answer (.lines "main.py" 1 1) = .ok (.text "x = 1") ∧
      ¬ ("domain.py" = "main.py" ∨ '/' :: "main.py".toList <:+ "domain.py".toList ∨
        '/' :: "domain.py".toList <:+ "main.py".toList) := by
  refine ⟨by decide +kernel, rfl, by decide⟩

end Index

end SourceAtlas
