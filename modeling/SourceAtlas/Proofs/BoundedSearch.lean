import SourceAtlas.Proofs.SymbolSearch

/-!
# Searches that stop at their limit

A search carries what it has found from line to line and from file to file, and is over with the hit
that makes up its limit. `Search.Cuts` ties the state of a search to the list of all hits on the
lines it has been through: while it goes on it has all of them, and there are fewer than the limit;
once it is over it has the first `limit` of them, whatever lines are still to come. One hit keeps
this (`Cuts.enter`), and so do the lines of a file (`Cuts.lines`) and the files one after the other
(`Cuts.files`).

So a search with a limit gives the first results of a search without one, and a search without a
limit gives every line that satisfies the test, by path and then by number, and none twice
(`Index.search_is_cut`).
-/

set_option autoImplicit false

namespace SourceAtlas

/-! ## All hits -/

namespace Hit

/-- The lines that satisfy a test, the first line having the number `n + 1`. -/
def allFrom (test : List Char → Bool) (n : Nat) : List String → List Hit
  | [] => []
  | line :: rest =>
    if test line.toList then ⟨n + 1, line⟩ :: allFrom test (n + 1) rest
    else allFrom test (n + 1) rest

variable {test : List Char → Bool} {n : Nat} {line : String} {rest : List String}

theorem allFrom_of_test (h : test line.toList = true) :
    allFrom test n (line :: rest) = ⟨n + 1, line⟩ :: allFrom test (n + 1) rest := by
  rw [allFrom, if_pos h]

theorem allFrom_of_not_test (h : ¬ test line.toList = true) :
    allFrom test n (line :: rest) = allFrom test (n + 1) rest := by
  rw [allFrom, if_neg h]

/-- The hits are the lines that satisfy the test, each with its number. -/
theorem mem_allFrom {lines : List String} {h : Hit} :
    h ∈ allFrom test n lines ↔
      ∃ i, h.line = n + i + 1 ∧ lines[i]? = some h.content ∧ test h.content.toList = true := by
  induction lines generalizing n with
  | nil => simp [allFrom]
  | cons line rest ih =>
    -- What holds of the first line is the case `i = 0`, the rest is counted from the next number.
    have hlater : h ∈ allFrom test (n + 1) rest ↔ ∃ i, h.line = n + (i + 1) + 1 ∧
        (line :: rest)[i + 1]? = some h.content ∧ test h.content.toList = true := by
      simp only [ih, List.getElem?_cons_succ, Nat.add_right_comm n 1, Nat.add_assoc]
    rw [← Nat.or_exists_add_one]
    by_cases htest : test line.toList = true
    · rw [allFrom_of_test htest, List.mem_cons, hlater]
      apply or_congr_left
      constructor
      · rintro rfl
        exact ⟨rfl, rfl, htest⟩
      · rintro ⟨hline, hcontent, -⟩
        obtain ⟨number, content⟩ := h
        cases hline
        cases hcontent
        rfl
    · rw [allFrom_of_not_test htest, hlater, iff_or_self]
      rintro ⟨-, hcontent, hholds⟩
      cases hcontent
      exact absurd hholds htest

/-- The hits come by their numbers. -/
theorem pairwise_allFrom (test : List Char → Bool) (n : Nat) (lines : List String) :
    (allFrom test n lines).Pairwise fun a b => a.line < b.line := by
  induction lines generalizing n with
  | nil => exact List.Pairwise.nil
  | cons line rest ih =>
    by_cases htest : test line.toList = true
    · rw [allFrom_of_test htest, List.pairwise_cons]
      refine ⟨?_, ih (n + 1)⟩
      intro h hlater
      obtain ⟨i, hline, -⟩ := mem_allFrom.1 hlater
      rw [hline]
      dsimp only
      omega
    · rw [allFrom_of_not_test htest]
      exact ih (n + 1)

end Hit

namespace Index

/-- The lines of all files that satisfy a test. -/
def allHits (index : Index) (test : List Char → Bool) : List FileHit :=
  index.sortedFiles.flatMap fun e => (Hit.allFrom test 0 e.2.lines).map fun h => ⟨e.1, h⟩

variable {index : Index} {test : List Char → Bool}

theorem mem_allHits (hkeys : index.files.keys.Nodup) {h : FileHit} :
    h ∈ index.allHits test ↔
      ∃ o, index.files.get? h.file = some o ∧ ∃ i, h.hit.line = i + 1 ∧
        o.lines[i]? = some h.hit.content ∧ test h.hit.content.toList = true := by
  obtain ⟨path, hit⟩ := h
  rw [allHits, List.mem_flatMap]
  constructor
  · rintro ⟨⟨key, o⟩, hfile, hhit⟩
    obtain ⟨found, hfound, heq⟩ := List.mem_map.1 hhit
    cases heq
    refine ⟨o, Assoc.get?_of_mem hkeys (mem_sortedFiles.1 hfile), ?_⟩
    simpa using Hit.mem_allFrom.1 hfound
  · rintro ⟨o, hfile, hhit⟩
    refine ⟨(path, o), mem_sortedFiles.2 (Assoc.mem_of_get? hfile), ?_⟩
    apply List.mem_map_of_mem
    rw [Hit.mem_allFrom]
    simpa using hhit

/-- No two files have the same path, so that their order by path is strict. -/
theorem pairwise_lt_sortedFiles (hkeys : index.files.keys.Nodup) :
    index.sortedFiles.Pairwise fun a b => a.1 < b.1 := by
  have hdistinct : index.sortedFiles.Pairwise fun a b => a.1 ≠ b.1 := by
    rw [← List.pairwise_map (f := Prod.fst) (R := (· ≠ ·))]
    exact ((List.mergeSort_perm _ _).map Prod.fst).nodup_iff.2 hkeys
  exact (index.pairwise_sortedFiles.and hdistinct).imp fun h => lt_of_le_of_ne h.1 h.2

/-- The hits come by the path of their file and then by their number. -/
theorem pairwise_allHits (hkeys : index.files.keys.Nodup) (test : List Char → Bool) :
    (index.allHits test).Pairwise fun a b =>
      a.file < b.file ∨ a.file = b.file ∧ a.hit.line < b.hit.line := by
  rw [allHits, List.pairwise_flatMap]
  constructor
  · intro e _
    rw [List.pairwise_map]
    exact (Hit.pairwise_allFrom test 0 e.2.lines).imp fun hlt => .inr ⟨rfl, hlt⟩
  · apply (pairwise_lt_sortedFiles hkeys).imp
    intro d e hlt a ha b hb
    obtain ⟨x, -, rfl⟩ := List.mem_map.1 ha
    obtain ⟨y, -, rfl⟩ := List.mem_map.1 hb
    exact .inl hlt

end Index

/-! ## The state of a search -/

namespace Search

variable {α : Type} {limit : Nat} {all : List α} {s : Search α}

/-- The search has been through lines on which `all` are the hits. -/
def Cuts (limit : Nat) (all : List α) : Search α → Prop
  | going found => found.reverse = all ∧ (0 < limit → all.length < limit)
  | ended results => 0 < limit ∧ limit ≤ all.length ∧ results = all.take limit

theorem cuts_start (limit : Nat) : (start : Search α).Cuts limit [] :=
  ⟨rfl, fun hlimit => hlimit⟩

/-- What the search gives are all hits, or as many as it may. -/
theorem Cuts.results_eq (h : s.Cuts limit all) :
    s.results = if 0 < limit then all.take limit else all := by
  cases s with
  | going found =>
    obtain ⟨rfl, hroom⟩ := h
    split
    · rename_i hlimit
      rw [List.take_of_length_le (Nat.le_of_lt (hroom hlimit))]
      rfl
    · rfl
  | ended results =>
    obtain ⟨hlimit, -, rfl⟩ := h
    rw [if_pos hlimit]
    rfl

/-- Hits that come when the search is over change nothing. -/
theorem Cuts.append_of_ended {results : List α} (h : (ended results).Cuts limit all)
    (more : List α) : (ended results).Cuts limit (all ++ more) := by
  obtain ⟨hlimit, hfull, rfl⟩ := h
  refine ⟨hlimit, ?_, (List.take_append_of_le_length hfull).symm⟩
  rw [List.length_append]
  omega

/-- A hit is the last one if and only if it makes up the limit. -/
theorem Cuts.enter {found : List α} (h : (going found).Cuts limit all) (hit : α) :
    (enter limit found hit).Cuts limit (all ++ [hit]) := by
  obtain ⟨rfl, hroom⟩ := h
  rw [List.length_reverse] at hroom
  unfold Search.enter
  split
  · rename_i hlast
    refine ⟨hlast.1, by simpa using hlast.2, ?_⟩
    have hexact : (found.reverse ++ [hit]).length ≤ limit := by
      simpa [Nat.succ_le_iff] using hroom hlast.1
    rw [List.take_of_length_le hexact, List.reverse_cons]
  · rename_i hgoes
    refine ⟨List.reverse_cons, fun hlimit => ?_⟩
    rw [List.length_append, List.length_reverse, List.length_singleton]
    omega

/-- The lines of a file, by induction along the lines: those that are no hits change nothing, and
once the search is over none does. -/
theorem Cuts.lines (test : List Char → Bool) (item : Hit → α) (ls : List String) (n : Nat)
    (h : s.Cuts limit all) :
    (s.lines test limit item n ls).Cuts limit (all ++ (Hit.allFrom test n ls).map item) := by
  induction ls generalizing n all s with
  | nil =>
    rw [Hit.allFrom, List.map_nil, List.append_nil]
    cases s <;> exact h
  | cons line rest ih =>
    cases s with
    | ended results => exact h.append_of_ended _
    | going found =>
      unfold Search.lines
      by_cases htest : test line.toList = true
      · have hnext := ih (n + 1) (h.enter (item ⟨n + 1, line⟩))
        rw [List.append_assoc] at hnext
        rw [if_pos htest, Hit.allFrom_of_test htest, List.map_cons]
        exact hnext
      · rw [if_neg htest, Hit.allFrom_of_not_test htest]
        exact ih (n + 1) h

/-- The files one after the other. -/
theorem Cuts.files {all : List FileHit} {s : Search FileHit} (test : List Char → Bool)
    (files : Assoc Outline) (h : s.Cuts limit all) :
    (files.foldl (fun s e => s.lines test limit (fun h => ⟨e.1, h⟩) 0 e.2.lines) s).Cuts limit
      (all ++ files.flatMap fun e =>
        (Hit.allFrom test 0 e.2.lines).map fun h => ⟨e.1, h⟩) := by
  induction files generalizing all s with
  | nil => simpa using h
  | cons e files ih =>
    have hnext := ih (h.lines test (fun h => ⟨e.1, h⟩) e.2.lines 0)
    rw [List.append_assoc] at hnext
    rw [List.foldl_cons, List.flatMap_cons]
    exact hnext

end Search

/-! ## The results -/

namespace Outline

theorem searchWhere_eq (o : Outline) (test : List Char → Bool) :
    o.searchWhere test = (Hit.allFrom test 0 o.lines).take searchLimit := by
  have hcuts := (Search.cuts_start searchLimit).lines test id o.lines 0
  rw [searchWhere, hcuts.results_eq, if_pos (by decide), List.map_id, List.nil_append]

theorem answer_search {o : Outline} {text : String} {p : Pattern}
    (h : Pattern.ofText text.toList = .ok p) :
    o.answer (.search text) =
      .ok (.array ((o.searchWhere p.occursIn).map fun h =>
        .object [("line_number", .int h.line), ("content", .text h.content)])) := by
  simp only [answer, searchBy, h, bind, Except.bind, pure, Except.pure, Render.items,
    Render.hitFields, search]

end Outline

namespace Index

variable {index : Index} {test : List Char → Bool}

theorem searchWhere_eq (index : Index) (test : List Char → Bool) (limit : Int) :
    index.searchWhere test limit =
      if 0 < limit.toNat then (index.allHits test).take limit.toNat else index.allHits test := by
  have hcuts := (Search.cuts_start limit.toNat).files test index.sortedFiles
  rw [List.nil_append] at hcuts
  exact hcuts.results_eq

/-- The answer to a search shows its results in their order. -/
theorem answer_search {text : String} {p : Pattern} (h : Pattern.ofText text.toList = .ok p)
    (limit : Int) :
    index.answer (.search text limit) =
      .ok (.array ((index.searchWhere p.occursIn limit).map fun h =>
        .object [("file", .text h.file), ("line_number", .int h.hit.line),
          ("content", .text h.hit.content)])) := by
  simp only [answer, searchBy, h, bind, Except.bind, pure, Except.pure, Render.items,
    Render.hitFields, search]

/-- **A search with a limit is cut off a search without one.** Whatever test the lines are put to,
there is one list of all results: it is in order of path and then of number, strictly, so that
nothing stands in it twice, and it has exactly the lines of the files that satisfy the test, with
their numbers. A limit that is not positive gives the whole list, any other limit its first so many
items. In the same way a search in one outline gives its first hundred hits. The answers to the
questions show these results. -/
theorem search_is_cut (index : Index) (hkeys : index.files.keys.Nodup)
    (test : List Char → Bool) :
    (∃ all : List FileHit,
        all.Pairwise (fun a b => a.file < b.file ∨ a.file = b.file ∧ a.hit.line < b.hit.line) ∧
        (∀ h, h ∈ all ↔
          ∃ o, index.files.get? h.file = some o ∧ ∃ i, h.hit.line = i + 1 ∧
            o.lines[i]? = some h.hit.content ∧ test h.hit.content.toList = true) ∧
        ∀ limit : Int, index.searchWhere test limit =
          if limit ≤ 0 then all else all.take limit.toNat) ∧
      (∀ o : Outline, ∃ all : List Hit,
        all.Pairwise (fun a b => a.line < b.line) ∧
        (∀ h, h ∈ all ↔
          ∃ i, h.line = i + 1 ∧ o.lines[i]? = some h.content ∧ test h.content.toList = true) ∧
        o.searchWhere test = all.take 100) ∧
      ∀ text p, Pattern.ofText text.toList = .ok p → p.occursIn = test →
        (∀ limit, index.answer (.search text limit) =
          .ok (.array ((index.searchWhere test limit).map fun h =>
            .object [("file", .text h.file), ("line_number", .int h.hit.line),
              ("content", .text h.hit.content)]))) ∧
        ∀ o : Outline, o.answer (.search text) =
          .ok (.array ((o.searchWhere test).map fun h =>
            .object [("line_number", .int h.line), ("content", .text h.content)])) := by
  refine ⟨⟨index.allHits test, pairwise_allHits hkeys test, fun h => mem_allHits hkeys, ?_⟩,
    fun o => ⟨Hit.allFrom test 0 o.lines, Hit.pairwise_allFrom test 0 o.lines, ?_,
      o.searchWhere_eq test⟩, ?_⟩
  · intro limit
    rw [searchWhere_eq]
    by_cases hlimit : limit ≤ 0
    · rw [if_neg (by omega), if_pos hlimit]
    · rw [if_pos (by omega), if_neg hlimit]
  · intro h
    simpa using Hit.mem_allFrom (n := 0) (h := h)
  · rintro text p htext rfl
    exact ⟨answer_search htext, fun o => Outline.answer_search htext⟩

/-- Two files, of which the first ends with its second hit. -/
def twoLists : Index :=
  { empty "/project" with
    files :=
      [("a.txt", Outline.ofLines "a.txt" [] ["todo".toList, "done".toList, "todo".toList]),
        ("b.txt", Outline.ofLines "b.txt" [] ["todo".toList])] }

/-- A limit of two stops the search at the end of the first file. -/
theorem first_two_of_three :
    twoLists.files.keys.Nodup ∧
      twoLists.searchWhere (· == "todo".toList) 0 =
        [⟨"a.txt", 1, "todo"⟩, ⟨"a.txt", 3, "todo"⟩, ⟨"b.txt", 1, "todo"⟩] ∧
      twoLists.searchWhere (· == "todo".toList) 2 =
        [⟨"a.txt", 1, "todo"⟩, ⟨"a.txt", 3, "todo"⟩] := by
  have hkeys : twoLists.files.keys.Nodup := by decide
  have hsorted : twoLists.sortedFiles = twoLists.files := List.mergeSort_of_pairwise (by decide)
  have hall : twoLists.searchWhere (· == "todo".toList) 0 =
      [⟨"a.txt", 1, "todo"⟩, ⟨"a.txt", 3, "todo"⟩, ⟨"b.txt", 1, "todo"⟩] := by
    rw [searchWhere, hsorted]
    decide +kernel
  obtain ⟨⟨all, -, -, hcut⟩, -⟩ := search_is_cut twoLists hkeys (· == "todo".toList)
  refine ⟨hkeys, hall, ?_⟩
  have hwhole := hcut 0
  rw [if_pos (by decide), hall] at hwhole
  rw [hcut 2, if_neg (by decide), ← hwhole]
  rfl

end Index

end SourceAtlas
