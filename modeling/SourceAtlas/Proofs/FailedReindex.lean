import SourceAtlas.Proofs.FaultyRuns
import SourceAtlas.Proofs.StatementLines

/-!
# What a failed update leaves

Entering a file again first releases what the index has of it and then looks at the new text. If
that fails, the index has the file still, but not its counts, symbols and imports. So a failed
update leaves the index as it was only if there was nothing to release.

`index_after_failed_reindex` says exactly when that is, for every index that a project can have: the
index did not have the file, or had it without lines. The texts that can fail are JSON texts and
Python sources, if they are nested too deeply. A further failure takes the counts of the file off
the totals once more. The outlines of JSON texts define and import nothing; for them it is the count
of lines alone that is wrong.
-/

set_option autoImplicit false

namespace SourceAtlas

open FileKind Project

variable {o : Outline} {bytes : List UInt8}

/-! ## Imports of JSON texts -/

theorem FileKind.extension_of_json {extension : String}
    (h : ofExtension extension = .json) : extension = "json" := by
  unfold ofExtension at h
  split at h <;> simp_all

/-- The extension of a name that ends in a dot and a text without dots and slashes. -/
theorem Path.extension_of_append {stem ending : List Char} (hdot : '.' ∉ ending)
    (hslash : '/' ∉ ending) :
    Path.extension (stem ++ '.' :: ending) = [] ∨
      Path.extension (stem ++ '.' :: ending) = '.' :: ending := by
  -- The last step of the path is the end of the stem, the dot and the ending.
  have hlast : ∃ front, (Path.steps (stem ++ '.' :: ending)).getLastD [] =
      front ++ '.' :: ending := by
    by_cases hstem : '/' ∈ stem
    · obtain ⟨before, front, rfl, hfront⟩ := Text.exists_last_sep hstem
      refine ⟨front, ?_⟩
      have hpiece : '/' ∉ front ++ '.' :: ending := by simp [hfront, hslash]
      rw [List.append_assoc, List.cons_append, Path.steps, Text.splitOn_append_sep,
        Text.splitOn_of_not_mem hpiece, List.getLastD_eq_getLast?, List.getLast?_concat,
        Option.getD_some]
    · have hpiece : '/' ∉ stem ++ '.' :: ending := by simp [hstem, hslash]
      exact ⟨stem, by rw [Path.steps, Text.splitOn_of_not_mem hpiece]; rfl⟩
  obtain ⟨front, hfront⟩ := hlast
  rw [Path.extension, hfront, Text.cutLast?_append hdot]
  dsimp only
  split
  · exact Or.inl rfl
  · exact Or.inr rfl

/-- No language has rules for the imports of JSON texts. -/
theorem Resolve.language?_of_json {path : String} (h : of path none = .json) :
    Resolve.language? path = none := by
  have hname : ofName path = .json := h
  unfold ofName at hname
  cases hcut : Text.cutLast? '.' path.toList with
  | none => simp [hcut] at hname
  | some parts =>
    obtain ⟨stem, ending⟩ := parts
    simp only [hcut] at hname
    obtain ⟨hpath, hdot⟩ := Text.eq_append_of_cutLast? hcut
    have hlower : ending.map Char.toLower = "json".toList := by
      have hjson := extension_of_json hname
      rw [← hjson, String.toList_ofList]
    have hslash : '/' ∉ ending := by
      intro hmem
      have hlow : Char.toLower '/' ∈ "json".toList := hlower ▸ List.mem_map_of_mem hmem
      revert hlow
      decide
    unfold Resolve.language?
    rw [hpath]
    rcases Path.extension_of_append hdot hslash with hext | hext
    · rw [hext]
      rfl
    · have hdotted : (('.' :: ending).map Char.toLower) = ".json".toList := by
        rw [List.map_cons, hlower]
        decide
      rw [hext, hdotted]
      rfl

/-! ## Arrays nested too deeply -/

/-- The bytes below 128 are read as the characters with their numbers. -/
theorem Text.utf8From?_of_ascii (h : ∀ b ∈ bytes, b < 0x80) (done : List Char) :
    utf8From? done bytes = some (done.reverse ++ bytes.map fun b => Char.ofNat b.toNat) := by
  induction bytes generalizing done with
  | nil => simp [utf8From?]
  | cons a rest ih =>
    obtain ⟨ha, hrest⟩ := List.forall_mem_cons.1 h
    rw [utf8From?.eq_def]
    dsimp only
    rw [if_pos ha, ih hrest, List.reverse_cons, List.append_assoc]
    rfl

theorem Text.unifyNewlines_of_not_mem {cs : List Char} (hnewline : '\n' ∉ cs)
    (hreturn : '\r' ∉ cs) : unifyNewlines cs = cs := by
  rw [unifyNewlines, mergeReturns_of_no_newline hnewline]
  refine (List.map_congr_left fun c hc => ?_).trans (List.map_id cs)
  have hne : c ≠ '\r' := fun he => hreturn (he ▸ hc)
  simp [hne]

/-- The bytes of arrays nested in each other. -/
def Text.nestedArrays (n : Nat) : List UInt8 := List.replicate n 91 ++ List.replicate n 93

theorem Text.ofBytes_nestedArrays (n : Nat) :
    ofBytes (nestedArrays n) = List.replicate n '[' ++ List.replicate n ']' := by
  have hascii : ∀ b ∈ nestedArrays n, b < 0x80 := by
    intro b hb
    rcases List.mem_append.1 hb with hb | hb
    · rw [(List.mem_replicate.1 hb).2]
      decide
    · rw [(List.mem_replicate.1 hb).2]
      decide
  have hread : utf8? (nestedArrays n) = some (List.replicate n '[' ++ List.replicate n ']') := by
    rw [utf8?, utf8From?_of_ascii hascii, nestedArrays, List.map_append, List.map_replicate,
      List.map_replicate]
    rfl
  rw [ofBytes, hread, Option.getD_some, unifyNewlines_of_not_mem (by simp) (by simp)]

/-- The bracket that exceeds the limit is found, whatever comes after it. There have to be two steps
of fuel for each bracket. -/
theorem Json.value_open {fuel depth n : Nat} (hdepth : depth ≤ nestingLimit)
    (hn : nestingLimit < depth + n) (hfuel : 2 * n ≤ fuel) (rest : List Char) :
    value fuel depth (List.replicate n '[' ++ rest) = .error (.tooDeep false) := by
  induction n generalizing fuel depth with
  | zero => omega
  | succ n ih =>
    obtain ⟨fuel, rfl⟩ : ∃ k, fuel = k + 2 := ⟨fuel - 2, by omega⟩
    rw [List.replicate_succ, List.cons_append, value]
    by_cases hlimit : depth ≥ nestingLimit
    · rw [if_pos hlimit]
    · obtain ⟨m, rfl⟩ : ∃ m, n = m + 1 := ⟨n - 1, by omega⟩
      have hnext : value fuel (depth + 1) (List.replicate (m + 1) '[' ++ rest) =
          .error (.tooDeep false) := ih (by omega) (by omega) (by omega)
      rw [List.replicate_succ, List.cons_append] at hnext ⊢
      have hinner : skipGaps ('[' :: (List.replicate m '[' ++ rest)) =
          '[' :: (List.replicate m '[' ++ rest) := rfl
      rw [if_neg hlimit, hinner]
      show items (fuel + 1) (depth + 1) [] ('[' :: (List.replicate m '[' ++ rest)) = _
      rw [items, hnext]

/-- Arrays nested more deeply than can be followed have no outline. -/
theorem Outline.ofBytes_nestedArrays {n : Nat} (hn : Json.nestingLimit < n) {path : String}
    (hkind : of path none = .json) :
    ofBytes (Text.nestedArrays n) path = .error (.nestedTooDeep false) := by
  have hgaps : Json.skipGaps (List.replicate n '[' ++ List.replicate n ']') =
      List.replicate n '[' ++ List.replicate n ']' := by
    obtain ⟨m, rfl⟩ : ∃ m, n = m + 1 := ⟨n - 1, by omega⟩
    rw [List.replicate_succ]
    rfl
  have hvalue : Json.ofText (List.replicate n '[' ++ List.replicate n ']') =
      .error (.tooDeep false) := by
    rw [Json.ofText, hgaps, List.length_append, List.length_replicate, List.length_replicate,
      Json.value_open (Nat.zero_le _) (by omega) (by omega)]
  unfold ofBytes ofText ofKind
  rw [hkind, String.toList_ofList, Text.ofBytes_nestedArrays]
  simp only [Data.outline, hvalue]

/-! ## Texts without lines -/

/-- Only the empty text has no lines. -/
theorem Text.eq_nil_of_splitBreaks {cs : List Char} (h : splitBreaks cs = []) : cs = [] := by
  have hne := splitWhere_ne_nil isBreak (mergeReturns cs)
  apply eq_nil_of_mergeReturns
  apply eq_nil_of_splitWhere (p := isBreak)
  simp only [splitBreaks] at h
  -- All pieces but an empty last one are lines.
  split at h
  · rename_i hlast
    obtain ⟨front, hfront⟩ := List.getLast?_eq_some_iff.1 hlast
    rw [hfront, List.dropLast_concat] at h
    rw [hfront, h]
    rfl
  · exact absurd h hne

/-! ## Outlines with nothing but lines -/

namespace Outline

variable {path : String}

/-- Of the file at the path only the lines count: it defines nothing and leads nowhere. -/
structure Bare (o : Outline) (path : String) : Prop where
  functions : o.functions = []
  classes : o.classes = []
  targets : ∀ files, o.importTargets path files = []

theorem importTargets_of_no_imports (h : o.imports = []) (path : String) (files : List String) :
    o.importTargets path files = [] := by
  simp [importTargets, h, Names.ofList, Names.insertAll]

theorem importTargets_of_no_language (h : Resolve.language? path = none) (files : List String) :
    o.importTargets path files = [] := by
  have hnone : ∀ i : ImportItem, Resolve.import? path i.source files = none := by
    intro i
    unfold Resolve.import?
    rw [h]
    split <;> rfl
  simp [importTargets, hnone, Names.ofList, Names.insertAll]

/-- All outlines of JSON texts are bare. -/
theorem bare_of_json (hkind : of path none = .json) (h : ofBytes bytes path = .ok o) :
    o.Bare path := by
  have htargets := fun files => importTargets_of_no_language (o := o)
    (Resolve.language?_of_json hkind) files
  unfold ofBytes ofText ofKind at h
  rw [hkind] at h
  simp only [Data.outline] at h
  split at h
  · cases h
  · cases h
    exact ⟨rfl, rfl, htargets⟩
  · cases h
    exact ⟨rfl, rfl, htargets⟩

theorem bare_plain (sourceName : String) (text : List Char) (path : String) :
    (plain sourceName text).Bare path :=
  ⟨rfl, rfl, importTargets_of_no_imports rfl path⟩

theorem bare_python_nil {sourceName : String} (h : Python.outline sourceName [] = .ok o) :
    o.Bare path := by
  have hempty : (Grammar.Stmt.ofSource? []).map List.isEmpty = some true := by decide +kernel
  obtain ⟨-, rfl⟩ | ⟨body, hread, rfl⟩ := Python.outline_cases h
  · exact bare_plain _ _ path
  · rw [hread] at hempty
    rw [List.isEmpty_iff.1 (Option.some.inj hempty)]
    exact ⟨rfl, rfl, importTargets_of_no_imports rfl path⟩

/-- An outline without lines is bare. -/
theorem bare_of_no_lines (h : ofBytes bytes path = .ok o) (hlines : o.totalLines = 0) :
    o.Bare path := by
  -- Most kinds cut the text at newlines, which gives a line in any case.
  have hcut : ∀ text, (Text.splitNewlines text).length ≠ 0 := fun text hzero =>
    Text.splitWhere_ne_nil _ text (List.eq_nil_of_length_eq_zero hzero)
  unfold ofBytes ofText ofKind at h
  split at h
  case h_1 =>
    have htotal : o.totalLines =
        (Text.splitBreaks (String.ofList (Text.ofBytes bytes)).toList).length := by
      obtain ⟨-, rfl⟩ | ⟨body, -, rfl⟩ := Python.outline_cases h <;> rfl
    rw [hlines] at htotal
    rw [Text.eq_nil_of_splitBreaks (List.eq_nil_of_length_eq_zero htotal.symm)] at h
    exact bare_python_nil h
  case h_3 =>
    rename_i hkind
    have hagain : ofBytes bytes path = .ok o := by
      unfold ofBytes ofText ofKind
      rw [hkind]
      exact h
    exact bare_of_json hkind hagain
  case h_8 =>
    cases h
    exact bare_plain _ _ path
  all_goals
    cases h
    simp only [Prose.outline, Script.outline, Go.outline, Rust.outline, CSharp.outline,
      ofLines] at hlines
    exact absurd hlines (hcut _)

end Outline

/-! ## Releasing a file -/

namespace Index

variable {fault : ReindexError} {skipGraphs : Bool}

/-- How many lines the index has of a file, none if it does not have the file. -/
def linesOf (index : Index) (path : String) : Nat :=
  (index.files.get? path).elim 0 Outline.totalLines

/-- The index with lines taken off the total. -/
def lessLines (index : Index) (count : Nat) : Index :=
  { index with totals := { index.totals with lines := index.totals.lines - count } }

theorem lessLines_zero (index : Index) : index.lessLines 0 = index := by
  simp [lessLines]

theorem lessLines_add (index : Index) (m n : Nat) :
    (index.lessLines m).lessLines n = index.lessLines (m + n) := by
  simp only [lessLines, Int.natCast_add, Int.sub_sub]

/-- The index with the counts of a file taken off the totals so many times. -/
def discount (index : Index) (path : String) (times : Nat) : Index :=
  { index with
    totals := Nat.iterate (fun t => (index.files.get? path).elim t t.subtract) times index.totals }

/-- A file that is released already loses its counts once more, and nothing else. -/
theorem releaseFile_discount (index : Index) (path : String) (times : Nat) :
    ((index.releaseFile path).discount path times).releaseFile path =
      (index.releaseFile path).discount path (times + 1) := by
  cases ho : index.files.get? path with
  | none =>
    have hsame : ∀ n, Nat.iterate (fun t : Totals => t) n index.totals = index.totals :=
      fun n => congrFun (Function.iterate_id n) _
    simp [releaseFile, discount, ho, hsame]
  | some o =>
    have hsymbols : Symbols.release (Symbols.release index.symbols path o.updatedNames) path
        o.updatedNames = Symbols.release index.symbols path o.updatedNames := by
      simp [Symbols.release]
    have himports : (index.imports.erase path).erase path = index.imports.erase path := by
      simp [Assoc.erase]
    have himporters : (index.importers.dropTarget path).dropTarget path =
        index.importers.dropTarget path := by
      simp [Graph.dropTarget]
    simp [releaseFile, release, discount, ho, hsymbols, himports, himporters,
      Function.iterate_succ_apply']

namespace Orderly

variable {index : Index} {path : String}

theorem not_mem_imports_of_bare (h : index.Orderly) (ho : index.files.get? path = some o)
    (hbare : o.Bare path) :
    path ∉ Assoc.keys index.imports := by
  intro hmem
  obtain ⟨targets, hget⟩ := Assoc.mem_keys_iff.1 hmem
  obtain ⟨hsome, p, files, hp, htargets⟩ := h.imports hget
  obtain rfl := Option.some.inj (ho.symm.trans hp)
  exact hsome (htargets.trans (hbare.targets files))

/-- Releasing a bare file takes its lines off the total and does nothing else. -/
theorem releaseFile_of_bare (h : index.Orderly)
    (hbare : ∀ o, index.files.get? path = some o → o.Bare path) :
    index.releaseFile path = index.lessLines (index.linesOf path) := by
  unfold Index.releaseFile linesOf
  cases ho : index.files.get? path with
  | none => exact index.lessLines_zero.symm
  | some o =>
    have hfile := hbare o ho
    have hsymbols : Symbols.release index.symbols path o.updatedNames = index.symbols := by
      simp [Symbols.release, Outline.updatedNames, hfile.functions, hfile.classes]
    have hnone := h.not_mem_imports_of_bare ho hfile
    have himports := Assoc.erase_eq_self hnone
    have himporters := h.dropTarget_importers hnone
    simp [release, lessLines, Totals.subtract, hsymbols, himports, himporters, hfile.functions,
      hfile.classes]

/-- A JSON text has lines only. -/
theorem releaseFile_of_json (h : index.Orderly) (hkind : of path none = .json) :
    index.releaseFile path = index.lessLines (index.linesOf path) := by
  refine h.releaseFile_of_bare fun o ho => ?_
  obtain ⟨bytes, hbytes⟩ := h.outline ho
  exact Outline.bare_of_json hkind hbytes

/-- Releasing a file changes nothing if and only if the index has no lines of it. -/
theorem releaseFile_eq_self_iff (h : index.Orderly) :
    index.releaseFile path = index ↔ index.linesOf path = 0 := by
  constructor
  · intro hsame
    unfold Index.releaseFile at hsame
    unfold linesOf
    cases ho : index.files.get? path with
    | none => rfl
    | some o =>
      rw [ho] at hsame
      have htotal : index.totals.lines - (o.totalLines : Int) = index.totals.lines :=
        congrArg (fun j : Index => j.totals.lines) hsame
      show o.totalLines = 0
      omega
  · intro hzero
    have hbare : ∀ o, index.files.get? path = some o → o.Bare path := by
      intro o ho
      obtain ⟨bytes, hbytes⟩ := h.outline ho
      refine Outline.bare_of_no_lines hbytes ?_
      simpa [linesOf, ho] using hzero
    rw [h.releaseFile_of_bare hbare, hzero, lessLines_zero]

end Orderly

/-! ## Failing once and again -/

variable {tree : FileTree}

theorem reindex_of_refuses {index : Index} {path : String}
    (hfail : (index.reindex tree path skipGraphs).2 = some fault) :
    index.Refuses tree path fault ∧
      (index.reindex tree path skipGraphs).1 =
        index.releaseFile (key index.root path) := by
  rcases index.reindex_outcome tree path with ⟨other, hrefuses, hleft⟩ | ⟨-, hleft⟩ | ⟨o, -, hleft⟩
  · rw [hleft] at hfail ⊢
    obtain rfl := Option.some.inj hfail
    exact ⟨hrefuses, rfl⟩
  · rw [hleft] at hfail
    cases hfail
  · rw [hleft] at hfail
    cases hfail

theorem fault_of_no_outline {index : Index} {path : String} {cause : OutlineError}
    (hnul : (absolute index.root path).contains '\x00' = false)
    (hread : tree.read? index.root.toList (absolute index.root path) = some bytes)
    (herror : Outline.ofBytes bytes (key index.root path) = .error cause)
    (skipGraphs : Bool) : (index.reindex tree path skipGraphs).2 = some (.outline cause) := by
  rw [Outline.ofBytes] at herror
  simp only [reindex, hnul, Bool.false_eq_true, if_false, hread, herror]

/-- Whether an update fails does not depend on what the index has. -/
theorem fault_eq_of_root_eq {i j : Index} (hroot : i.root = j.root) (tree : FileTree)
    (path : String) (skipGraphs : Bool) :
    (i.reindex tree path skipGraphs).2 = (j.reindex tree path skipGraphs).2 := by
  simp only [reindex, hroot]
  by_cases hnul : (absolute j.root path).contains '\x00' = true
  · simp only [hnul, if_true]
  · simp only [hnul]
    cases tree.read? j.root.toList (absolute j.root path) with
    | none => rfl
    | some bytes =>
      dsimp only
      cases Outline.ofText (String.ofList (Text.ofBytes bytes)) (key j.root path) none
        <;> rfl

/-- After each failure the file is released, with its counts taken off once more. -/
theorem iterate_reindex {index : Index} {path : String}
    (hfail : (index.reindex tree path skipGraphs).2 = some fault) (n : Nat) :
    Nat.iterate (fun j : Index => (j.reindex tree path skipGraphs).1) (n + 1) index =
      (index.releaseFile (key index.root path)).discount
        (key index.root path) n := by
  induction n with
  | zero => exact (reindex_of_refuses hfail).2
  | succ n ih =>
    have hroot : ((index.releaseFile (key index.root path)).discount
        (key index.root path) n).root = index.root := by
      show (index.releaseFile _).root = index.root
      unfold releaseFile
      split <;> rfl
    rw [Function.iterate_succ_apply', ih]
    have hagain := (fault_eq_of_root_eq hroot tree path skipGraphs).trans hfail
    rw [(reindex_of_refuses hagain).2, hroot, releaseFile_discount]

theorem Orderly.iterate_reindex_of_json {index : Index} (h : index.Orderly) {path : String}
    (hkind : of (key index.root path) none = .json)
    (hfail : (index.reindex tree path skipGraphs).2 = some fault) (n : Nat) :
    Nat.iterate (fun j : Index => (j.reindex tree path skipGraphs).1) n index =
      index.lessLines (n * index.linesOf (key index.root path)) := by
  induction n generalizing index with
  | zero => simp [lessLines_zero]
  | succ n ih =>
    have horderly := h.reindex tree path skipGraphs
    have hnext := (reindex_of_refuses hfail).2.trans (h.releaseFile_of_json hkind)
    rw [Function.iterate_succ_apply]
    rw [hnext] at horderly ⊢
    have hagain := fun count =>
      (fault_eq_of_root_eq (j := index) (i := index.lessLines count) rfl tree path skipGraphs).trans
        hfail
    rw [ih horderly hkind (hagain _)]
    show (index.lessLines _).lessLines (n * index.linesOf (key index.root path)) = _
    rw [lessLines_add, Nat.succ_mul, Nat.add_comm]

end Index

/-! ## What a failed update leaves -/

namespace Project

/-- **A failed update leaves the index as it was if and only if the index had no lines of the
file.** It leaves the file released: it is in the table of files as before, and the graphs of
dependencies are as before, but its symbols, imports and counts are gone. Every further failure
takes its counts off the totals once more and changes nothing else. Of a JSON text only the lines
are counted, so there the total of lines is all that changes. -/
theorem index_after_failed_reindex {root : String} {settings : Settings} {turns : List Turn}
    {i : Index} (hi : ((fresh root settings).through turns).index = some i) (tree : FileTree)
    (path : String) (skipGraphs : Bool) {fault : ReindexError}
    (hfail : (i.reindex tree path skipGraphs).2 = some fault) :
    let key := key i.root path
    let attempt := fun j : Index => (j.reindex tree path skipGraphs).1
    attempt i = i.releaseFile key ∧ (attempt i = i ↔ i.linesOf key = 0) ∧
      ((attempt i).files = i.files ∧ (attempt i).dependencies = i.dependencies ∧
        (attempt i).dependents = i.dependents) ∧
      (∀ n, Nat.iterate attempt (n + 1) i = (i.releaseFile key).discount key n) ∧
      (FileKind.of key none = .json →
        ∀ n, Nat.iterate attempt n i = i.lessLines (n * i.linesOf key)) := by
  have horderly := orderly_through turns hi
  intro key attempt
  have hleft : attempt i = i.releaseFile key := (Index.reindex_of_refuses hfail).2
  refine ⟨hleft, ?_, ?_, Index.iterate_reindex hfail,
    fun hkind => horderly.iterate_reindex_of_json hkind hfail⟩
  · rw [hleft]
    exact horderly.releaseFile_eq_self_iff
  · rw [hleft]
    unfold Index.releaseFile
    split <;> exact ⟨rfl, rfl, rfl⟩

/-- A file with an empty object. -/
def shallowFile : FileTree := .ofTexts [("deep.json", "\x7b\x7d")]

/-- The same file with arrays nested too deeply. -/
def deepFile : FileTree := FileTree.empty.write "deep.json" (Text.nestedArrays 5000)

theorem read?_deepFile :
    deepFile.read? "/project".toList (absolute "/project" "deep.json") =
      some (Text.nestedArrays 5000) := rfl

theorem deepFile_fails_after_shallowFile :
    ∃ i, ((fresh "/project" .usual).through [⟨shallowFile, .index⟩]).index = some i ∧
      i.files.keys = ["deep.json"] ∧ i.totals = ⟨1, 1, 0, 0⟩ ∧
      i.linesOf (key i.root "deep.json") = 1 ∧
      of (key i.root "deep.json") none = .json ∧
      (i.reindex deepFile "deep.json" false).2 = some (.outline (.nestedTooDeep false)) := by
  have hview : ((fresh "/project" .usual).through [⟨shallowFile, .index⟩]).index.map
      (fun i => (i.root, i.files.keys, i.totals, i.linesOf (key i.root "deep.json"))) =
      some ("/project", ["deep.json"], ⟨1, 1, 0, 0⟩, 1) := by decide +kernel
  obtain ⟨i, hi, hseen⟩ := Option.map_eq_some_iff.1 hview
  simp only [Prod.mk.injEq] at hseen
  obtain ⟨hroot, hkeys, htotals, hlines⟩ := hseen
  have hkind : of (key i.root "deep.json") none = .json := by
    rw [hroot]
    decide +kernel
  refine ⟨i, hi, hkeys, htotals, hlines, hkind, Index.fault_of_no_outline ?_ ?_
    (Outline.ofBytes_nestedArrays (n := 5000) (by decide) hkind) false⟩
  · rw [hroot]
    decide +kernel
  · rw [hroot]
    exact read?_deepFile

/-- The total of lines loses a file that cannot be entered, although the index still has it. -/
theorem lines_lost_with_failed_reindex :
    ∃ i, ((fresh "/project" .usual).through [⟨shallowFile, .index⟩]).index = some i ∧
      i.totals = ⟨1, 1, 0, 0⟩ ∧
      (i.reindex deepFile "deep.json" false).2 = some (.outline (.nestedTooDeep false)) ∧
      (i.reindex deepFile "deep.json" false).1.files.keys = ["deep.json"] ∧
      (i.reindex deepFile "deep.json" false).1.totals = ⟨1, 0, 0, 0⟩ := by
  obtain ⟨i, hi, hkeys, htotals, hlines, hkind, hfail⟩ := deepFile_fails_after_shallowFile
  have hreleased := (orderly_through _ hi).releaseFile_of_json hkind
  have hleft := (Index.reindex_of_refuses hfail).2.trans hreleased
  rw [hlines] at hleft
  refine ⟨i, hi, htotals, hfail, ?_, ?_⟩
  · rw [hleft]
    exact hkeys
  · rw [hleft, Index.lessLines, htotals]
    rfl

/-- After three failures the index counts fewer lines than none. -/
theorem lines_below_zero_after_three_failures :
    ∃ i, ((fresh "/project" .usual).through [⟨shallowFile, .index⟩]).index = some i ∧
      (i.reindex deepFile "deep.json" false).2 = some (.outline (.nestedTooDeep false)) ∧
      (Nat.iterate (fun j : Index => (j.reindex deepFile "deep.json" false).1) 3 i).totals =
        ⟨1, -2, 0, 0⟩ := by
  obtain ⟨i, hi, -, htotals, hlines, hkind, hfail⟩ := deepFile_fails_after_shallowFile
  obtain ⟨-, -, -, -, hrepeat⟩ := index_after_failed_reindex hi deepFile "deep.json" false hfail
  refine ⟨i, hi, hfail, ?_⟩
  rw [hrepeat hkind 3, hlines, Index.lessLines, htotals]
  rfl

end Project

end SourceAtlas
