import SourceAtlas.Proofs.Excerpts
import SourceAtlas.Proofs.Graphs

/-!
# Which dependencies there are

The graph of dependencies is put together file by file, and names that several files define share
one node. `Graph.ofDependencies_exact` says which edges and nodes come out, whatever the files,
their order and the table of symbols are. An edge has one of two reasons: the outline of a file says
that the one definition mentions the other name, or a file imports the name and it stands as a whole
word in the lines of the definition. A name that does not count by itself, since it is no symbol, is
empty or is the definition's own, never becomes an edge.

Both reasons are said without the functions that look for them: what a whole word is by the
boundaries around it (`Text.OccursAsWord`), and what the lines of a definition are by their numbers
(`slice_eq_numbered`).
-/

set_option autoImplicit false

namespace SourceAtlas

/-! ## Whole words -/

namespace Text

variable {word text : List Char}

/-- The word stands somewhere in the text, with a word boundary at either end. -/
def OccursAsWord (word text : List Char) : Prop :=
  ∃ before after, text = before ++ word ++ after ∧
    isBoundary before.getLast? (word ++ after).head? = true ∧
      isBoundary (before ++ word).getLast? after.head? = true

theorem headsAsWord_iff {last : Option Char} :
    headsAsWord word last text = true ↔ ∃ after, text = word ++ after ∧
      isBoundary last (word ++ after).head? = true ∧
        isBoundary (word.getLast?.or last) after.head? = true := by
  rw [headsAsWord, startsWith, Bool.and_eq_true, Bool.and_eq_true, List.isPrefixOf_iff_prefix]
  constructor
  · rintro ⟨⟨⟨after, rfl⟩, hfront⟩, hback⟩
    rw [List.drop_left] at hback
    exact ⟨after, rfl, hfront, hback⟩
  · rintro ⟨after, rfl, hfront, hback⟩
    rw [List.drop_left]
    exact ⟨⟨List.prefix_append _ _, hfront⟩, hback⟩

/-- The character in front of a text is the last one before what follows its first character. -/
theorem getLast?_cons_or (c : Char) (cs : List Char) (last : Option Char) :
    (c :: cs).getLast?.or last = cs.getLast?.or (some c) := by
  rw [List.getLast?_cons]
  cases cs.getLast? <;> rfl

/-- A word is found in a text that follows a character exactly if it stands in it, where the
character counts for the boundary at the very beginning. -/
theorem holdsWordAfter_iff {last : Option Char} :
    holdsWordAfter word last text = true ↔ ∃ before after, text = before ++ word ++ after ∧
      isBoundary (before.getLast?.or last) (word ++ after).head? = true ∧
        isBoundary ((before ++ word).getLast?.or last) after.head? = true := by
  induction text generalizing last with
  | nil =>
    rw [holdsWordAfter, headsAsWord_iff]
    constructor
    · rintro ⟨after, htext, hfront, hback⟩
      exact ⟨[], after, htext, hfront, hback⟩
    · rintro ⟨before, after, htext, hfront, hback⟩
      obtain ⟨rfl, -⟩ := List.append_eq_nil_iff.1 (List.append_eq_nil_iff.1 htext.symm).1
      exact ⟨after, htext, hfront, hback⟩
  | cons c cs ih =>
    rw [holdsWordAfter, Bool.or_eq_true, headsAsWord_iff, ih]
    constructor
    · rintro (⟨after, htext, hfront, hback⟩ | ⟨before, after, rfl, hfront, hback⟩)
      · exact ⟨[], after, htext, hfront, hback⟩
      · refine ⟨c :: before, after, rfl, ?_, ?_⟩
        · rwa [getLast?_cons_or]
        · rwa [List.cons_append, getLast?_cons_or]
    · rintro ⟨_ | ⟨d, before⟩, after, htext, hfront, hback⟩
      · exact Or.inl ⟨after, htext, hfront, hback⟩
      · cases htext
        rw [getLast?_cons_or] at hfront
        rw [List.cons_append, getLast?_cons_or] at hback
        exact Or.inr ⟨before, after, rfl, hfront, hback⟩

theorem holdsWord_iff : holdsWord word text = true ↔ OccursAsWord word text := by
  rw [holdsWord, holdsWordAfter_iff]
  simp only [Option.or_none]
  rfl

end Text

/-! ## Numbered lines -/

/-- Of items that are numbered one after the other, those with numbers from `a` to `b`. -/
theorem map_filter_zipIdx {α : Type} (items : List α) (a b k : Nat) :
    ((items.zipIdx k).filter fun e => a ≤ e.2 ∧ e.2 ≤ b).map Prod.fst =
      (items.take (b + 1 - k)).drop (a - k) := by
  induction items generalizing k with
  | nil => simp
  | cons x items ih =>
    have hitems := ih (k + 1)
    rw [List.zipIdx_cons, List.filter_cons]
    by_cases hb : k ≤ b
    · -- The first item is among those that are taken, and it is dropped if it comes too early.
      obtain ⟨n, hn⟩ : ∃ n, b + 1 - k = n + 1 := ⟨b - k, by omega⟩
      have hrest : b + 1 - (k + 1) = n := by omega
      by_cases ha : a ≤ k
      · have hzero : a - k = 0 ∧ a - (k + 1) = 0 := by omega
        rw [hrest, hzero.2] at hitems
        rw [if_pos (decide_eq_true ⟨ha, hb⟩), List.map_cons, hitems, hn, hzero.1]
        rfl
      · obtain ⟨m, hm⟩ : ∃ m, a - k = m + 1 := ⟨a - k - 1, by omega⟩
        have hlater : a - (k + 1) = m := by omega
        rw [hrest, hlater] at hitems
        rw [if_neg fun hkept => ha (of_decide_eq_true hkept).1, hitems, hn, hm]
        rfl
    · have hnone : b + 1 - k = 0 ∧ b + 1 - (k + 1) = 0 := by omega
      rw [hnone.2] at hitems
      rw [if_neg fun hkept => hb (of_decide_eq_true hkept).2, hitems, hnone.1]
      simp

/-- The lines of a span are those whose numbers, counted from one, lie between its ends. -/
theorem slice_eq_numbered {lines : List String} {span : Span} (hfirst : 1 ≤ span.first)
    (hlast : 0 ≤ span.last) :
    slice lines (span.first - 1) span.last =
      ((lines.zipIdx 1).filter fun e => span.first ≤ e.2 ∧ (e.2 : Int) ≤ span.last).map
        Prod.fst := by
  obtain ⟨a, ha⟩ := Int.eq_ofNat_of_zero_le (by omega : 0 ≤ span.first - 1)
  obtain ⟨b, hb⟩ := Int.eq_ofNat_of_zero_le hlast
  have hnumbered := map_filter_zipIdx lines (a + 1) b 1
  rw [Nat.add_sub_cancel, Nat.add_sub_cancel] at hnumbered
  rw [ha, hb, slice_natCast, ← hnumbered]
  have hone : span.first = (a + 1 : Nat) := by omega
  simp only [hone, Int.ofNat_le]

/-! ## Reasons for a dependency -/

namespace Outline

variable {o : Outline} {symbols : Symbols} {source target : String}

/-- The functions and classes of a file, by the names under which they are known, with their
spans. -/
def items (o : Outline) : List (String × Span) :=
  (o.functions.map fun f => (f.qualifiedName, f.span)) ++ o.classes.map fun c => (c.name, c.span)

/-- A file imports the symbol. -/
def Imports (o : Outline) (symbols : Symbols) (target : String) : Prop :=
  (∃ i ∈ o.imports, target ∈ i.names) ∧ symbols.has target = true

/-- The outline says that the definition mentions the symbol. -/
def MentionsSymbol (o : Outline) (symbols : Symbols) (source target : String) : Prop :=
  (∃ names, (source, names) ∈ o.mentions ∧ target ∈ names) ∧ target ≠ "" ∧
    symbols.has target = true

/-- The symbol is imported and stands as a word in the lines of the definition, which are joined by
blanks. -/
def UsesImport (o : Outline) (symbols : Symbols) (source target : String) : Prop :=
  o.Imports symbols target ∧ ∃ span, (source, span) ∈ o.items ∧
    Text.OccursAsWord target.toList
      (Text.join [' '] ((slice o.lines (span.first - 1) span.last).map String.toList))

theorem mem_importedSymbols_iff :
    target ∈ o.importedSymbols symbols ↔ o.Imports symbols target := by
  rw [importedSymbols, Names.mem_ofList, List.mem_filter, List.mem_flatMap]
  rfl

theorem importedSymbols_eq_nil_iff :
    o.importedSymbols symbols = [] ↔ ¬ ∃ t, o.Imports symbols t := by
  rw [List.eq_nil_iff_forall_not_mem, not_exists]
  exact forall_congr' fun t => not_congr mem_importedSymbols_iff

/-- What is looked for in the lines of a file: one entry for each function and class, unless nothing
is imported. -/
theorem importedWords_eq (o : Outline) (symbols : Symbols) :
    o.importedWords symbols =
      if o.importedSymbols symbols = [] then []
      else o.items.map fun item => o.wordsWithin (o.importedSymbols symbols) item.1 item.2 := by
  unfold importedWords items
  split
  · rename_i hnone
    rw [if_pos hnone]
  · rename_i hsome
    rw [if_neg hsome, List.map_append, List.map_map, List.map_map]
    rfl

theorem exists_mentioned_iff :
    (∃ d ∈ o.mentionedSymbols symbols, d.source = source ∧ target ∈ d.targets) ↔
      source ≠ target ∧ o.MentionsSymbol symbols source target := by
  unfold mentionedSymbols MentionsSymbol
  constructor
  · rintro ⟨d, hd, rfl, htarget⟩
    obtain ⟨⟨key, names⟩, hmention, rfl⟩ := List.mem_map.1 hd
    obtain ⟨hname, hcounts⟩ := List.mem_filter.1 htarget
    simp only [Bool.and_eq_true, bne_iff_ne, ne_eq] at hcounts
    obtain ⟨⟨hnonempty, hother⟩, hsymbol⟩ := hcounts
    exact ⟨fun heq => hother heq.symm, ⟨names, hmention, hname⟩, hnonempty, hsymbol⟩
  · rintro ⟨hother, ⟨names, hmention, hname⟩, hnonempty, hsymbol⟩
    refine ⟨_, List.mem_map.2 ⟨(source, names), hmention, rfl⟩, rfl, List.mem_filter.2 ⟨hname, ?_⟩⟩
    simp [hnonempty, hsymbol, hother.symm]

theorem exists_imported_iff :
    (∃ d ∈ o.importedWords symbols, d.source = source ∧ target ∈ d.targets) ↔
      source ≠ target ∧ o.UsesImport symbols source target := by
  rw [importedWords_eq]
  unfold UsesImport
  constructor
  · rintro ⟨d, hd, rfl, htarget⟩
    split at hd
    · cases hd
    · obtain ⟨⟨name, span⟩, hitem, rfl⟩ := List.mem_map.1 hd
      obtain ⟨himported, hcounts⟩ := List.mem_filter.1 htarget
      rw [Bool.and_eq_true, bne_iff_ne, Text.holdsWord_iff] at hcounts
      exact ⟨hcounts.1.symm, mem_importedSymbols_iff.1 himported, span, hitem, hcounts.2⟩
  · rintro ⟨hother, himports, span, hitem, hword⟩
    have himported := mem_importedSymbols_iff.2 himports
    rw [if_neg (List.ne_nil_of_mem himported)]
    refine ⟨_, List.mem_map.2 ⟨(source, span), hitem, rfl⟩, rfl,
      List.mem_filter.2 ⟨himported, ?_⟩⟩
    rw [Bool.and_eq_true, bne_iff_ne, Text.holdsWord_iff]
    exact ⟨hother.symm, hword⟩

theorem exists_dependence_iff :
    (∃ d ∈ o.dependences symbols, d.source = source ∧ target ∈ d.targets) ↔
      source ≠ target ∧
        (o.MentionsSymbol symbols source target ∨ o.UsesImport symbols source target) := by
  unfold dependences
  simp only [List.mem_append, or_and_right, exists_or]
  rw [exists_mentioned_iff, exists_imported_iff, and_or_left]

theorem exists_source_iff :
    (∃ d ∈ o.dependences symbols, d.source = source) ↔
      source ∈ o.mentions.map Prod.fst ∨
        (∃ t, o.Imports symbols t) ∧ source ∈ o.items.map Prod.fst := by
  have hmentioned : source ∈ (o.mentionedSymbols symbols).map Dependence.source ↔
      source ∈ o.mentions.map Prod.fst := by
    rw [mentionedSymbols, List.map_map]
    rfl
  have himported : source ∈ (o.importedWords symbols).map Dependence.source ↔
      (∃ t, o.Imports symbols t) ∧ source ∈ o.items.map Prod.fst := by
    rw [importedWords_eq]
    by_cases hnone : o.importedSymbols symbols = []
    · have hno := importedSymbols_eq_nil_iff.1 hnone
      simp [hnone, hno]
    · have hsome := not_not.1 (mt importedSymbols_eq_nil_iff.2 hnone)
      rw [if_neg hnone, and_iff_right hsome, List.map_map]
      rfl
  rw [← List.mem_map, dependences, List.map_append, List.mem_append, hmentioned, himported]

end Outline

/-! ## The whole graph -/

namespace Graph

/-- **The graph of dependencies has the edges and nodes that the files give reasons for, and no
others.** A name points to another one exactly if some file says that the first mentions the second,
which is a symbol and not empty, or imports the second, a symbol, and has it as a whole word in the
lines of the first. The nodes are all that some file says mentions of, and the functions and classes
of all files that import a symbol. The lines of a function or class are those with the numbers of
its span. -/
theorem ofDependencies_exact (files : Assoc Outline) (symbols : Symbols) :
    (∀ source target, (ofDependencies files symbols).Edge source target ↔
        source ≠ target ∧ ∃ e ∈ files,
          e.2.MentionsSymbol symbols source target ∨ e.2.UsesImport symbols source target) ∧
      (∀ node, Assoc.has (ofDependencies files symbols) node = true ↔ ∃ e ∈ files,
          node ∈ e.2.mentions.map Prod.fst ∨
            (∃ t, e.2.Imports symbols t) ∧ node ∈ e.2.items.map Prod.fst) ∧
      ∀ e ∈ files, ∀ item ∈ e.2.items, 1 ≤ item.2.first → 0 ≤ item.2.last →
        slice e.2.lines (item.2.first - 1) item.2.last =
          ((e.2.lines.zipIdx 1).filter fun line =>
            item.2.first ≤ line.2 ∧ (line.2 : Int) ≤ item.2.last).map Prod.fst := by
  refine ⟨fun source target => ?_, fun node => ?_, fun e _ item _ => slice_eq_numbered⟩
  · rw [edge_ofDependencies_iff, ← exists_and_left]
    refine exists_congr fun e => ?_
    rw [Outline.exists_dependence_iff]
    exact and_left_comm
  · rw [has_ofDependencies_iff]
    exact exists_congr fun e => and_congr_right fun _ => Outline.exists_source_iff

end Graph

end SourceAtlas
