import SourceAtlas.Proofs.LineRanges
import SourceAtlas.Query.OutlineQuery

/-!
# Excerpts as parts of the text

An outline keeps the lines of a text and the offset of each line's first character. For kinds of
text that are cut at newlines only, the lines joined by newlines are the text again, and the lines
from one to another are the part of the text from the offset of the first to the end of the last
(`Outline.verbatim_ofText`). So whatever an outline shows as the source of a function or class, or
as the content of a section, stands in the text as it is shown.

The argument is one about a text and its pieces: what is dropped from the text up to an offset are
the lines before it (`drop_join_offset`), what is taken up to the end of a line are the lines up to
that one (`take_join_offset`).
-/

set_option autoImplicit false

namespace SourceAtlas

open Text

/-! ## Slices at positions that are no less than zero -/

theorem slice_natCast {α : Type} (items : List α) (first last : Nat) :
    slice items (first : Int) (last : Int) = (items.take last).drop first := by
  have hindex : ∀ position : Nat, sliceIndex items.length (position : Int) =
      min position items.length := by
    intro position
    rw [sliceIndex, if_neg (by omega), Int.toNat_natCast]
  rw [slice, hindex, hindex, ← List.drop_take, ← List.take_eq_take_min]
  rcases Nat.le_total first items.length with hfirst | hfirst
  · rw [Nat.min_eq_left hfirst]
  · have hlength : (items.take last).length ≤ items.length := List.length_take_le' last items
    rw [Nat.min_eq_right hfirst, List.drop_eq_nil_of_le hlength,
      List.drop_eq_nil_of_le (Nat.le_trans hlength hfirst)]

namespace Text

variable {start i : Nat}

/-! ## Offsets in a joined text -/

theorem offsetsFrom_add (start shift : Nat) (lengths : List Nat) :
    offsetsFrom (start + shift) lengths = (offsetsFrom start lengths).map (· + shift) := by
  induction lengths generalizing start with
  | nil => rfl
  | cons n lengths ih =>
    have hstart : start + shift + n + 1 = start + n + 1 + shift := by omega
    rw [offsetsFrom, offsetsFrom, List.map_cons, hstart, ih]

/-- The first line starts at zero, and the others behind it and a newline. -/
theorem offsets_cons (line : List Char) (lines : List (List Char)) :
    offsets (line :: lines) = 0 :: (offsets lines).map (· + (line.length + 1)) := by
  have hshift := offsetsFrom_add 0 (line.length + 1) (lines.map List.length)
  rw [offsets, List.map_cons, offsetsFrom, Nat.add_assoc, hshift]
  rfl

theorem offsets_take (lines : List (List Char)) (n : Nat) :
    offsets (lines.take n) = (offsets lines).take n := by
  induction lines generalizing n with
  | nil => simp [offsets, offsetsFrom]
  | cons line lines ih =>
    cases n with
    | zero => rfl
    | succ n => rw [List.take_succ_cons, offsets_cons, offsets_cons, List.take_succ_cons, ih,
        List.map_take]

variable {lines : List (List Char)}

/-- The offset of a later line, and that line itself, come from the lines behind the first. -/
theorem exists_offset_of_succ {line : List Char}
    (h : (offsets (line :: lines))[i + 1]? = some start) :
    ∃ later, (offsets lines)[i]? = some later ∧ start = line.length + 1 + later ∧ lines ≠ [] := by
  rw [offsets_cons, List.getElem?_cons_succ, List.getElem?_map, Option.map_eq_some_iff] at h
  obtain ⟨later, hlater, rfl⟩ := h
  refine ⟨later, hlater, Nat.add_comm _ _, ?_⟩
  rintro rfl
  cases hlater

/-- A text less what stands before the offset of a line are the lines from there on. -/
theorem drop_join_offset (h : (offsets lines)[i]? = some start) :
    (join ['\n'] lines).drop start = join ['\n'] (lines.drop i) := by
  induction lines generalizing i start with
  | nil => cases h
  | cons line lines ih =>
    cases i with
    | zero =>
      rw [offsets_cons] at h
      cases h
      rfl
    | succ i =>
      obtain ⟨later, hlater, rfl, hne⟩ := exists_offset_of_succ h
      have hfront : (line ++ ['\n']).length = line.length + 1 := List.length_append
      rw [join_cons_of_ne_nil _ _ hne, ← hfront, List.drop_length_add_append]
      exact ih hlater

/-- A text up to the end of a line are the lines up to that one. -/
theorem take_join_offset {j : Nat} {last : List Char} (h : (offsets lines)[j]? = some start)
    (hlast : lines[j]? = some last) :
    (join ['\n'] lines).take (start + last.length) = join ['\n'] (lines.take (j + 1)) := by
  induction lines generalizing j start with
  | nil => cases h
  | cons line lines ih =>
    cases j with
    | zero =>
      rw [offsets_cons] at h
      cases h
      cases hlast
      cases lines with
      | nil => simp
      | cons next lines => simp [join_cons_of_ne_nil]
    | succ j =>
      obtain ⟨later, hlater, rfl, hne⟩ := exists_offset_of_succ h
      rw [List.getElem?_cons_succ] at hlast
      have hfront : (line ++ ['\n']).length = line.length + 1 := List.length_append
      have htaken : lines.take (j + 1) ≠ [] := by simpa using hne
      rw [join_cons_of_ne_nil _ _ hne, List.take_succ_cons, join_cons_of_ne_nil _ _ htaken,
        ← ih hlater hlast, Nat.add_assoc, ← hfront, List.take_length_add_append]

/-- **The part of a text from the offset of a line to the end of another are the lines from the one
to the other.** -/
theorem slice_join_offsets {j first : Nat} {last : List Char}
    (hfirst : (offsets lines)[i]? = some first) (hstart : (offsets lines)[j]? = some start)
    (hlast : lines[j]? = some last) (hle : i ≤ j) :
    slice (join ['\n'] lines) (first : Int) ((start + last.length : Nat) : Int) =
      join ['\n'] ((lines.take (j + 1)).drop i) := by
  have hprefix : (offsets (lines.take (j + 1)))[i]? = some first := by
    rw [offsets_take, List.getElem?_take_of_lt (Nat.lt_succ_of_le hle), hfirst]
  rw [slice_natCast, take_join_offset hstart hlast, drop_join_offset hprefix]

end Text

/-! ## Outlines that keep the text -/

/-- A text of the kind is cut at newlines only. A JSON text is, if it can be read. -/
def FileKind.CutsAtNewlines (text : List Char) : FileKind → Prop
  | .python | .plain => False
  | .json => ∃ value, Json.ofText text = .ok value
  | .prose | .script | .go | .rust | .csharp => True

namespace Outline

variable {o : Outline}

/-- The lines of the outline are the pieces of the text between newlines, with their offsets, and
all that it speaks of lies within them. -/
structure Keeps (o : Outline) (text : List Char) : Prop where
  lines : o.lines = (splitNewlines text).map String.ofList
  offsets : o.offsets = Text.offsets (splitNewlines text)
  spans : o.WellSpanned

/-- The part is what stands in the text from the offset of the first line of a range to the end of
its last line. -/
def IsSlice (o : Outline) (text : String) (span : Span) (part : String) : Prop :=
  ∃ first start last, o.offsets[(span.first - 1).toNat]? = some first ∧
    o.offsets[(span.last - 1).toNat]? = some start ∧ o.lines[(span.last - 1).toNat]? = some last ∧
      part = String.ofList (slice text.toList first (start + last.length : Nat))

theorem joinLines_map (lines : List (List Char)) :
    joinLines (lines.map String.ofList) = String.ofList (join ['\n'] lines) := by
  rw [← String.toList_inj]
  simp [joinLines, join, Function.comp_def]

theorem Keeps.joinLines {text : String} (h : o.Keeps text.toList) :
    joinLines o.lines = text := by
  rw [h.lines, joinLines_map, splitNewlines, join_splitOn, String.ofList_toList]

/-- Lines within the text are shown as they stand there. -/
theorem Keeps.isSlice {text : String} (h : o.Keeps text.toList) {span : Span}
    (hspan : span.Within o.totalLines) : o.IsSlice text span (o.textOf span) := by
  obtain ⟨hone, hle, htotal⟩ := hspan
  rw [h.spans.lines, h.lines, List.length_map] at htotal
  have hjoin : join ['\n'] (splitNewlines text.toList) = text.toList :=
    join_splitOn '\n' text.toList
  have hlength := length_offsets (splitNewlines text.toList)
  rw [IsSlice, textOf, linesOf, h.lines, h.offsets]
  generalize splitNewlines text.toList = pieces at htotal hjoin hlength ⊢
  -- The range by indexes from zero.
  obtain ⟨i, hi⟩ : ∃ i : Nat, span.first - 1 = i := ⟨(span.first - 1).toNat, by omega⟩
  obtain ⟨j, hj⟩ : ∃ j : Nat, span.last - 1 = j := ⟨(span.last - 1).toNat, by omega⟩
  have hlast : span.last = ((j + 1 : Nat) : Int) := by omega
  rw [hi, hj, hlast, Int.toNat_natCast, Int.toNat_natCast]
  have hfirst := List.getElem?_eq_getElem (l := Text.offsets pieces) (i := i) (by omega)
  have hstart := List.getElem?_eq_getElem (l := Text.offsets pieces) (i := j) (by omega)
  have hline := List.getElem?_eq_getElem (l := pieces) (i := j) (by omega)
  refine ⟨_, _, _, hfirst, hstart, by rw [List.getElem?_map, hline]; rfl, ?_⟩
  rw [slice_natCast, ← List.map_take, ← List.map_drop, joinLines_map, ← hjoin,
    String.length_ofList, slice_join_offsets hfirst hstart hline (by omega)]

/-- Texts that are cut at newlines only have an outline, and it keeps them. -/
theorem exists_keeps_ofKind {kind : FileKind} {text : List Char}
    (h : kind.CutsAtNewlines text) (sourceName : String) :
    ∃ o, ofKind kind sourceName text = .ok o ∧ o.Keeps text := by
  cases kind with
  | python => exact h.elim
  | plain => exact h.elim
  | prose => exact ⟨_, rfl, rfl, rfl, Prose.wellSpanned_outline _ _⟩
  | script => exact ⟨_, rfl, rfl, rfl, Script.wellSpanned_outline _ _⟩
  | go => exact ⟨_, rfl, rfl, rfl, Go.wellSpanned_outline _ _⟩
  | rust => exact ⟨_, rfl, rfl, rfl, Rust.wellSpanned_outline _ _⟩
  | csharp => exact ⟨_, rfl, rfl, rfl, CSharp.wellSpanned_outline _ _⟩
  | json =>
    obtain ⟨value, hvalue⟩ := h
    have hread : ∃ o, Data.outline sourceName text = .ok o ∧
        o.lines = (splitNewlines text).map String.ofList ∧
        o.offsets = Text.offsets (splitNewlines text) := by
      rw [Data.outline, hvalue]
      exact ⟨_, rfl, rfl, rfl⟩
    obtain ⟨o, ho, hlines, hoffsets⟩ := hread
    exact ⟨o, ho, hlines, hoffsets, Data.wellSpanned_outline ho⟩

theorem excerpt_of_within {first last : Int} (h : Span.Within ⟨first, last⟩ o.totalLines) :
    o.excerpt first last = .ok (o.textOf ⟨first, last⟩) := by
  obtain ⟨hone, hle, htotal⟩ := h
  dsimp only at hone hle htotal
  rw [excerpt, if_neg (show ¬ last > o.totalLines by omega),
    if_neg (show ¬ first < 1 by omega), if_neg (show ¬ first > last by omega)]

/-- **What an outline shows stands so in the text.** A text of a kind that is cut at newlines only
has an outline. Its lines joined by newlines are the text. The lines of any range within it are the
part of the text from the offset of the first to the end of the last, and so are the source of a
function or class and the content of a section for the lines that they occupy. -/
theorem verbatim_ofText (text sourceName : String) (label : Option String)
    (hkind : (FileKind.of sourceName label).CutsAtNewlines text.toList) :
    ∃ o, ofText text sourceName label = .ok o ∧ joinLines o.lines = text ∧
      (∀ first last : Int, 1 ≤ first → first ≤ last → last ≤ o.totalLines →
        ∃ part, o.excerpt first last = .ok part ∧ o.IsSlice text ⟨first, last⟩ part) ∧
      (∀ name f, o.function? name = some f →
        ∃ part, o.functionSource name = .ok part ∧ o.IsSlice text f.span part) ∧
      (∀ name c, o.class? name = some c →
        ∃ part, o.classSource name = .ok part ∧ o.IsSlice text c.span part) ∧
      ∀ title s, o.sections.find? (·.title == title) = some s →
        ∃ part, o.sectionContent title = .ok part ∧ o.IsSlice text s.span part := by
  obtain ⟨o, ho, hkeeps⟩ := exists_keeps_ofKind hkind sourceName
  have hspans := hkeeps.spans
  refine ⟨o, ho, hkeeps.joinLines, ?_, ?_, ?_, ?_⟩
  · intro first last hfirst hle hlast
    have hwithin : Span.Within ⟨first, last⟩ o.totalLines := ⟨hfirst, hle, hlast⟩
    exact ⟨_, excerpt_of_within hwithin, hkeeps.isSlice hwithin⟩
  · intro name f hf
    have hwithin := hspans.functions f (List.mem_of_find?_eq_some hf)
    exact ⟨_, by rw [functionSource, hf], hkeeps.isSlice hwithin⟩
  · intro name c hc
    have hwithin := (hspans.classes c (List.mem_of_find?_eq_some hc)).1
    exact ⟨_, by rw [classSource, hc], hkeeps.isSlice hwithin⟩
  · intro title s hs
    have hwithin := hspans.sections s (List.mem_of_find?_eq_some hs)
    exact ⟨_, by rw [sectionContent, hs], hkeeps.isSlice hwithin⟩

/-- A JSON text with a carriage return before one of its newlines, and a newline at its end. -/
def twoFields : String := "\x7b\n  \"a\": 1,\r\n  \"b\": [2]\n\x7d\n"

theorem twoFields_verbatim :
    ∃ o, ofText twoFields "two.json" none = .ok o ∧ joinLines o.lines = twoFields ∧
      o.sectionContent "a" = .ok "  \"a\": 1,\r" ∧
      o.IsSlice twoFields ⟨2, 2⟩ "  \"a\": 1,\r" := by
  have hview : FileKind.of "two.json" none = .json ∧
      (Json.ofText twoFields.toList).toOption.isSome = true ∧
      ((ofText twoFields "two.json" none).toOption.bind fun o =>
        o.sections.find? (·.title == "a")) = some ⟨"a", 1, ⟨2, 2⟩⟩ ∧
      ((ofText twoFields "two.json" none).toOption.bind fun o =>
        (o.sectionContent "a").toOption) = some "  \"a\": 1,\r" := by decide +kernel
  obtain ⟨hkind, hread, hsection, hcontent⟩ := hview
  have hcuts : (FileKind.of "two.json" none).CutsAtNewlines twoFields.toList := by
    rw [hkind]
    cases hvalue : Json.ofText twoFields.toList with
    | error fault =>
      rw [hvalue] at hread
      cases hread
    | ok value => exact ⟨value, hvalue⟩
  obtain ⟨o, ho, hjoin, -, -, -, hsections⟩ := verbatim_ofText twoFields "two.json" none hcuts
  rw [ho] at hsection hcontent
  obtain ⟨part, hpart, hslice⟩ := hsections "a" _ hsection
  have hsame : part = "  \"a\": 1,\r" := by
    change (o.sectionContent "a").toOption = _ at hcontent
    rw [hpart] at hcontent
    exact Option.some.inj hcontent
  cases hsame
  exact ⟨o, ho, hjoin, hpart, hslice⟩

end Outline

end SourceAtlas
