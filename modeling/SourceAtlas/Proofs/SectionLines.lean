import Mathlib.Data.List.Forall2
import SourceAtlas.Outline.Data
import SourceAtlas.Proofs.JsonRoundTrip
import SourceAtlas.Proofs.PatternRuns

/-!
# The lines of the sections of a value

A value is written with one item or field per line. A section for a field should start on the line
that its key is written on, and one for a named item on a line of that item. The line is looked up
by the name, though: it is the first one, from the line of the section around on, that shows the
name as a key. So a section starts in its own text exactly if that line is one of its own lines
(`sections_start_in_parts`), and it does not if the name is shown earlier, by another field of that
name, or not at all, as with most names of items (`sections_off_their_parts`).

`Accepts` says what a pattern matches, so that what a line shows is said without patterns.
-/

set_option autoImplicit false

namespace SourceAtlas

namespace Pattern

/-- What the pattern matches: texts of the language `L`, any of them. -/
def Accepts (p : Pattern) (L : List Char → Prop) : Prop :=
  ∀ (s : Cursor) (k : Rest), (run p s k).isSome ↔
    ∃ w rest, s.ahead = w ++ rest ∧ L w ∧ (k (s.past w rest [])).isSome

theorem accepts_exactly (t : String) : (exactly t).Accepts (· = t.toList) := by
  intro s k
  by_cases h : t.toList <+: s.ahead
  · obtain ⟨rest, hrest⟩ := h
    rw [takesOnly_exactly t rest hrest.symm]
    constructor
    · exact fun hk => ⟨_, rest, hrest.symm, rfl, hk⟩
    · rintro ⟨_, rest', hrest', rfl, hk⟩
      rwa [← List.append_cancel_left (hrest.trans hrest')] at hk
  · rw [show run (exactly t) s k = none from fails_chars h rfl]
    simp only [Option.isSome_none, Bool.false_eq_true, false_iff]
    rintro ⟨_, rest, hrest, rfl, -⟩
    exact h ⟨rest, hrest.symm⟩

theorem accepts_blanks : blanks.Accepts fun w => ∀ c ∈ w, Text.isBlank c = true := by
  intro s k
  simp only [← mem_blankItem]
  exact isSome_run_many

theorem Accepts.seq {p q : Pattern} {L M : List Char → Prop} (hp : p.Accepts L)
    (hq : q.Accepts M) : (p ++ q).Accepts fun w => ∃ u v, w = u ++ v ∧ L u ∧ M v := by
  intro s k
  rw [show run (p ++ q) s k = run p s fun t => run q t k from rfl, hp]
  constructor
  · rintro ⟨u, rest, hahead, hu, hrun⟩
    obtain ⟨v, rest', hrest, hv, hk⟩ := (hq _ _).1 hrun
    refine ⟨u ++ v, rest', ?_, ⟨u, v, rfl, hu, hv⟩, ?_⟩
    · rw [hahead, show rest = v ++ rest' from hrest, List.append_assoc]
    · rwa [Cursor.past_past] at hk
  · rintro ⟨_, rest, hahead, ⟨u, v, rfl, hu, hv⟩, hk⟩
    refine ⟨u, v ++ rest, by rw [hahead, List.append_assoc], hu, (hq _ _).2 ⟨v, rest, rfl, hv, ?_⟩⟩
    rwa [Cursor.past_past]

theorem isSome_findFrom? {p : Pattern} {L : List Char → Prop} (hp : p.Accepts L) (place : Nat)
    (passed cs : List Char) :
    (findFrom? p place passed cs).isSome ↔ ∃ a w b, cs = a ++ (w ++ b) ∧ L w := by
  have hhere := fun place passed cs => hp ⟨place, passed, cs, []⟩ some
  induction cs generalizing place passed with
  | nil =>
    rw [findFrom?, Option.isSome_map, hhere]
    simp
  | cons c cs ih =>
    rw [findFrom?]
    cases hrun : run p ⟨place, passed, c :: cs, []⟩ some with
    | some t =>
      obtain ⟨w, b, htext, hw, -⟩ := (hhere place passed (c :: cs)).1 (by rw [hrun]; rfl)
      exact iff_of_true rfl ⟨[], w, b, htext, hw⟩
    | none =>
      refine (ih _ _).trans ⟨?_, ?_⟩
      · rintro ⟨a, w, b, rfl, hw⟩
        exact ⟨c :: a, w, b, rfl, hw⟩
      · rintro ⟨a, w, b, htext, hw⟩
        cases a with
        | nil =>
          have hsome := (hhere place passed (c :: cs)).2 ⟨w, b, htext, hw, rfl⟩
          rw [hrun] at hsome
          cases hsome
        | cons d a => exact ⟨a, w, b, (List.cons.inj htext).2, hw⟩

end Pattern

namespace Data

open Json (textAt fieldAt breakAt furtherAt quoted)

/-- The line shows the key between quotes with a colon behind, blanks allowed around the key and
before the colon. -/
def Shows (key : String) (line : List Char) : Prop :=
  ∃ a u v w b, line = a ++ '"' :: (u ++ (key.toList ++ (v ++ '"' :: (w ++ ':' :: b)))) ∧
    ∀ c ∈ u ++ (v ++ w), Text.isBlank c = true

theorem occursIn_keyPattern (key : String) (line : List Char) :
    (keyPattern key).occursIn line = true ↔ Shows key line := by
  have hquote := Pattern.accepts_exactly "\""
  have hblanks := Pattern.accepts_blanks
  have haccepts := (((((hquote.seq hblanks).seq (Pattern.accepts_exactly key)).seq hblanks).seq
    hquote).seq hblanks).seq (Pattern.accepts_exactly ":")
  refine (Pattern.isSome_findFrom? haccepts 0 [] line).trans ⟨?_, ?_⟩
  · rintro ⟨a, _, b, rfl, _, _, rfl, ⟨_, w, rfl, ⟨_, _, rfl, ⟨_, v, rfl, ⟨_, _, rfl,
      ⟨_, u, rfl, rfl, hu⟩, rfl⟩, hv⟩, rfl⟩, hw⟩, rfl⟩
    refine ⟨a, u, v, w, b, by simp, ?_⟩
    simp only [List.mem_append]
    rintro c (hc | hc | hc)
    exacts [hu c hc, hv c hc, hw c hc]
  · rintro ⟨a, u, v, w, b, rfl, hall⟩
    simp only [List.mem_append] at hall
    exact ⟨a, _, b, by simp, _, _, rfl, ⟨_, w, rfl, ⟨_, _, rfl, ⟨_, v, rfl, ⟨_, _, rfl, ⟨_, u, rfl,
      rfl, fun c hc => hall c (.inl hc)⟩, rfl⟩, fun c hc => hall c (.inr (.inl hc))⟩, rfl⟩,
      fun c hc => hall c (.inr (.inr hc))⟩, rfl⟩

/-- The first line from index `start` on that shows the key has the index `j`. -/
def FirstShown (lines : List (List Char)) (key : String) (start j : Nat) : Prop :=
  start ≤ j ∧ (∃ line, lines[j]? = some line ∧ Shows key line) ∧
    ∀ i line, start ≤ i → i < j → lines[i]? = some line → ¬ Shows key line

/-- A part of a written value that has a section: its name, the index of the line from which on the
name is looked for, the text in front of the part, and the text of the part. -/
structure Part where
  name : String
  start : Nat
  before : List Char
  own : List Char

/-- The part stands on the line with this index. -/
def Part.StandsOn (p : Part) (j : Nat) : Prop :=
  p.before.count '\n' ≤ j ∧ j ≤ (p.before ++ p.own).count '\n'

mutual

/-- The parts of a value inside `level` brackets and behind the text `before`, with names looked for
from index `start` on. -/
def parts (lines : List (List Char)) (level start : Nat) (before : List Char) : Json → List Part
  | .object fields =>
    if level < maxDepth then
      fieldParts lines (level + 1) start (before ++ '\x7b' :: breakAt (level + 1)) fields
    else []
  | .array items =>
    if level < maxDepth then
      itemParts lines (level + 1) start (before ++ '[' :: breakAt (level + 1)) items
    else []
  | _ => []

/-- Fields are named by their keys, and what is looked for inside of one is looked for from its line
on. A reference is no part. -/
def fieldParts (lines : List (List Char)) (level start : Nat) (before : List Char) :
    List (String × Json) → List Part
  | [] => []
  | (key, value) :: rest =>
    (match key == "$ref", value with
      | true, .text _ => []
      | _, _ =>
        ⟨key, start, before, quoted key⟩ ::
          parts lines level (keyLine lines key start - 1) (before ++ quoted key ++ [':', ' '])
            value) ++
      fieldParts lines level start (before ++ fieldAt level (key, value) ++ ',' :: breakAt level)
        rest

/-- Objects of an array are parts if they have a name. -/
def itemParts (lines : List (List Char)) (level start : Nat) (before : List Char) :
    List Json → List Part
  | [] => []
  | .object fields :: rest =>
    (match itemName? (.object fields) with
      | some name =>
        ⟨name, start, before, textAt level (.object fields)⟩ ::
          parts lines level (keyLine lines name start - 1) before (.object fields)
      | none => parts lines level start before (.object fields)) ++
      itemParts lines level start
        (before ++ textAt level (.object fields) ++ ',' :: breakAt level) rest
  | value :: rest =>
    itemParts lines level start (before ++ textAt level value ++ ',' :: breakAt level) rest

end

/-! ## Where names are found -/

section Lines

variable {lines : List (List Char)}

/-- A line other than the first of all is the one found for a key exactly if it is the first to show
the key. -/
theorem keyLine_eq_iff {key : String} {start j : Nat} (hj : 1 ≤ j) :
    keyLine lines key start = j + 1 ↔ FirstShown lines key start j := by
  simp only [FirstShown, ← occursIn_keyPattern, keyLine]
  cases hfind : (lines.drop start).findIdx? (keyPattern key).occursIn with
  | none =>
    rw [List.findIdx?_eq_none_iff] at hfind
    refine iff_of_false (by simp; omega) ?_
    rintro ⟨hstart, ⟨line, hline, hshows⟩, -⟩
    have hmem : line ∈ lines.drop start := by
      refine List.mem_of_getElem? (i := j - start) ?_
      rwa [List.getElem?_drop, Nat.add_sub_cancel' hstart]
    rw [hfind line hmem] at hshows
    cases hshows
  | some i =>
    obtain ⟨hi, hshown, hfirst⟩ := List.findIdx?_eq_some_iff_getElem.1 hfind
    have hline : lines[start + i]? = some (lines.drop start)[i] := by
      rw [← List.getElem?_drop, List.getElem?_eq_getElem hi]
    have hearlier : ∀ k line, start ≤ k → k < start + i → lines[k]? = some line →
        ¬ (keyPattern key).occursIn line = true := by
      intro k line hk hlt hkline
      rw [← Nat.add_sub_cancel' hk, ← List.getElem?_drop] at hkline
      obtain ⟨hbound, hget⟩ := List.getElem?_eq_some_iff.1 hkline
      exact hget ▸ hfirst (k - start) (by omega)
    constructor
    · intro heq
      obtain rfl : j = start + i := by simp at heq; omega
      exact ⟨by omega, ⟨_, hline, hshown⟩, hearlier⟩
    · rintro ⟨hstart, ⟨line, hjline, hshows⟩, hmin⟩
      have hge : ¬ j < start + i := fun hlt => hearlier j line hstart hlt hjline hshows
      have hle : ¬ start + i < j := fun hlt => hmin _ _ (by omega) hlt hline hshown
      simp only
      omega

/-- The part is found on one of its lines. -/
def Part.Found (lines : List (List Char)) (p : Part) : Prop :=
  ∃ j, FirstShown lines p.name p.start j ∧ p.StandsOn j

/-- The section starts on a line of the part. -/
def StartsIn (s : Section) (p : Part) : Prop := ∃ j : Nat, s.span.first = j + 1 ∧ p.StandsOn j

/-- The section is named for the part, and it starts on a line of the part exactly if the first line
that shows the name is one. -/
def IsFor (lines : List (List Char)) (s : Section) (p : Part) : Prop :=
  p.name.toList <:+ s.title.toList ∧ (StartsIn s p ↔ p.Found lines)

theorem forall₂_startsIn_iff {sections : List Section} {ps : List Part}
    (h : List.Forall₂ (IsFor lines) sections ps) :
    List.Forall₂ StartsIn sections ps ↔ ∀ p ∈ ps, p.Found lines := by
  induction h with
  | nil => simp
  | cons hfirst _ ih => rw [List.forall₂_cons, List.forall_mem_cons, hfirst.2, ih]

theorem isFor_lineSection {p : Part} {title : String} (hp : '\n' ∈ p.before)
    (htitle : p.name.toList <:+ title.toList) (depth : Nat) :
    IsFor lines ⟨title, depth, ⟨keyLine lines p.name p.start, keyLine lines p.name p.start⟩⟩ p := by
  have hline := List.count_pos_iff.2 hp
  refine ⟨htitle, exists_congr fun j => and_congr_left fun hj => ?_⟩
  have hpos := hline.trans_le hj.1
  rw [← keyLine_eq_iff hpos]
  simp only
  omega

theorem forall₂_append {a b : Findings} {ps qs : List Part}
    (ha : List.Forall₂ (IsFor lines) a.sections ps)
    (hb : List.Forall₂ (IsFor lines) b.sections qs) :
    List.Forall₂ (IsFor lines) (a.append b).sections (ps ++ qs) :=
  List.rel_append ha hb

-- One case per kind of value. The values inside of one are further down, and behind the brackets
-- around them there is a line break.
mutual

theorem forall₂_walk (level start : Nat) (before path : List Char) (value : Json) :
    List.Forall₂ (IsFor lines) (walk lines path (level + 1) start value).sections
      (parts lines level start before value) := by
  match value with
  | .object fields =>
    rw [walk, parts]
    by_cases hlevel : level < maxDepth
    · rw [if_neg (by omega), if_pos hlevel]
      exact forall₂_walkFields _ _ (by simp [breakAt]) path fields
    · rw [if_pos (by omega), if_neg hlevel]
      exact .nil
  | .array items =>
    rw [walk, parts]
    by_cases hlevel : level < maxDepth
    · rw [if_neg (by omega), if_pos hlevel]
      exact forall₂_walkItems _ _ (by simp [breakAt]) path 0 items
    · rw [if_pos (by omega), if_neg hlevel]
      exact .nil
  | .null => exact .nil
  | .bool _ => exact .nil
  | .int _ => exact .nil
  | .real _ => exact .nil
  | .text _ => exact .nil

theorem forall₂_walkFields (level start : Nat) {before : List Char} (hbefore : '\n' ∈ before)
    (path : List Char) (fields : List (String × Json)) :
    List.Forall₂ (IsFor lines) (walkFields lines path level start fields).sections
      (fieldParts lines level start before fields) := by
  match fields with
  | [] => exact .nil
  | (key, value) :: rest =>
    unfold walkFields fieldParts
    dsimp only
    refine forall₂_append ?_ (forall₂_walkFields _ _ (by simp [hbefore]) path rest)
    have hvalue := fun start before path => forall₂_walk level start before path value
    have hfield : IsFor lines _ ⟨key, start, before, quoted key⟩ :=
      isFor_lineSection hbefore (List.suffix_refl key.toList) level
    cases key == "$ref" with
    | false => exact .cons hfield (hvalue _ _ _)
    | true =>
      cases value with
      | text target => exact .nil
      | _ => exact .cons hfield (hvalue _ _ _)

theorem forall₂_walkItems (level start : Nat) {before : List Char} (hbefore : '\n' ∈ before)
    (path : List Char) (i : Nat) (items : List Json) :
    List.Forall₂ (IsFor lines) (walkItems lines path level start i items).sections
      (itemParts lines level start before items) := by
  match items with
  | [] => exact .nil
  | .object fields :: rest =>
    rw [walkItems, itemParts]
    refine forall₂_append ?_ (forall₂_walkItems _ _ (by simp [hbefore]) path (i + 1) rest)
    cases itemName? (.object fields) with
    | none => exact forall₂_walk level _ _ _ (.object fields)
    | some name =>
      have htitle : name.toList <:+ (String.ofList (lastStep path ++
          ('[' :: (toString i).toList ++ [']']) ++ ' ' :: name.toList)).toList := by
        rw [String.toList_ofList]
        exact (List.suffix_cons _ _).trans (List.suffix_append _ _)
      have hitem : IsFor lines _ ⟨name, start, before, textAt level (.object fields)⟩ :=
        isFor_lineSection hbefore htitle level
      exact .cons hitem (forall₂_walk level _ _ _ (.object fields))
  | .array _ :: rest | .null :: rest | .bool _ :: rest | .int _ :: rest | .real _ :: rest
  | .text _ :: rest => exact forall₂_walkItems _ _ (by simp [hbefore]) path (i + 1) rest

end

theorem prefix_of_append {u v text : List Char} (h : u ++ v <+: text) : u <+: text :=
  (List.prefix_append u v).trans h

/-- A part of an array is an item with a name, a part of an item, or a part of those behind it. -/
theorem mem_itemParts {level start : Nat} {before : List Char} {value : Json} {rest : List Json}
    {p : Part} (hp : p ∈ itemParts lines level start before (value :: rest)) :
    (p.before = before ∧ p.own = textAt level value) ∨
      (∃ start, p ∈ parts lines level start before value) ∨
      p ∈ itemParts lines level start (before ++ textAt level value ++ ',' :: breakAt level)
        rest := by
  cases value with
  | object fields =>
    rw [itemParts] at hp
    obtain hp | hp := List.mem_append.1 hp
    · split at hp
      · obtain rfl | hp := List.mem_cons.1 hp
        · exact .inl ⟨rfl, rfl⟩
        · exact .inr (.inl ⟨_, hp⟩)
      · exact .inr (.inl ⟨_, hp⟩)
    · exact .inr (.inr hp)
  | _ => exact .inr (.inr hp)

-- Every part is a prefix of what follows the text in front of it, and that prefix of the whole.
mutual

theorem parts_stand {lines : List (List Char)} {text : List Char} (level start : Nat)
    {before : List Char} (value : Json) : before ++ textAt level value <+: text →
    ∀ p ∈ parts lines level start before value, p.before ++ p.own <+: text := by
  match value with
  | .object fields =>
    intro htext
    rw [parts]
    split
    · apply fieldParts_stand
      intro field rest hfields
      rw [hfields, Json.textAt_object, List.map_cons, Json.laidOut] at htext
      simp only [← List.append_assoc, ← List.cons_append] at htext ⊢
      exact prefix_of_append (prefix_of_append htext)
    · simp
  | .array items =>
    intro htext
    rw [parts]
    split
    · apply itemParts_stand
      intro value rest hitems
      rw [hitems, Json.textAt_array, List.map_cons, Json.laidOut] at htext
      simp only [← List.append_assoc, ← List.cons_append] at htext ⊢
      exact prefix_of_append (prefix_of_append htext)
    · simp
  | .null => simp [parts]
  | .bool _ => simp [parts]
  | .int _ => simp [parts]
  | .real _ => simp [parts]
  | .text _ => simp [parts]

theorem fieldParts_stand {lines : List (List Char)} {text : List Char} (level start : Nat)
    {before : List Char} (fields : List (String × Json))
    (htext : ∀ field rest, fields = field :: rest →
      before ++ (fieldAt level field ++ furtherAt level (rest.map (fieldAt level))) <+: text) :
    ∀ p ∈ fieldParts lines level start before fields, p.before ++ p.own <+: text := by
  match fields with
  | [] => simp [fieldParts]
  | (key, value) :: rest =>
    have hhere := htext _ _ rfl
    have hrest : ∀ p ∈ fieldParts lines level start
        (before ++ fieldAt level (key, value) ++ ',' :: breakAt level) rest,
        p.before ++ p.own <+: text :=
      fieldParts_stand level start rest (by rintro field more rfl; simpa [furtherAt] using hhere)
    rw [← List.append_assoc] at hhere
    have hfield : before ++ quoted key ++ [':', ' '] ++ textAt level value <+: text := by
      simpa [fieldAt] using prefix_of_append hhere
    have hkey : before ++ quoted key <+: text :=
      prefix_of_append (prefix_of_append hfield)
    have hvalue : ∀ start, ∀ p ∈ parts lines level start (before ++ quoted key ++ [':', ' ']) value,
        p.before ++ p.own <+: text := fun start => parts_stand level start value hfield
    unfold fieldParts
    intro p hp
    obtain hp | hp := List.mem_append.1 hp
    · split at hp
      · cases hp
      · obtain rfl | hp := List.mem_cons.1 hp
        · exact hkey
        · exact hvalue _ p hp
    · exact hrest p hp

theorem itemParts_stand {lines : List (List Char)} {text : List Char} (level start : Nat)
    {before : List Char} (items : List Json)
    (htext : ∀ value rest, items = value :: rest →
      before ++ (textAt level value ++ furtherAt level (rest.map (textAt level))) <+: text) :
    ∀ p ∈ itemParts lines level start before items, p.before ++ p.own <+: text := by
  match items with
  | [] => simp [itemParts]
  | value :: rest =>
    have hhere := htext _ _ rfl
    have hrest : ∀ p ∈ itemParts lines level start
        (before ++ textAt level value ++ ',' :: breakAt level) rest, p.before ++ p.own <+: text :=
      itemParts_stand level start rest (by rintro next more rfl; simpa [furtherAt] using hhere)
    rw [← List.append_assoc] at hhere
    have hown : before ++ textAt level value <+: text := prefix_of_append hhere
    have hvalue : ∀ start, ∀ p ∈ parts lines level start before value,
        p.before ++ p.own <+: text := fun start => parts_stand level start value hown
    intro p hp
    obtain ⟨hbefore, hpart⟩ | ⟨start, hp⟩ | hp := mem_itemParts hp
    · rwa [hbefore, hpart]
    · exact hvalue start p hp
    · exact hrest p hp

end

end Lines

/-- The lines of a value as it is written. -/
def writtenLines (v : Json) : List (List Char) := Text.splitNewlines (Json.indented v).toList

/-- The parts of a value as it is written. -/
def writtenParts (v : Json) : List Part := parts (writtenLines v) 0 0 [] v

/-- The sections of a written value are those of its parts, in order, and each starts on a line of
its part exactly if the first line that shows its name, from the line of the section around on, is a
line of the part. So all of them do exactly if every part is found. -/
theorem sections_start_in_parts (sourceName : String) (v : Json) (hv : v.Proper 0) :
    ∃ o, outline sourceName (Json.indented v).toList = .ok o ∧
      (∀ p ∈ writtenParts v, p.before ++ p.own <+: (Json.indented v).toList) ∧
      List.Forall₂ (IsFor (writtenLines v)) o.sections (writtenParts v) ∧
      (List.Forall₂ StartsIn o.sections (writtenParts v) ↔
        ∀ p ∈ writtenParts v, p.Found (writtenLines v)) := by
  have hsections : List.Forall₂ (IsFor (writtenLines v))
      (walk (writtenLines v) [] 1 0 v).sections (writtenParts v) := forall₂_walk 0 0 [] [] v
  have houtline : outline sourceName (Json.indented v).toList =
      .ok { Outline.ofLines sourceName (Json.indented v).toList (writtenLines v) with
        sections := (walk (writtenLines v) [] 1 0 v).sections
        imports := (walk (writtenLines v) [] 1 0 v).references } := by
    rw [outline, Json.ofText_indented hv]
    rfl
  exact ⟨_, houtline, parts_stand 0 0 v (List.prefix_refl _), hsections,
    forall₂_startsIn_iff hsections⟩

/-- A field inside of another, and a later field of the same key. -/
def repeatedKey : Json := .object [("a", .object [("b", .int 1)]), ("b", .int 2)]

/-- An item with a name. -/
def namedItem : Json := .array [.object [("name", .text "x")]]

theorem sections_start_in_parts_repeatedKey :
    repeatedKey.Proper 0 ∧
      ∃ o, outline "a.json" (Json.indented repeatedKey).toList = .ok o ∧
        List.Forall₂ (IsFor (writtenLines repeatedKey)) o.sections (writtenParts repeatedKey) := by
  have hproper : repeatedKey.Proper 0 := by
    refine .object _ (by decide +kernel) (by decide +kernel) ?_
    simp only [List.forall_mem_cons, List.not_mem_nil, false_implies, implies_true, and_true]
    refine ⟨.object _ (by decide +kernel) (by decide +kernel) ?_, .int 2 (by decide +kernel)⟩
    simpa using Json.Proper.int 1 (by decide +kernel)
  obtain ⟨o, ho, -, hsections, -⟩ := sections_start_in_parts "a.json" repeatedKey hproper
  exact ⟨hproper, o, ho, hsections⟩

/-- The later of two fields of one key is reported on the line of the one before it, and an item
whose name is no key is reported on the first line, above it. -/
theorem sections_off_their_parts :
    (outline "a.json" (Json.indented repeatedKey).toList).map
        (fun o => o.sections.map fun s => (s.title, s.span.first)) =
      .ok [("a", 2), ("b", 3), ("b", 3)] ∧
    (writtenParts repeatedKey).map
        (fun p => (p.name, p.before.count '\n' + 1, (p.before ++ p.own).count '\n' + 1)) =
      [("a", 2, 2), ("b", 3, 3), ("b", 5, 5)] ∧
    (outline "a.json" (Json.indented namedItem).toList).map
        (fun o => o.sections.map fun s => (s.title, s.span.first)) =
      .ok [("[0] x", 1), ("name", 3)] ∧
    (writtenParts namedItem).map
        (fun p => (p.name, p.before.count '\n' + 1, (p.before ++ p.own).count '\n' + 1)) =
      [("x", 2, 4), ("name", 3, 3)] := by
  refine ⟨?_, ?_, ?_, ?_⟩
  · decide +kernel
  · decide +kernel
  · decide +kernel
  · decide +kernel

end Data

end SourceAtlas
